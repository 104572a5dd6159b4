/-
  MiniLisp.Proofs.Token.Layout

  Texts laid out from tokens, and the lexer against them.

  `Token.IsLexeme` says what the text of a token of each kind looks like, and
  `IsGap` what may stand between tokens. `LaidOut` puts the two together: gaps
  may be empty, except between two words.

  `Partition` says how any text is parted into gaps and lexemes, also one that
  ends in a comment or in a string that is not closed, and at which position
  such a string starts. `Scans` says what the scanner finds next, in one rule
  for each case, and from it follow both directions: a text is cut as it is
  parted (`lexFrom_of_partition`), and the lexer parts every text
  (`exists_partition_lexFrom`). A text that is laid out from lexemes is parted
  into just those, so the lexer cuts it into them (`lex_of_laidOut`).
-/
import MiniLisp.Proofs.Text.Spelling
import MiniLisp.Token.Lexer
import Mathlib.Tactic.SplitIfs

namespace MiniLisp

open Text (Enclosed isBlank)

/-- The token that opens a list. -/
def Bracket.openToken (b : Bracket) : Token := ⟨.opener, .singleton b.opener⟩

/-- The token that closes a list. -/
def Bracket.closeToken (b : Bracket) : Token := ⟨.closer, .singleton b.closer⟩

/-! ## Lexemes, gaps and layouts -/

/-- The token has a text of its kind. -/
inductive Token.IsLexeme : Token → Prop
  | opener (b : Bracket) : IsLexeme b.openToken
  | closer (b : Bracket) : IsLexeme b.closeToken
  | string {body : List CodePoint} (h : Enclosed '\x22' body) :
      IsLexeme ⟨.string, Text.ofList (.char '\x22' :: (body ++ [.char '\x22']))⟩
  | word {cs : List CodePoint} (hne : cs ≠ []) (h : ∀ c ∈ cs, Lexer.isWordChar c = true) :
      IsLexeme ⟨.word, Text.ofList cs⟩

namespace Lexer

/-- What may stand between tokens: blanks, and comments that a line break ends. -/
inductive IsGap : List CodePoint → Prop
  | nil : IsGap []
  | blank {c : CodePoint} {cs : List CodePoint} (hc : isBlank c = true) (h : IsGap cs) :
      IsGap (c :: cs)
  | comment {words cs : List CodePoint} (hwords : CodePoint.char '\n' ∉ words) (h : IsGap cs) :
      IsGap (.char ';' :: (words ++ .char '\n' :: cs))

/-- The text holds the tokens in order, with a gap before each and one at the end; `afterWord`
    says that the text stands behind a word, with which it must not run together. -/
inductive LaidOut : (afterWord : Bool) → List Token → List CodePoint → Prop
  | done {afterWord : Bool} {gap : List CodePoint} (hgap : IsGap gap) : LaidOut afterWord [] gap
  | token {afterWord : Bool} {gap rest : List CodePoint} {t : Token} {ts : List Token}
      (hgap : IsGap gap) (hapart : afterWord = true → t.kind = .word → gap ≠ [])
      (hrest : LaidOut (t.kind = .word) ts rest) :
      LaidOut afterWord (t :: ts) (gap ++ (t.text.toList ++ rest))

/-- What may stand before `rest`: blanks, and comments that go on up to a line break, or to the
    end of the text. -/
inductive GapBefore (rest : List CodePoint) : List CodePoint → Prop
  | nil : GapBefore rest []
  | blank {c : CodePoint} {gap : List CodePoint} (hc : isBlank c = true) (h : GapBefore rest gap) :
      GapBefore rest (c :: gap)
  | comment {words gap : List CodePoint} (hwords : CodePoint.char '\n' ∉ words)
      (hends : ∀ c ∈ (gap ++ rest).head?, c = '\n') (h : GapBefore rest gap) :
      GapBefore rest (.char ';' :: (words ++ gap))

/-- No quote mark in the text is unescaped, so that none closes a string before it. -/
def NeverCloses (cs : List CodePoint) : Prop :=
  ∀ body rest, cs = body ++ .char '\x22' :: rest → ¬Enclosed '\x22' body

/-- The text, which starts at `position`, is parted into the tokens, with a gap before each of
    them and one at the end. A word goes on as far as it can. Nothing stops the partition but a
    string that is not closed, which goes on to the end of the text. -/
inductive Partition :
    (position : Nat) → List CodePoint → List Token → (stopped : Option LexFault) → Prop
  | last {position : Nat} {gap : List CodePoint} (hgap : GapBefore [] gap) :
      Partition position gap [] none
  | unclosed {position : Nat} {gap rest : List CodePoint}
      (hgap : GapBefore (.char '\x22' :: rest) gap) (hrest : NeverCloses rest) :
      Partition position (gap ++ .char '\x22' :: rest) []
        (some (.unclosedString (position + gap.length)))
  | token {position : Nat} {gap rest : List CodePoint} {t : Token} {ts : List Token}
      {u : Option LexFault} (hgap : GapBefore (t.text.toList ++ rest) gap) (ht : t.IsLexeme)
      (hends : t.kind = .word → ∀ c ∈ rest.head?, isWordChar c = false)
      (hrest : Partition (position + gap.length + t.text.toList.length) rest ts u) :
      Partition position (gap ++ (t.text.toList ++ rest)) (t :: ts) u

/-! ## Characters that are not in words -/

theorem isWordChar_opener (b : Bracket) : isWordChar b.opener = false := by
  cases b <;> decide

theorem isWordChar_closer (b : Bracket) : isWordChar b.closer = false := by
  cases b <;> decide

theorem isWordChar_of_isBlank {c : CodePoint} (hc : isBlank c = true) : isWordChar c = false := by
  simp [isWordChar, hc]

theorem exists_opener_of_isOpener {c : CodePoint} (hc : isOpener c = true) :
    ∃ b : Bracket, c = b.opener := by
  obtain rfl | rfl | rfl := of_decide_eq_true hc
  · exact ⟨.round, rfl⟩
  · exact ⟨.square, rfl⟩
  · exact ⟨.curly, rfl⟩

theorem exists_closer_of_isCloser {c : CodePoint} (hc : isCloser c = true) :
    ∃ b : Bracket, c = b.closer := by
  obtain rfl | rfl | rfl := of_decide_eq_true hc
  · exact ⟨.round, rfl⟩
  · exact ⟨.square, rfl⟩
  · exact ⟨.curly, rfl⟩

/-! ## Where a string ends -/

/-- A string ends at its first quote mark that is not escaped. -/
theorem stringEnd_of_enclosed {body : List CodePoint} (h : Enclosed '\x22' body) (count : Nat)
    (rest : List CodePoint) :
    stringEnd count (body ++ .char '\x22' :: rest) = some (count + body.length + 1) := by
  induction h generalizing count with
  | nil => rfl
  | char hc hq _ ih =>
    rw [List.cons_append, stringEnd, ih, List.length_cons, Nat.add_assoc count 1, Nat.add_comm 1]
    · exact hq
    · intro _ _ hx
      exact absurd hx hc
  | escape c _ ih =>
    rw [List.cons_append, List.cons_append, stringEnd, ih, List.length_cons, List.length_cons,
      Nat.add_assoc count 2, Nat.add_comm 2]

theorem isString_of_enclosed {body : List CodePoint} (h : Enclosed '\x22' body) :
    isString (.char '\x22' :: (body ++ [.char '\x22'])) = true := by
  have hlength : 0 + body.length + 1 = (body ++ [CodePoint.char '\x22']).length := by
    rw [List.length_append, List.length_singleton, Nat.zero_add]
  rw [isString, stringEnd_of_enclosed h, hlength]
  exact decide_eq_true rfl

theorem exists_enclosed_of_stringEnd {count more : Nat} {cs : List CodePoint}
    (h : stringEnd count cs = some more) :
    ∃ body rest, cs = body ++ .char '\x22' :: rest ∧ Enclosed '\x22' body ∧
      more = count + body.length + 1 := by
  fun_induction stringEnd count cs with
  | case1 => cases h
  | case2 count rest =>
    cases h
    exact ⟨[], rest, rfl, .nil, rfl⟩
  | case3 count c cs ih =>
    obtain ⟨body, rest, rfl, hbody, rfl⟩ := ih h
    exact ⟨.char '\\' :: c :: body, rest, rfl, .escape c hbody,
      by simp only [List.length_cons]; omega⟩
  | case4 count c cs hq hc ih =>
    obtain ⟨body, rest, rfl, hbody, rfl⟩ := ih h
    -- A backslash would escape the character behind it, and there is one.
    have hc' : c ≠ '\\' := by
      rintro rfl
      obtain ⟨x, xs, hx⟩ := List.exists_cons_of_ne_nil
        (List.append_ne_nil_of_right_ne_nil body (List.cons_ne_nil (CodePoint.char '\x22') rest))
      exact hc x xs rfl hx
    exact ⟨c :: body, rest, rfl, .char hc' hq hbody, by simp only [List.length_cons]; omega⟩

/-- A string has no end exactly where no quote mark closes it. -/
theorem stringEnd_eq_none_iff {count : Nat} {cs : List CodePoint} :
    stringEnd count cs = none ↔ NeverCloses cs := by
  constructor
  · rintro h body rest rfl hbody
    rw [stringEnd_of_enclosed hbody] at h
    cases h
  · intro h
    cases hend : stringEnd count cs with
    | none => rfl
    | some more =>
      obtain ⟨body, rest, hcs, hbody, -⟩ := exists_enclosed_of_stringEnd hend
      exact absurd hbody (h body rest hcs)

/-! ## What the scanner finds -/

theorem scan_opener (b : Bracket) (rest : List CodePoint) :
    scan b.opener rest = .token .opener 0 := by
  cases b <;> rfl

theorem scan_closer (b : Bracket) (rest : List CodePoint) :
    scan b.closer rest = .token .closer 0 := by
  cases b <;> rfl

theorem scan_string {body : List CodePoint} (h : Enclosed '\x22' body) (rest : List CodePoint) :
    scan '\x22' (body ++ .char '\x22' :: rest) =
      .token .string (body ++ [CodePoint.char '\x22']).length := by
  rw [scan, if_neg (by decide), if_neg (by decide), if_neg (by decide), if_neg (by decide),
    if_pos rfl, stringEnd_of_enclosed h, List.length_append, Nat.zero_add]
  rfl

/-- The longest run of characters of a kind, before one that is not of the kind. -/
theorem takeWhile_append_of_head {p : CodePoint → Bool} {cs rest : List CodePoint}
    (hcs : ∀ c ∈ cs, p c = true) (hrest : ∀ c ∈ rest.head?, p c = false) :
    (cs ++ rest).takeWhile p = cs := by
  rw [List.takeWhile_append_of_pos hcs]
  cases rest with
  | nil => rw [List.takeWhile_nil, List.append_nil]
  | cons c rest => rw [List.takeWhile_cons_of_neg (by simp [hrest c rfl]), List.append_nil]

/-- A word runs up to the first character that is not in words. -/
theorem scan_word {c : CodePoint} {cs rest : List CodePoint}
    (h : ∀ x ∈ c :: cs, isWordChar x = true)
    (hrest : ∀ x ∈ rest.head?, isWordChar x = false) :
    scan c (cs ++ rest) = .token .word cs.length := by
  obtain ⟨hc, hcs⟩ := List.forall_mem_cons.mp h
  have hnone := hc
  simp only [isWordChar, Bool.not_eq_true', Bool.or_eq_false_iff, decide_eq_false_iff_not] at hnone
  obtain ⟨⟨⟨⟨hblank, hopener⟩, hcloser⟩, hquote⟩, hsemicolon⟩ := hnone
  rw [scan, takeWhile_append_of_head hcs hrest]
  simp [hblank, hopener, hcloser, hquote, hsemicolon, hc]

theorem scan_blank {c : CodePoint} (hc : isBlank c = true) (rest : List CodePoint) :
    scan c rest = .gap 0 := if_pos hc

theorem scan_comment {words rest : List CodePoint} (h : CodePoint.char '\n' ∉ words)
    (hrest : ∀ c ∈ rest.head?, c = '\n') : scan ';' (words ++ rest) = .gap words.length := by
  show Scan.gap ((words ++ rest).takeWhile fun d => d ≠ CodePoint.char '\n').length = _
  rw [takeWhile_append_of_head]
  · intro c hc
    exact decide_eq_true fun heq => h (heq ▸ hc)
  · intro c hc
    rw [hrest c hc]
    rfl

theorem scan_unclosed {rest : List CodePoint} (h : NeverCloses rest) :
    scan '\x22' rest = .unclosed := by
  rw [scan, if_neg (by decide), if_neg (by decide), if_neg (by decide), if_neg (by decide),
    if_pos rfl, stringEnd_eq_none_iff.mpr h]

/-- What the scanner can find at a character and the text behind it. -/
inductive Scans : CodePoint → List CodePoint → Scan → Prop
  | blank {c : CodePoint} (hc : isBlank c = true) (rest : List CodePoint) : Scans c rest (.gap 0)
  | comment {words rest : List CodePoint} (hwords : CodePoint.char '\n' ∉ words)
      (hends : ∀ c ∈ rest.head?, c = '\n') : Scans ';' (words ++ rest) (.gap words.length)
  | token {c : CodePoint} {cs rest : List CodePoint} {kind : TokenKind}
      (ht : Token.IsLexeme ⟨kind, Text.ofList (c :: cs)⟩)
      (hends : kind = .word → ∀ x ∈ rest.head?, isWordChar x = false) :
      Scans c (cs ++ rest) (.token kind cs.length)
  | unclosed {rest : List CodePoint} (h : NeverCloses rest) : Scans '\x22' rest .unclosed

/-- Behind the longest run of characters of a kind there is none of that kind. -/
theorem head_dropWhile {p : CodePoint → Bool} (cs : List CodePoint) :
    ∀ c ∈ (cs.dropWhile p).head?, p c = false := by
  intro c hc
  have := List.head?_dropWhile_not p cs
  rw [hc] at this
  simpa using this

theorem scans_scan (c : CodePoint) (rest : List CodePoint) : Scans c rest (scan c rest) := by
  unfold scan
  split_ifs with hblank hsemicolon hopener hcloser hquote hword
  · exact .blank hblank rest
  · subst hsemicolon
    let inside (d : CodePoint) : Bool := d ≠ '\n'
    have hcomment : Scans ';' (rest.takeWhile inside ++ rest.dropWhile inside)
        (.gap (rest.takeWhile inside).length) := by
      refine .comment ?_ ?_
      · intro hmem
        have := List.all_eq_true.mp List.all_takeWhile _ hmem
        simp [inside] at this
      · intro c hc
        have := head_dropWhile rest c hc
        simpa [inside] using this
    rwa [List.takeWhile_append_dropWhile] at hcomment
  · obtain ⟨b, rfl⟩ := exists_opener_of_isOpener hopener
    exact @Scans.token b.opener [] rest .opener (.opener b) fun hword => by cases hword
  · obtain ⟨b, rfl⟩ := exists_closer_of_isCloser hcloser
    exact @Scans.token b.closer [] rest .closer (.closer b) fun hword => by cases hword
  · subst hquote
    cases hend : stringEnd 0 rest with
    | none => exact .unclosed (stringEnd_eq_none_iff.mp hend)
    | some more =>
      obtain ⟨body, tail, rfl, hbody, rfl⟩ := exists_enclosed_of_stringEnd hend
      have hstring : Scans '\x22' ((body ++ [.char '\x22']) ++ tail)
          (.token .string (body ++ [CodePoint.char '\x22']).length) :=
        .token (.string hbody) fun hword => by cases hword
      rw [List.append_assoc, List.length_append] at hstring
      rw [Nat.zero_add]
      exact hstring
  · have hcs : ∀ x ∈ rest.takeWhile isWordChar, isWordChar x = true :=
      List.all_eq_true.mp List.all_takeWhile
    have hrun : Scans c (rest.takeWhile isWordChar ++ rest.dropWhile isWordChar)
        (.token .word (rest.takeWhile isWordChar).length) :=
      .token (.word (List.cons_ne_nil c _) (List.forall_mem_cons.mpr ⟨hword, hcs⟩)) fun _ =>
        head_dropWhile rest
    rwa [List.takeWhile_append_dropWhile] at hrun
  · -- a character that starts none of the others is one of words
    exact absurd (by simp [isWordChar, hblank, hsemicolon, hopener, hcloser, hquote]) hword

/-! ## The lexer, step by step -/

theorem lexFrom_nil (position : Nat) (done : List Token) :
    lexFrom position done [] = ⟨done.reverse, none⟩ := by
  rw [lexFrom.eq_def]

theorem lexFrom_gap {position : Nat} {done : List Token} {c : CodePoint} {cs rest : List CodePoint}
    (h : scan c (cs ++ rest) = .gap cs.length) :
    lexFrom position done (c :: (cs ++ rest)) = lexFrom (position + 1 + cs.length) done rest := by
  rw [lexFrom.eq_def]
  dsimp only
  rw [h]
  dsimp only
  rw [List.drop_left]

theorem lexFrom_token {position : Nat} {done : List Token} {c : CodePoint}
    {cs rest : List CodePoint}
    {kind : TokenKind} (h : scan c (cs ++ rest) = .token kind cs.length) :
    lexFrom position done (c :: (cs ++ rest)) =
      lexFrom (position + 1 + cs.length) (⟨kind, Text.ofList (c :: cs)⟩ :: done) rest := by
  rw [lexFrom.eq_def]
  dsimp only
  rw [h]
  dsimp only
  rw [List.drop_left, List.take_left]

theorem lexFrom_unclosed {position : Nat} {done : List Token} {rest : List CodePoint}
    (h : NeverCloses rest) :
    lexFrom position done (.char '\x22' :: rest) =
      ⟨done.reverse, some (.unclosedString position)⟩ := by
  rw [lexFrom.eq_def]
  dsimp only
  rw [scan_unclosed h]

/-- A gap is passed over. -/
theorem lexFrom_of_gapBefore {gap rest : List CodePoint} (h : GapBefore rest gap) (position : Nat)
    (done : List Token) :
    lexFrom position done (gap ++ rest) = lexFrom (position + gap.length) done rest := by
  induction h generalizing position with
  | nil => rfl
  | @blank c gap hc _ ih =>
    have hpassed : lexFrom position done (c :: (gap ++ rest)) =
        lexFrom (position + 1) done (gap ++ rest) :=
      lexFrom_gap (scan_blank hc ([] ++ (gap ++ rest)))
    have hlength : position + 1 + gap.length = position + (c :: gap).length := by
      rw [List.length_cons]
      omega
    rw [List.cons_append, hpassed, ih, hlength]
  | @comment words gap hwords hends _ ih =>
    have hlength : position + 1 + words.length + gap.length =
        position + (CodePoint.char ';' :: (words ++ gap)).length := by
      rw [List.length_cons, List.length_append]
      omega
    rw [List.cons_append, List.append_assoc, lexFrom_gap (scan_comment hwords hends), ih, hlength]

/-- A lexeme is cut off, if a word does not run on behind it. -/
theorem lexFrom_of_isLexeme {t : Token} (h : t.IsLexeme) {rest : List CodePoint}
    (hrest : t.kind = .word → ∀ c ∈ rest.head?, isWordChar c = false) (position : Nat)
    (done : List Token) :
    lexFrom position done (t.text.toList ++ rest) =
      lexFrom (position + t.text.toList.length) (t :: done) rest := by
  cases h with
  | opener b =>
    rw [Bracket.openToken, Text.toList_singleton]
    exact lexFrom_token (scan_opener b ([] ++ rest))
  | closer b =>
    rw [Bracket.closeToken, Text.toList_singleton]
    exact lexFrom_token (scan_closer b ([] ++ rest))
  | @string body hbody =>
    have hscan := scan_string hbody rest
    rw [List.append_cons] at hscan
    rw [Text.toList_ofList, List.length_cons, Nat.add_comm _ 1, ← Nat.add_assoc]
    exact lexFrom_token hscan
  | @word cs hne hcs =>
    obtain ⟨c, cs, rfl⟩ := List.exists_cons_of_ne_nil hne
    rw [Text.toList_ofList, List.length_cons, Nat.add_comm _ 1, ← Nat.add_assoc]
    exact lexFrom_token (scan_word hcs (hrest rfl))

/-! ## The lexer parts texts -/

/-- A text is cut as it is parted. -/
theorem lexFrom_of_partition {position : Nat} {cs : List CodePoint} {ts : List Token}
    {u : Option LexFault} (h : Partition position cs ts u) (done : List Token) :
    lexFrom position done cs = ⟨done.reverse ++ ts, u⟩ := by
  induction h generalizing done with
  | @last position gap hgap =>
    have hend := lexFrom_of_gapBefore hgap position done
    rw [List.append_nil] at hend
    rw [hend, lexFrom_nil, List.append_nil]
  | unclosed hgap hrest =>
    rw [lexFrom_of_gapBefore hgap, lexFrom_unclosed hrest, List.append_nil]
  | token hgap ht hends _ ih =>
    rw [lexFrom_of_gapBefore hgap, lexFrom_of_isLexeme ht hends, ih, List.reverse_cons,
      List.append_assoc, List.singleton_append]

/-- What can be put before any gap that a parted text starts with can be put before that text. -/
theorem Partition.gap {position start : Nat} {front cs : List CodePoint} {ts : List Token}
    {u : Option LexFault} (h : Partition start cs ts u) (hstart : position + front.length = start)
    (hfront : ∀ rest gap, cs = gap ++ rest → GapBefore rest gap → GapBefore rest (front ++ gap)) :
    Partition position (front ++ cs) ts u := by
  cases h with
  | last hgap => exact .last (hfront [] cs (List.append_nil cs).symm hgap)
  | @unclosed _ gap rest hgap hrest =>
    have hlength : start + gap.length = position + (front ++ gap).length := by
      rw [List.length_append, ← hstart, Nat.add_assoc]
    rw [hlength, ← List.append_assoc]
    exact .unclosed (hfront _ _ rfl hgap) hrest
  | @token _ gap rest t ts u hgap ht hends hrest =>
    have hlength : start + gap.length = position + (front ++ gap).length := by
      rw [List.length_append, ← hstart, Nat.add_assoc]
    rw [hlength] at hrest
    rw [← List.append_assoc]
    exact .token (hfront _ _ rfl hgap) ht hends hrest

/-- The lexer parts every text, whatever tokens it has cut off before. -/
theorem exists_partition_lexFrom (position : Nat) (done : List Token) (cs : List CodePoint) :
    ∃ ts, (lexFrom position done cs).tokens = done.reverse ++ ts ∧
      Partition position cs ts (lexFrom position done cs).stopped := by
  -- Along the lexer: what is passed over or cut off goes before the partition of what is left.
  fun_induction lexFrom position done cs with
  | case1 position done => exact ⟨[], (List.append_nil _).symm, .last .nil⟩
  | case2 position done c rest more hscan ih =>
    obtain ⟨ts, htokens, hparts⟩ := ih
    generalize lexFrom _ _ (rest.drop more) = lexed at htokens hparts ⊢
    refine ⟨ts, htokens, ?_⟩
    have hscans := scans_scan c rest
    rw [hscan] at hscans
    cases hscans with
    | blank hc _ =>
      have hstart : position + [c].length = position + 1 + 0 := rfl
      exact hparts.gap hstart fun _ _ _ hgap => .blank hc hgap
    | @comment words rest hwords hends =>
      rw [List.drop_left] at hparts
      have hstart :
          position + (CodePoint.char ';' :: words).length = position + 1 + words.length := by
        rw [List.length_cons]
        omega
      exact hparts.gap hstart fun _ _ hrest hgap => .comment hwords (hrest ▸ hends) hgap
  | case3 position done c rest kind more hscan ih =>
    obtain ⟨ts, htokens, hparts⟩ := ih
    generalize lexFrom _ _ (rest.drop more) = lexed at htokens hparts ⊢
    have hscans := scans_scan c rest
    rw [hscan] at hscans
    cases hscans with
    | @token _ cs rest _ ht hends =>
      rw [List.take_left, List.reverse_cons, List.append_assoc, List.singleton_append] at htokens
      refine ⟨_, htokens, ?_⟩
      have hlength : position + 1 + cs.length =
          position + ([] : List CodePoint).length + (Text.ofList (c :: cs)).toList.length := by
        rw [Text.toList_ofList, List.length_cons, List.length_nil]
        omega
      rw [List.drop_left, hlength] at hparts
      have htoken := Partition.token .nil ht hends hparts
      rwa [Text.toList_ofList] at htoken
  | case4 position done c rest hscan =>
    have hscans := scans_scan c rest
    rw [hscan] at hscans
    cases hscans with
    | unclosed h => exact ⟨[], (List.append_nil _).symm, .unclosed .nil h⟩
  | case5 position done c rest hscan =>
    have hscans := scans_scan c rest
    rw [hscan] at hscans
    cases hscans

theorem Partition.isLexeme {position : Nat} {cs : List CodePoint} {ts : List Token}
    {u : Option LexFault} (h : Partition position cs ts u) : ∀ t ∈ ts, t.IsLexeme := by
  induction h with
  | last _ => exact fun t ht => absurd ht List.not_mem_nil
  | unclosed _ _ => exact fun t ht => absurd ht List.not_mem_nil
  | token _ ht _ _ ih => exact List.forall_mem_cons.mpr ⟨ht, ih⟩

/-! ## Layouts are partitions -/

theorem IsGap.before {gap : List CodePoint} (h : IsGap gap) (rest : List CodePoint) :
    GapBefore rest gap := by
  induction h with
  | nil => exact .nil
  | blank hc _ ih => exact .blank hc ih
  | comment hwords _ ih =>
    -- The comment ends before its line break, which is a blank.
    refine .comment hwords ?_ (.blank rfl ih)
    rintro c ⟨⟩
    rfl

theorem isWordChar_head_of_isGap {gap : List CodePoint} (h : IsGap gap) :
    ∀ c ∈ gap.head?, isWordChar c = false := by
  cases h with
  | nil => exact fun c hc => absurd hc (Option.not_mem_none c)
  | blank hc _ => rintro c ⟨⟩; exact isWordChar_of_isBlank hc
  | comment _ _ => rintro c ⟨⟩; decide

theorem isWordChar_head_of_isLexeme {t : Token} (h : t.IsLexeme) (hkind : t.kind ≠ .word)
    (rest : List CodePoint) : ∀ c ∈ (t.text.toList ++ rest).head?, isWordChar c = false := by
  cases h with
  | opener b =>
    rw [Bracket.openToken, Text.toList_singleton]
    rintro c ⟨⟩
    exact isWordChar_opener b
  | closer b =>
    rw [Bracket.closeToken, Text.toList_singleton]
    rintro c ⟨⟩
    exact isWordChar_closer b
  | string _ =>
    rw [Text.toList_ofList]
    rintro c ⟨⟩
    decide
  | word _ _ => exact absurd rfl hkind

/-- Behind a word, a laid out text does not start with a character of words. -/
theorem isWordChar_head_of_laidOut {ts : List Token} {cs : List CodePoint} (h : LaidOut true ts cs)
    (hts : ∀ t ∈ ts, t.IsLexeme) : ∀ c ∈ cs.head?, isWordChar c = false := by
  cases h with
  | done hgap => exact isWordChar_head_of_isGap hgap
  | @token _ gap rest t ts hgap hapart _ =>
    cases gap with
    | nil =>
      have hkind : t.kind ≠ .word := fun hword => hapart rfl hword rfl
      exact isWordChar_head_of_isLexeme (hts t List.mem_cons_self) hkind rest
    | cons x gap =>
      rintro c ⟨⟩
      exact isWordChar_head_of_isGap hgap x rfl

/-- A text that is laid out from lexemes is parted into those. -/
theorem LaidOut.partition {afterWord : Bool} {ts : List Token} {cs : List CodePoint}
    (h : LaidOut afterWord ts cs) (hts : ∀ t ∈ ts, t.IsLexeme) (position : Nat) :
    Partition position cs ts none := by
  induction h generalizing position with
  | done hgap => exact .last (hgap.before [])
  | @token _ gap rest t ts hgap _ hrest ih =>
    obtain ⟨ht, hts⟩ := List.forall_mem_cons.mp hts
    refine .token (hgap.before _) ht ?_ (ih hts _)
    -- A word ends where it does because what is laid out behind it cannot go on with it.
    intro hword
    rw [decide_eq_true hword] at hrest
    exact isWordChar_head_of_laidOut hrest hts

/-- A token stands in its own text. -/
theorem LaidOut.single (t : Token) : LaidOut false [t] t.text.toList := by
  have hlaid := @LaidOut.token false [] [] t [] .nil nofun (.done .nil)
  rwa [List.append_nil, List.nil_append] at hlaid

end Lexer

theorem lex_of_laidOut {source : Text} {ts : List Token}
    (h : Lexer.LaidOut false ts source.toList) (hts : ∀ t ∈ ts, t.IsLexeme) :
    lex source = ⟨ts, none⟩ :=
  Lexer.lexFrom_of_partition (h.partition hts 0) []

theorem lex_of_isLexeme {t : Token} (h : t.IsLexeme) : lex t.text = ⟨[t], none⟩ :=
  lex_of_laidOut (.single t) (List.forall_mem_singleton.mpr h)

/-- A program text is parted into its tokens. -/
theorem partition_lex (source : Text) :
    Lexer.Partition 0 source.toList (lex source).tokens (lex source).stopped := by
  obtain ⟨ts, htokens, hparts⟩ := Lexer.exists_partition_lexFrom 0 [] source.toList
  rw [List.reverse_nil, List.nil_append] at htokens
  rw [lex, htokens]
  exact hparts

theorem isLexeme_of_mem_lex {source : Text} {t : Token} (h : t ∈ (lex source).tokens) :
    t.IsLexeme :=
  (partition_lex source).isLexeme t h

end MiniLisp
