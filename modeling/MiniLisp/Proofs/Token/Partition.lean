/-
  MiniLisp.Proofs.Token.Partition

  What the partition of a text says about the text and about its tokens.

  A text has one partition, the one that the lexer finds, and a string that is
  not closed starts where the partition says (`Partition.exists_unclosed`).
  Asking the stream of a text for tokens until there are no more gives those of
  the partition, and then the end of the text or the fault of that string
  (`pull_of_length_lt`).

  Partitions can be put together: a text may be moved (`Partition.moved`), and a
  text that ends properly may have another one behind it, on a line of its own
  (`Partition.joined`). So the tokens of two texts with a line break between them
  are those of the first and then those of the second (`lex_joined`). Without a
  line break the tokens at the end may change; those before a bracket or a string
  do not, nor does that token (`Partition.extended`).
-/
import MiniLisp.Proofs.Token.Layout
import MiniLisp.Token.Stream

namespace MiniLisp

theorem Token.IsLexeme.toList_ne_nil {t : Token} (h : t.IsLexeme) : t.text.toList ≠ [] := by
  cases h with
  | opener b =>
    rw [Bracket.openToken, Text.toList_singleton]
    exact List.cons_ne_nil _ _
  | closer b =>
    rw [Bracket.closeToken, Text.toList_singleton]
    exact List.cons_ne_nil _ _
  | string _ =>
    rw [Text.toList_ofList]
    exact List.cons_ne_nil _ _
  | word hne _ =>
    rw [Text.toList_ofList]
    exact hne

namespace Lexer

variable {position : Nat} {cs : List CodePoint} {ts : List Token} {u : Option LexFault}

/-! ## Strings that are not closed -/

/-- Nothing stops a partition but a string that is not closed. It starts with the quote mark at
    its position, and nothing behind that closes it. -/
theorem Partition.exists_unclosed {fault : LexFault} (h : Partition position cs ts (some fault)) :
    ∃ front rest, cs = front ++ .char '\x22' :: rest ∧
      fault = .unclosedString (position + front.length) ∧ NeverCloses rest := by
  generalize hu : some fault = u at h
  induction h with
  | last _ => cases hu
  | @unclosed position gap rest _ hrest =>
    cases hu
    exact ⟨gap, rest, rfl, rfl, hrest⟩
  | @token position gap rest t ts u _ _ _ _ ih =>
    obtain ⟨front, tail, rfl, rfl, htail⟩ := ih hu
    refine ⟨gap ++ (t.text.toList ++ front), tail, ?_, ?_, htail⟩
    · simp only [List.append_assoc]
    · simp only [List.length_append, Nat.add_assoc]

/-! ## Texts in other places -/

/-- The fault of a text that starts `distance` places further on. -/
def moved (distance : Nat) : LexFault → LexFault
  | .unclosedString position => .unclosedString (position + distance)
  | .unexpectedCharacter position c => .unexpectedCharacter (position + distance) c

/-- Where a text stands shows only in the position of a string that is not closed. -/
theorem Partition.moved (h : Partition position cs ts u) (distance : Nat) :
    Partition (position + distance) cs ts (u.map (Lexer.moved distance)) := by
  induction h with
  | last hgap => exact .last hgap
  | @unclosed position gap rest hgap hrest =>
    have hplace : position + gap.length + distance = position + distance + gap.length := by omega
    rw [Option.map_some, Lexer.moved, hplace]
    exact .unclosed hgap hrest
  | @token position gap rest t ts u hgap ht hends _ ih =>
    have hplace : position + gap.length + t.text.toList.length + distance =
        position + distance + gap.length + t.text.toList.length := by omega
    rw [hplace] at ih
    exact .token hgap ht hends ih

/-- Of what stands behind a gap only the first character matters. -/
theorem GapBefore.of_head {gap rest rest' : List CodePoint} (h : GapBefore rest gap)
    (hhead : rest.head? = rest'.head?) : GapBefore rest' gap := by
  induction h with
  | nil => exact .nil
  | blank hc _ ih => exact .blank hc ih
  | comment hwords hends _ ih =>
    rw [List.head?_append, hhead, ← List.head?_append] at hends
    exact .comment hwords hends ih

/-- What ends a text may stand before a line break, and any gap behind that. -/
theorem GapBefore.line {gap gap' rest : List CodePoint} (h : GapBefore [] gap)
    (h' : GapBefore rest gap') : GapBefore rest (gap ++ .char '\n' :: gap') := by
  induction h with
  | nil => exact .blank rfl h'
  | blank hc _ ih => exact .blank hc ih
  | @comment words gap hwords hends _ ih =>
    rw [List.cons_append, List.append_assoc]
    refine .comment hwords ?_ ih
    -- A comment that went on to the end of the text now ends at the line break.
    cases gap with
    | nil =>
      rintro c ⟨⟩
      rfl
    | cons x gap => exact hends

/-- Behind a text in which all strings are closed, another text may stand on a line of its
    own. -/
theorem Partition.joined {ds : List CodePoint} {ts' : List Token}
    (h : Partition position cs ts none)
    (h' : Partition (position + cs.length + 1) ds ts' u) :
    Partition position (cs ++ .char '\n' :: ds) (ts ++ ts') u := by
  generalize hnone : none = v at h
  induction h with
  | unclosed _ _ => cases hnone
  | @last position gap hgap =>
    have hstart : position + (gap ++ [CodePoint.char '\n']).length = position + gap.length + 1 := by
      rw [List.length_append]
      rfl
    have hline := h'.gap hstart fun rest gap' _ hgap' => by
      rw [List.append_assoc]
      exact hgap.line hgap'
    rwa [List.append_assoc] at hline
  | @token position gap rest t ts _ hgap ht hends _ ih =>
    have hplace : position + (gap ++ (t.text.toList ++ rest)).length + 1 =
        position + gap.length + t.text.toList.length + rest.length + 1 := by
      simp only [List.length_append]
      omega
    rw [hplace] at h'
    rw [List.append_assoc, List.append_assoc, List.cons_append]
    refine .token (hgap.of_head ?_) ht ?_ (ih h' hnone)
    · obtain ⟨c, text, htext⟩ := List.exists_cons_of_ne_nil ht.toList_ne_nil
      rw [htext]
      rfl
    · intro hword
      cases rest with
      | nil =>
        rintro c ⟨⟩
        exact isWordChar_of_isBlank rfl
      | cons c rest => exact hends hword

/-- A token that is no word stays what it is, and so do the tokens before it, whatever more text
    stands behind the text. -/
theorem Partition.extended {t : Token} {front back : List Token}
    (h : Partition position cs (front ++ t :: back) u) (ht : t.kind ≠ .word)
    (more : List CodePoint) :
    ∃ back' u', Partition position (cs ++ more) (front ++ t :: back') u' := by
  generalize hts : front ++ t :: back = ts at h
  induction h generalizing front with
  | last _ => cases front <;> cases hts
  | unclosed _ _ => cases front <;> cases hts
  | @token position gap rest t₀ ts u hgap ht₀ hends hrest ih =>
    have hgap' : GapBefore (t₀.text.toList ++ (rest ++ more)) gap := by
      refine hgap.of_head ?_
      obtain ⟨c, text, htext⟩ := List.exists_cons_of_ne_nil ht₀.toList_ne_nil
      rw [htext]
      rfl
    rw [List.append_assoc, List.append_assoc]
    cases front with
    | nil =>
      -- The token itself: what follows it is parted anew.
      cases hts
      obtain ⟨ts', -, hparts⟩ := exists_partition_lexFrom
        (position + gap.length + t.text.toList.length) [] (rest ++ more)
      exact ⟨ts', _, .token hgap' ht₀ (fun hword => absurd hword ht) hparts⟩
    | cons t₁ front =>
      -- A token before it. If that is a word, it ends where it did: there is text behind it.
      cases hts
      obtain ⟨back', u', hparts⟩ := ih rfl
      refine ⟨back', u', .token hgap' ht₀ (fun hword => ?_) hparts⟩
      have hne : rest ≠ [] := by
        rintro rfl
        have hnil := lexFrom_of_partition hrest []
        rw [lexFrom_nil] at hnil
        cases front <;> cases hnil
      obtain ⟨c, rest, rfl⟩ := List.exists_cons_of_ne_nil hne
      exact hends hword

end Lexer

/-- More text behind a text does not change its tokens up to one that is no word. -/
theorem exists_lex_append {s : Text} {t : Token} {front back : List Token}
    (hs : (lex s).tokens = front ++ t :: back) (ht : t.kind ≠ .word) (more : Text) :
    ∃ back' u, lex (s ++ more) = ⟨front ++ t :: back', u⟩ := by
  have hparts := partition_lex s
  rw [hs] at hparts
  obtain ⟨back', u, hparts'⟩ := hparts.extended ht more.toList
  refine ⟨back', u, ?_⟩
  rw [lex, Text.toList_append]
  exact Lexer.lexFrom_of_partition hparts' []

/-- The tokens of two texts with a line break between them. -/
theorem lex_joined {s : Text} (hs : (lex s).stopped = none) (t : Text) :
    lex (s ++ "\n" ++ t) =
      ⟨(lex s).tokens ++ (lex t).tokens, (lex t).stopped.map (Lexer.moved (s.length + 1))⟩ := by
  have htext : (s ++ "\n" ++ t).toList = s.toList ++ .char '\n' :: t.toList := by
    rw [Text.toList_append, Text.toList_append, List.append_assoc]
    rfl
  have hfirst := partition_lex s
  rw [hs] at hfirst
  have hsecond := (partition_lex t).moved (s.length + 1)
  have hplace : 0 + (s.length + 1) = 0 + s.toList.length + 1 := by
    rw [Text.length]
    omega
  rw [hplace] at hsecond
  rw [lex, htext, Lexer.lexFrom_of_partition (hfirst.joined hsecond), List.reverse_nil,
    List.nil_append]

/-! ## Streams of texts -/

namespace TokenStream

/-- The next `n` tokens, which are consumed, or as many as there are. -/
def pull : (n : Nat) → Reading (List Token)
  | 0 => pure []
  | n + 1 => do
    match ← advance with
    | none => pure []
    | some t => do
      let ts ← pull n
      pure (t :: ts)

/-- Asking for more tokens than there are takes them all, and runs into what stops the text if
    anything does. -/
theorem pull_of_length_lt {ts : List Token} {n : Nat} (h : ts.length < n) (u : Option LexFault) :
    pull n ⟨[], ts, u, true⟩ =
      match u with
      | none => .ok ts finished
      | some fault => .error (.lexing fault) finished := by
  induction ts generalizing n with
  | nil =>
    obtain ⟨n, rfl⟩ : ∃ k, n = k + 1 := ⟨n - 1, by omega⟩
    cases u with
    | none => rfl
    | some position => rfl
  | cons t ts ih =>
    rw [List.length_cons] at h
    obtain ⟨n, rfl⟩ : ∃ k, n = k + 1 := ⟨n - 1, by omega⟩
    have hrest := ih (n := n) (by omega)
    show EStateM.bind (pull n) (fun ts => pure (t :: ts)) ⟨[], ts, u, true⟩ = _
    unfold EStateM.bind
    rw [hrest]
    cases u with
    | none => rfl
    | some position => rfl

end TokenStream

/-! ## Program texts -/

/-- The lexer parts every text into gaps and tokens, in the only way in which it can be parted:
    nothing is lost, words go on as far as they can, and strings go on to the first quote mark that
    is not escaped. The tokens can be asked for one after the other. Then the text ends, unless a
    string is not closed, which is the only fault: no character is unexpected. It names the position
    of a quote mark that no quote mark behind it closes. -/
theorem lex_partitions_text (source : Text) :
    Lexer.Partition 0 source.toList (lex source).tokens (lex source).stopped ∧
    (∀ ts u, Lexer.Partition 0 source.toList ts u → lex source = ⟨ts, u⟩) ∧
    (∀ n, (lex source).tokens.length < n → (lex source).stopped = none →
      TokenStream.pull n (.ofText source) = .ok (lex source).tokens .finished) ∧
    (∀ n position, (lex source).tokens.length < n →
      (lex source).stopped = some (.unclosedString position) →
      TokenStream.pull n (.ofText source) = .error (.lexing (.unclosedString position)) .finished) ∧
    (∀ fault, (lex source).stopped = some fault → ∃ position, fault = .unclosedString position) ∧
    (∀ position, (lex source).stopped = some (.unclosedString position) →
      (Fault.lexing (.unclosedString position)).words = s!"unterminated string at {position}" ∧
      ∃ front rest, source.toList = front ++ .char '\x22' :: rest ∧ position = front.length ∧
        Lexer.NeverCloses rest) := by
  refine ⟨partition_lex source, ?_, ?_, ?_, ?_, ?_⟩
  · intro ts u hparts
    exact Lexer.lexFrom_of_partition hparts []
  · intro n hn hu
    have hpull := TokenStream.pull_of_length_lt hn (lex source).stopped
    rw [hu] at hpull
    rw [TokenStream.ofText, hu]
    exact hpull
  · intro n position hn hu
    have hpull := TokenStream.pull_of_length_lt hn (lex source).stopped
    rw [hu] at hpull
    rw [TokenStream.ofText, hu]
    exact hpull
  · intro fault hu
    have hparts := partition_lex source
    rw [hu] at hparts
    obtain ⟨front, rest, -, hfault, -⟩ := hparts.exists_unclosed
    exact ⟨_, hfault⟩
  · intro position hu
    have hparts := partition_lex source
    rw [hu] at hparts
    obtain ⟨front, rest, htext, hfault, hrest⟩ := hparts.exists_unclosed
    rw [Nat.zero_add] at hfault
    exact ⟨rfl, front, rest, htext, LexFault.unclosedString.inj hfault, hrest⟩

/-- A quote mark in a comment starts no string, and one behind a backslash ends none. -/
theorem lex_partitions_text_escaped :
    lex "a;\"\n(\"b\\\"" = ⟨[⟨.word, "a"⟩, ⟨.opener, "("⟩], some (.unclosedString 5)⟩ ∧
      TokenStream.pull 9 (.ofText "a;\"\n(\"b\\\"") =
        .error (.lexing (.unclosedString 5)) .finished ∧
      (Fault.lexing (.unclosedString 5)).words = "unterminated string at 5" ∧
      ∃ front rest, (Text.ofString "a;\"\n(\"b\\\"").toList = front ++ .char '\x22' :: rest ∧
        5 = front.length ∧ Lexer.NeverCloses rest := by
  have hlex :
      lex "a;\"\n(\"b\\\"" = ⟨[⟨.word, "a"⟩, ⟨.opener, "("⟩], some (.unclosedString 5)⟩ := by
    decide +kernel
  obtain ⟨-, -, -, hpull, -, hunclosed⟩ := lex_partitions_text "a;\"\n(\"b\\\""
  have hcount : (lex "a;\"\n(\"b\\\"").tokens.length < 9 := by
    rw [hlex]
    decide
  have hu : (lex "a;\"\n(\"b\\\"").stopped = some (.unclosedString 5) := by rw [hlex]
  exact ⟨hlex, hpull 9 5 hcount hu, hunclosed 5 hu⟩

end MiniLisp
