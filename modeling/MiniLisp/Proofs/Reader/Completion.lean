/-
  MiniLisp.Proofs.Reader.Completion

  What more text can do for a text that cannot be read.

  A closer in a wrong place and a string that stands for no text stop the reader
  for good. Such a token is what it is whatever follows it, and so are the tokens
  before it (`exists_lex_append`), so the reader gets no further than before
  (`read_append_of_isPermanent`).

  A text that ends inside a list can still be completed. `openBrackets` follows
  the brackets of a text and knows which of them are open at its end; when the
  pass of the reader has taken the tokens, it has those lists open
  (`brackets_of_foldlM`). Their closers, the innermost one first, end the lists,
  and no other closers do (`runWithin_closers_iff`).
-/
import MiniLisp.Proofs.Reader.Joining

namespace MiniLisp

/-! ## What a text lacks -/

/-- The brackets that are open behind a token, innermost first, when `opened` are open before
    it. -/
def openBehind (opened : List Bracket) (t : Token) : List Bracket :=
  match t.kind with
  | .opener => (Bracket.ofOpener? t.text).toList ++ opened
  | .closer => opened.tail
  | .word | .string | .other _ => opened

/-- The brackets that are open at the end of a text, innermost first. -/
def openBrackets (source : Text) : List Bracket := (lex source).tokens.foldl openBehind []

/-- The closers of brackets, one right behind the other. -/
def closing (bs : List Bracket) : Text := Text.ofList (bs.map Bracket.closer)

/-- A fault that no more text can mend: a closer where nothing is open or one of another shape, or
    a string that stands for no text. -/
def Fault.isPermanent : Fault → Bool
  | .strayCloser _ | .mismatched _ _ | .badLiteral _ _ => true
  | _ => false

/-! ## Closers as a text -/

theorem laidOut_closers (bs : List Bracket) (afterWord : Bool) :
    Lexer.LaidOut afterWord (bs.map Bracket.closeToken) (bs.map Bracket.closer) := by
  induction bs generalizing afterWord with
  | nil => exact .done .nil
  | cons b bs ih =>
    have htext : b.closeToken.text.toList = [b.closer] := by
      rw [Bracket.closeToken, Text.toList_singleton]
    have hnext := @Lexer.LaidOut.token afterWord [] _ b.closeToken _ .nil
      (fun _ hword => by cases hword) (ih _)
    rw [htext] at hnext
    exact hnext

theorem lex_closing (bs : List Bracket) :
    lex (closing bs) = ⟨bs.map Bracket.closeToken, none⟩ := by
  refine lex_of_laidOut ?_ (List.forall_mem_map.mpr fun b _ => .closer b)
  rw [closing, Text.toList_ofList]
  exact laidOut_closers bs false

/-! ## Lists that are open -/

namespace Pass

variable {s s' : Pass} {t : Token} {ts : List Token} {depth : Nat} {fault : Fault}

/-- The brackets of the lists that are open, innermost first. -/
def brackets (s : Pass) : List Bracket := s.opened.map Prod.fst

@[simp] theorem brackets_add (s : Pass) (d : Datum) : (s.add d).brackets = s.brackets := by
  obtain ⟨opened, data⟩ := s
  cases opened with
  | nil => rfl
  | cons list outer => rfl

/-- The end of a text tells of no fault that stays. -/
theorem isPermanent_of_finish {u : Option LexFault} (h : s.finish u = .error fault) :
    fault.isPermanent = false := by
  obtain ⟨opened, data⟩ := s
  cases u with
  | some cause => cases h; rfl
  | none =>
    cases opened with
    | nil => cases h
    | cons list outer => cases h; rfl

/-- A list that is not closed is reported at the end of a text in which all strings are closed, and
    it is the innermost one. -/
theorem of_finish_eq_unmatched {u : Option LexFault} {b : Bracket}
    (h : s.finish u = .error (.unmatched b)) : u = none ∧ s.brackets.head? = some b := by
  obtain ⟨opened, data⟩ := s
  cases u with
  | some cause => cases h
  | none =>
    cases opened with
    | nil => cases h
    | cons list outer =>
      cases h
      exact ⟨rfl, rfl⟩

variable [Host]

/-- A token that the pass takes opens and closes the lists that its bracket does. -/
theorem brackets_take (h : s.take t = .ok s') : s'.brackets = openBehind s.brackets t := by
  obtain ⟨kind, text⟩ := t
  unfold take at h
  cases kind with
  | word =>
    obtain ⟨d, -, h⟩ := exists_of_bind_eq_ok h
    cases h
    exact brackets_add s d
  | string =>
    obtain ⟨d, -, h⟩ := exists_of_bind_eq_ok h
    cases h
    exact brackets_add s d
  | opener =>
    dsimp only at h
    split at h
    · rename_i b hb
      cases h
      rw [openBehind]
      dsimp only
      rw [hb]
      rfl
    · cases h
  | closer =>
    obtain ⟨opened, data⟩ := s
    cases opened with
    | nil => cases h
    | cons list outer =>
      dsimp only at h
      split at h
      · cases h
        rw [brackets_add]
        rfl
      · cases h
  | other kind => cases h

/-- When the pass has taken tokens, the lists are open whose brackets are. -/
theorem brackets_of_foldlM (h : ts.foldlM (takeWithin depth) s = .ok s') :
    s'.brackets = ts.foldl openBehind s.brackets := by
  induction ts generalizing s with
  | nil =>
    cases h
    rfl
  | cons t ts ih =>
    rw [List.foldlM_cons] at h
    obtain ⟨s₁, htake, h⟩ := exists_of_bind_eq_ok h
    rw [List.foldl_cons, ← brackets_take (take_of_takeWithin htake)]
    exact ih h

/-! ## Closers that end all lists -/

/-- Closers end the pass exactly when they are those of the lists that are open. -/
theorem runWithin_closers_iff (depth : Nat) (s : Pass) (bs : List Bracket) :
    (∃ ds, s.runWithin depth (bs.map Bracket.closeToken) none = .ok ds) ↔ bs = s.brackets := by
  induction bs generalizing s with
  | nil =>
    obtain ⟨opened, data⟩ := s
    cases opened with
    | nil => exact ⟨fun _ => rfl, fun _ => ⟨data.reverse, rfl⟩⟩
    | cons list outer =>
      constructor
      · rintro ⟨ds, hds⟩
        cases hds
      · intro hbs
        cases hbs
  | cons b bs ih =>
    obtain ⟨opened, data⟩ := s
    cases opened with
    | nil =>
      -- A closer too many: it is stray, if it is not the depth that stops the pass.
      constructor
      · rintro ⟨ds, hds⟩
        rw [List.map_cons, runWithin_cons] at hds
        obtain ⟨s₁, htake, -⟩ := exists_of_bind_eq_ok hds
        cases take_of_takeWithin htake
      · intro hbs
        cases hbs
    | cons list outer =>
      obtain ⟨b', items⟩ := list
      have hbound : takeWithin depth ⟨(b', items) :: outer, data⟩ b.closeToken =
          take ⟨(b', items) :: outer, data⟩ b.closeToken :=
        if_pos (.inr ⟨rfl, List.cons_ne_nil _ _⟩)
      have hbrackets : (⟨(b', items) :: outer, data⟩ : Pass).brackets =
          b' :: (⟨outer, data⟩ : Pass).brackets := rfl
      rw [List.map_cons, runWithin_cons, hbound, hbrackets, List.cons.injEq]
      by_cases hb : b = b'
      · subst hb
        have hrest := ih (add ⟨outer, data⟩ (.list items.reverse))
        rw [brackets_add] at hrest
        rw [take_closeToken]
        exact hrest.trans (and_iff_right rfl).symm
      · have hclosed : ¬b'.closedBy (.singleton b.closer) = true := by
          rw [Bracket.closedBy_iff]
          revert hb
          cases b <;> cases b' <;> decide
        have htake : take ⟨(b', items) :: outer, data⟩ b.closeToken =
            .error (.mismatched b' (.singleton b.closer)) := if_neg hclosed
        rw [htake]
        constructor
        · rintro ⟨ds, hds⟩
          cases hds
        · rintro ⟨rfl, -⟩
          exact absurd rfl hb

/-! ## Faults that stay -/

/-- A word is never the reason of a fault that stays: more text might make it longer. -/
theorem kind_ne_word_of_isPermanent (h : s.takeWithin depth t = .error fault)
    (hfault : fault.isPermanent = true) : t.kind ≠ .word := by
  obtain ⟨kind, text⟩ := t
  rintro rfl
  unfold takeWithin at h
  split at h
  · unfold take at h
    obtain hword | ⟨d, -, hd⟩ := cases_of_bind_eq_error h
    · obtain ⟨digits, rfl⟩ := TokenStream.eq_longNumeral_of_ofWord hword
      cases hfault
    · cases hd
  · cases h
    cases hfault

/-- No token of a text stops the pass because a list is not closed. -/
theorem ne_unmatched_of_takeWithin (ht : t.IsLexeme) (h : s.takeWithin depth t = .error fault)
    (b : Bracket) : fault ≠ .unmatched b := by
  have hends : Ends (fun _ => True) (fun fault => fault ≠ .unmatched b) (s.takeWithin depth t) := by
    refine Ends.ite ((ends_take s ht).mono (fun _ h => h) ?_) (.error fun h => by cases h)
    rintro fault hstops rfl
    cases hstops
  exact hends.allowed_of_eq_error h

end Pass

/-! ## Texts with more text behind them -/

section

variable [Host]

/-- A fault that stays is reported of every text that starts with the text. -/
theorem read_append_of_isPermanent {depth : Nat} {s : Text} {fault : Fault}
    (hs : read depth s = .error fault) (hfault : fault.isPermanent = true) (t : Text) :
    read depth (s ++ t) = .error fault := by
  rw [read_eq_runWithin] at hs
  obtain hscan | ⟨after, -, hfinish⟩ := cases_of_bind_eq_error hs
  · -- The pass stops at a token that is no word, and the longer text starts with the same tokens.
    obtain ⟨front, x, back, before, htokens, hfront, hx⟩ := exists_of_foldlM_eq_error hscan
    have hkind := Pass.kind_ne_word_of_isPermanent hx hfault
    obtain ⟨back', u, hlex⟩ := exists_lex_append htokens hkind t
    rw [read_eq_runWithin, hlex, Pass.runWithin_append, hfront]
    exact Pass.runWithin_of_take_error hx
  · rw [Pass.isPermanent_of_finish hfinish] at hfault
    cases hfault

/-- A text that ends inside a list has its tokens taken, and the list is the innermost one that is
    open. -/
theorem exists_pass_of_unmatched {depth : Nat} {s : Text} {b : Bracket}
    (hs : read depth s = .error (.unmatched b)) :
    ∃ after : Pass, (lex s).tokens.foldlM (Pass.takeWithin depth) .start = .ok after ∧
      (lex s).stopped = none ∧ after.brackets = openBrackets s ∧
      after.brackets.head? = some b := by
  rw [read_eq_runWithin] at hs
  obtain hscan | ⟨after, hafter, hfinish⟩ := cases_of_bind_eq_error hs
  · obtain ⟨front, x, back, before, htokens, -, hx⟩ := exists_of_foldlM_eq_error hscan
    have hmem : x ∈ (lex s).tokens := htokens ▸ List.mem_append_right _ List.mem_cons_self
    exact absurd rfl (Pass.ne_unmatched_of_takeWithin (isLexeme_of_mem_lex hmem) hx b)
  · obtain ⟨hu, hhead⟩ := Pass.of_finish_eq_unmatched hfinish
    exact ⟨after, hafter, hu, Pass.brackets_of_foldlM hafter, hhead⟩

end

/-- What more text can do for a text that cannot be read. A stray closer, a closer of another shape
    and a string that stands for no text are reported of every longer text too, as the same fault.
    A text that ends inside a list lacks the closers of the brackets that are open at its end, the
    innermost one first: on a line of their own behind the text they let it be read, and no other
    closers do. -/
theorem read_of_more_text [Host] (depth : Nat) (s : Text) :
    (∀ fault, read depth s = .error fault → fault.isPermanent = true →
      ∀ t, read depth (s ++ t) = .error fault) ∧
    (∀ b, read depth s = .error (.unmatched b) →
      (openBrackets s).head? = some b ∧
      ∀ bs, (∃ ds, read depth (s ++ "\n" ++ closing bs) = .ok ds) ↔ bs = openBrackets s) := by
  refine ⟨fun fault hs hfault t => read_append_of_isPermanent hs hfault t, ?_⟩
  intro b hs
  obtain ⟨after, hafter, hu, hbrackets, hhead⟩ := exists_pass_of_unmatched hs
  refine ⟨hbrackets ▸ hhead, fun bs => ?_⟩
  rw [read_eq_runWithin, lex_joined hu, lex_closing, Pass.runWithin_append, hafter, ← hbrackets]
  exact Pass.runWithin_closers_iff depth after bs

/-- A string with half an escape stays faulty when the other half follows it, and two lists of which
    the inner one ends in a comment are completed by their closers. -/
theorem read_of_more_text_lists :
    letI := Host.bare
    read 9 "(\"\\x\"" = .error (.badLiteral "\"\\x\"" (.escape 0 1 .shortByte)) ∧
      read 9 ("(\"\\x\"" ++ "41\")") =
        .error (.badLiteral "\"\\x\"" (.escape 0 1 .shortByte)) ∧
      read 9 "(a [b ;c" = .error (.unmatched .square) ∧
      closing (openBrackets "(a [b ;c") = "])" ∧
      ∃ ds, read 9 ("(a [b ;c" ++ "\n" ++ closing (openBrackets "(a [b ;c")) = .ok ds := by
  let _ := Host.bare
  have hlex : lex "(\"\\x\"" = ⟨[⟨.opener, "("⟩, ⟨.string, "\"\\x\""⟩], none⟩ := by
    decide +kernel
  have hlex' : lex "(a [b ;c" =
      ⟨[⟨.opener, "("⟩, ⟨.word, "a"⟩, ⟨.opener, "["⟩, ⟨.word, "b"⟩], none⟩ := by
    decide +kernel
  have hdecode : Text.Literal.decode Host.named? (Text.ofString "\"\\x\"").toList =
      .error (.escape 0 1 .shortByte) := by
    have hencodes : Text.encodeFault?
        (Text.Literal.spellBreaks (Text.ofString "\"\\x\"").toList) = none := by
      decide
    rw [Text.Literal.decode, hencodes]
    dsimp only
    rw [if_neg (by decide)]
    show Text.Literal.decodeFrom Host.named? 0 [] [.char '\\', .char 'x'] = _
    rw [Text.Literal.decodeFrom]
    rfl
  have hopener : Pass.takeWithin 9 .start ⟨.opener, "("⟩ = .ok ⟨[(.round, [])], []⟩ := rfl
  have hstring : Pass.takeWithin 9 ⟨[(.round, [])], []⟩ ⟨.string, "\"\\x\""⟩ =
      .error (.badLiteral "\"\\x\"" (.escape 0 1 .shortByte)) := by
    rw [Pass.takeWithin, if_pos (by decide), Pass.take]
    dsimp only
    rw [TokenStream.ofLiteral_of_isString (by decide), hdecode]
    rfl
  have hread : read 9 "(\"\\x\"" =
      .error (.badLiteral "\"\\x\"" (.escape 0 1 .shortByte)) := by
    rw [read_eq_runWithin, hlex, Pass.runWithin_cons, hopener]
    exact Pass.runWithin_of_take_error hstring
  have hread' : read 9 "(a [b ;c" = .error (.unmatched .square) := by
    rw [read_eq_runWithin, hlex']
    rfl
  have hopen : openBrackets "(a [b ;c" = [.square, .round] := by
    rw [openBrackets, hlex']
    decide
  obtain ⟨-, hcompletes⟩ := (read_of_more_text 9 "(a [b ;c").2 .square hread'
  refine ⟨hread, (read_of_more_text 9 "(\"\\x\"").1 _ hread rfl "41\")", hread', ?_,
    (hcompletes _).mpr rfl⟩
  rw [hopen]
  rfl

end MiniLisp
