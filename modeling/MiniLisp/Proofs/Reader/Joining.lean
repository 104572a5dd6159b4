/-
  MiniLisp.Proofs.Reader.Joining

  Reading two texts with a line break between them.

  The tokens of the joined text are those of the first text and then those of
  the second (`lex_joined`). When the first text has been read, no list is open
  and its data are all that the pass has in hand (`eq_of_finish`). Data at the
  top level do not affect what the pass does with the tokens that follow: they
  stay before the data that are still to come (`runWithin_behind`). So the second
  text is read as if it stood alone, but for the position of a string in it that
  is not closed.
-/
import MiniLisp.Proofs.Reader.SinglePass
import MiniLisp.Proofs.Token.Partition

namespace MiniLisp

/-- The fault of a text that starts `distance` characters further on: a position in the text moves
    with it. -/
def Fault.moved (distance : Nat) : Fault → Fault
  | .lexing cause => .lexing (Lexer.moved distance cause)
  | fault => fault

/-- What a text is read as when the data `ds` stand before it, in a text that it starts
    `distance` characters into. -/
def readBehind (ds : List Datum) (distance : Nat) :
    Except Fault (List Datum) → Except Fault (List Datum)
  | .ok es => .ok (ds ++ es)
  | .error fault => .error (fault.moved distance)

theorem Fault.moved_of_ne {fault : Fault} (h : ∀ cause, fault ≠ .lexing cause)
    (distance : Nat) : fault.moved distance = fault := by
  cases fault with
  | lexing cause => exact absurd rfl (h cause)
  | _ => rfl

namespace Pass

variable {s : Pass} {t : Token} {ts : List Token} {u : Option LexFault}

/-! ## Data from before -/

/-- The pass with the data `earlier`, last one first, before its own at the top level. -/
def behind (s : Pass) (earlier : List Datum) : Pass := ⟨s.opened, s.data ++ earlier⟩

theorem add_behind (s : Pass) (earlier : List Datum) (d : Datum) :
    (s.behind earlier).add d = (s.add d).behind earlier := by
  obtain ⟨opened, data⟩ := s
  cases opened with
  | nil => rfl
  | cons list outer => rfl

theorem finish_behind (s : Pass) (earlier : List Datum) (distance : Nat) (u : Option LexFault) :
    (s.behind earlier).finish (u.map (Lexer.moved distance)) =
      readBehind earlier.reverse distance (s.finish u) := by
  obtain ⟨opened, data⟩ := s
  cases u with
  | some cause => rfl
  | none =>
    cases opened with
    | cons list outer => rfl
    | nil => exact congrArg Except.ok List.reverse_append

/-- At the end of a text that can be read no list is open, and its data are in hand. -/
theorem eq_of_finish {ds : List Datum} (h : s.finish u = .ok ds) :
    u = none ∧ s = start.behind ds.reverse := by
  obtain ⟨opened, data⟩ := s
  cases u with
  | some cause => cases h
  | none =>
    cases opened with
    | cons list outer => cases h
    | nil =>
      cases h
      exact ⟨rfl, by rw [List.reverse_reverse]; rfl⟩

variable [Host]

/-- Data from before are not looked at. -/
theorem take_behind (s : Pass) (earlier : List Datum) (t : Token) :
    (s.behind earlier).take t = (s.take t).map (·.behind earlier) := by
  obtain ⟨kind, text⟩ := t
  cases kind with
  | word =>
    unfold take
    cases Datum.ofWord text with
    | ok d => exact congrArg Except.ok (add_behind s earlier d)
    | error fault => rfl
  | string =>
    unfold take
    cases Datum.ofLiteral text with
    | ok d => exact congrArg Except.ok (add_behind s earlier d)
    | error fault => rfl
  | opener =>
    unfold take
    dsimp only
    cases Bracket.ofOpener? text with
    | some b => rfl
    | none => rfl
  | closer =>
    obtain ⟨opened, data⟩ := s
    cases opened with
    | nil => rfl
    | cons list outer =>
      obtain ⟨b, items⟩ := list
      unfold take
      dsimp only [behind]
      by_cases hclosed : b.closedBy text = true
      · rw [if_pos hclosed, if_pos hclosed]
        exact congrArg Except.ok (add_behind ⟨outer, data⟩ earlier _)
      · rw [if_neg hclosed, if_neg hclosed]
        rfl
  | other kind => rfl

theorem takeWithin_behind (depth : Nat) (s : Pass) (earlier : List Datum) (t : Token) :
    (s.behind earlier).takeWithin depth t = (s.takeWithin depth t).map (·.behind earlier) := by
  have hopened : (s.behind earlier).opened = s.opened := rfl
  unfold takeWithin
  rw [hopened, take_behind]
  split
  · rfl
  · rfl

/-- A pass over the tokens of a text does not stop before their end for what is behind them. -/
theorem ends_takeWithin (depth : Nat) (s : Pass) (h : t.IsLexeme) :
    Ends (fun _ => True) (fun fault => ∀ cause, fault ≠ .lexing cause) (s.takeWithin depth t) := by
  refine Ends.ite ((ends_take s h).mono (fun _ h => h) ?_) (.error fun _ h => by cases h)
  rintro fault hstops cause rfl
  cases hstops

/-- The pass goes on behind data from before as it does without them. -/
theorem runWithin_behind (depth : Nat) (h : ∀ t ∈ ts, t.IsLexeme) (s : Pass)
    (earlier : List Datum) (distance : Nat) (u : Option LexFault) :
    (s.behind earlier).runWithin depth ts (u.map (Lexer.moved distance)) =
      readBehind earlier.reverse distance (s.runWithin depth ts u) := by
  induction ts generalizing s with
  | nil => exact finish_behind s earlier distance u
  | cons t ts ih =>
    obtain ⟨ht, hts⟩ := List.forall_mem_cons.mp h
    rw [runWithin_cons, runWithin_cons, takeWithin_behind]
    have hends := ends_takeWithin depth s ht
    cases htake : s.takeWithin depth t with
    | ok s' => exact ih hts s'
    | error fault =>
      -- What is behind the tokens shows at their end only, so no fault before it moves.
      have hmoved := Fault.moved_of_ne (hends.allowed_of_eq_error htake) distance
      show Except.error fault = .error (fault.moved distance)
      rw [hmoved]

end Pass

/-! ## Joined texts -/

section

variable [Host]

/-- A text that cannot be cut to its end has a string that is not closed. -/
theorem exists_unclosed_of_read {depth : Nat} {source : Text} {cause : LexFault}
    (h : read depth source = .error (.lexing cause)) :
    ∃ position, cause = .unclosedString position := by
  have hfault := readFault_of_read h
  generalize hlexing : Fault.lexing cause = fault at hfault
  cases hfault with
  | lexing hstopped =>
    cases hlexing
    have hparts := partition_lex source
    rw [hstopped] at hparts
    obtain ⟨_, _, -, hcause, -⟩ := hparts.exists_unclosed
    exact ⟨_, hcause⟩
  | word _ hword =>
    obtain ⟨digits, rfl⟩ := TokenStream.eq_longNumeral_of_ofWord hword
    cases hlexing
  | string hmem hliteral =>
    obtain ⟨cause', rfl⟩ :=
      TokenStream.eq_badLiteral_of_ofLiteral ((isLexeme_of_mem_lex hmem).isPlain rfl) hliteral
    cases hlexing
  | unmatched _ | mismatched _ _ | strayCloser _ | noBracket _ _ | unknownToken _ | tooDeep =>
    cases hlexing

/-- A text behind one that can be read is read as it is alone. -/
theorem read_joined {depth : Nat} {s : Text} {ds : List Datum} (hs : read depth s = .ok ds)
    (t : Text) :
    read depth (s ++ "\n" ++ t) = readBehind ds (s.length + 1) (read depth t) := by
  rw [read_eq_runWithin] at hs
  obtain ⟨after, hafter, hfinish⟩ := exists_of_bind_eq_ok hs
  obtain ⟨hu, rfl⟩ := Pass.eq_of_finish hfinish
  have hlexemes : ∀ t' ∈ (lex t).tokens, t'.IsLexeme := fun _ ht' => isLexeme_of_mem_lex ht'
  rw [read_eq_runWithin, read_eq_runWithin, lex_joined hu, Pass.runWithin_append, hafter]
  have hbehind := Pass.runWithin_behind depth hlexemes .start ds.reverse (s.length + 1)
    (lex t).stopped
  rw [List.reverse_reverse] at hbehind
  exact hbehind

end

/-- Reading distributes over texts with a line break between them, whatever the first one ends
    with and the second one starts with. Behind a text that can be read, a text that can be read
    adds its data, and one that cannot stops the reader at its own fault: the same fault, unless it
    names the position of a string that is not closed, which is further on by the length of the
    first text and the line break. -/
theorem read_distributes_over_lines [Host] {depth : Nat} {s : Text} {ds : List Datum}
    (hs : read depth s = .ok ds) (t : Text) :
    (∀ es, read depth t = .ok es → read depth (s ++ "\n" ++ t) = .ok (ds ++ es)) ∧
    (∀ position, read depth t = .error (.lexing (.unclosedString position)) →
      read depth (s ++ "\n" ++ t) =
        .error (.lexing (.unclosedString (position + (s.length + 1))))) ∧
    (∀ fault, read depth t = .error fault →
      (∀ position, fault ≠ .lexing (.unclosedString position)) →
      read depth (s ++ "\n" ++ t) = .error fault) := by
  have hjoined := read_joined hs t
  refine ⟨?_, ?_, ?_⟩
  · intro es ht
    rw [hjoined, ht]
    rfl
  · intro position ht
    rw [hjoined, ht]
    rfl
  · intro fault ht hfault
    have hmoved : ∀ cause, fault ≠ .lexing cause := by
      rintro cause rfl
      obtain ⟨position, rfl⟩ := exists_unclosed_of_read ht
      exact hfault position rfl
    rw [hjoined, ht, readBehind, Fault.moved_of_ne hmoved]

/-- Behind a text that ends in a comment: a list, a stray closer, and a string that is not
    closed. -/
theorem read_distributes_over_lines_comment :
    letI := Host.bare
    read 9 "(a) ;b" = .ok [.list [.sym ⟨"a"⟩]] ∧
      read 9 ("(a) ;b" ++ "\n" ++ "[1]") = .ok [.list [.sym ⟨"a"⟩], .list [.int 1]] ∧
      read 9 ("(a) ;b" ++ "\n" ++ ")") = .error (.strayCloser ")") ∧
      read 9 "c \"d" = .error (.lexing (.unclosedString 2)) ∧
      read 9 ("(a) ;b" ++ "\n" ++ "c \"d") = .error (.lexing (.unclosedString 9)) := by
  let _ := Host.bare
  have hlex : lex "(a) ;b" = ⟨[⟨.opener, "("⟩, ⟨.word, "a"⟩, ⟨.closer, ")"⟩], none⟩ := by
    decide +kernel
  have hlist : lex "[1]" = ⟨[⟨.opener, "["⟩, ⟨.word, "1"⟩, ⟨.closer, "]"⟩], none⟩ := by
    decide +kernel
  have hcloser : lex ")" = ⟨[⟨.closer, ")"⟩], none⟩ := by decide +kernel
  have hstring : lex "c \"d" = ⟨[⟨.word, "c"⟩], some (.unclosedString 2)⟩ := by decide +kernel
  have hs : read 9 "(a) ;b" = .ok [.list [.sym ⟨"a"⟩]] := by
    rw [read_eq_runWithin, hlex]
    cbv
  have ht : read 9 "[1]" = .ok [.list [.int 1]] := by
    rw [read_eq_runWithin, hlist]
    cbv
  have ht' : read 9 ")" = .error (.strayCloser ")") := by
    rw [read_eq_runWithin, hcloser]
    rfl
  have ht'' : read 9 "c \"d" = .error (.lexing (.unclosedString 2)) := by
    rw [read_eq_runWithin, hstring]
    cbv
  obtain ⟨hdata, -, -⟩ := read_distributes_over_lines hs "[1]"
  obtain ⟨-, -, hfault⟩ := read_distributes_over_lines hs ")"
  obtain ⟨-, hposition, -⟩ := read_distributes_over_lines hs "c \"d"
  exact ⟨hs, hdata _ ht, hfault _ ht' (by simp), ht'', hposition 2 ht''⟩

end MiniLisp
