/-
  MiniLisp.Proofs.Reader.Steps

  The reader one token at a time. `TokenStream.cut ts u` is a text of which the
  tokens `ts` are left; for each reading function there is one equation for
  each way in which the tokens can start, and in none of them does the
  buffer of the stream show.

  The two loops of the reader, over the items of a list and over the data of a
  text, differ in how they end only: `Gathers` says what they have in common.
-/
import MiniLisp.Datum.Reader

namespace MiniLisp

namespace TokenStream

/-! ## Steps of the reader -/

/-- The stream of a text of which the tokens `ts` are left. -/
def cut (ts : List Token) (stopped : Option LexFault) : TokenStream := ⟨[], ts, stopped, true⟩

theorem bind_apply {α β : Type} (op : Reading α) (next : α → Reading β) (s : TokenStream) :
    (op >>= next) s =
      match op s with
      | .ok a s' => next a s'
      | .error fault s' => .error fault s' := by
  show EStateM.bind op next s = _
  unfold EStateM.bind
  cases op s with
  | ok a s' => rfl
  | error fault s' => rfl

variable {most depth : Nat} {ts : List Token} {u : Option LexFault}

theorem peek_cons {t : Token} :
    peek (cut (t :: ts) u) = .ok (some t) ⟨[t], ts, u, true⟩ := rfl

variable {item : Reading (Option Datum)} {b : Bracket} {done : List Datum}

theorem readItems_zero (s : TokenStream) :
    readItems item b 0 done s = .error (.unmatched b) s := rfl

theorem readItems_nil :
    readItems item b (most + 1) done (cut [] none) = .error (.unmatched b) (cut [] none) := rfl

theorem readItems_stopped {cause : LexFault} :
    readItems item b (most + 1) done (cut [] (some cause)) =
      .error (.lexing cause) finished := rfl

theorem readItems_closer {text : Text} :
    readItems item b (most + 1) done (cut (⟨.closer, text⟩ :: ts) u) =
      if b.closedBy text then .ok done.reverse (cut ts u)
      else .error (.mismatched b text) (cut ts u) := by
  show (if b.closedBy text then pure done.reverse else throw (.mismatched b text) :
    Reading (List Datum)) (cut ts u) = _
  split <;> rfl

theorem readDataWith_nil :
    readDataWith item (most + 1) done (cut [] none) = .ok done.reverse (cut [] none) := rfl

theorem readDataWith_stopped {cause : LexFault} :
    readDataWith item (most + 1) done (cut [] (some cause)) =
      .error (.lexing cause) finished := rfl

variable [Host]

theorem next_apply (depth : Nat) (s : TokenStream) :
    next depth s = readDatum (s.size + 1) depth s := rfl

theorem readData_apply (depth : Nat) (s : TokenStream) :
    readData depth s = readDataWith (readDatum (s.size + 1) depth) (s.size + 1) [] s := rfl

theorem readDatum_zero : readDatum most 0 (cut ts u) = .error .tooDeep finished := rfl

theorem readDatum_nil : readDatum most (depth + 1) (cut [] none) = .ok none (cut [] none) := rfl

theorem readDatum_stopped {cause : LexFault} :
    readDatum most (depth + 1) (cut [] (some cause)) =
      .error (.lexing cause) finished := rfl

/-- A word is read from any stream as it is by itself. -/
theorem readDatum_of_word {s s' : TokenStream} {text : Text}
    (h : advance s = .ok (some ⟨.word, text⟩) s') :
    readDatum most (depth + 1) s =
      match Datum.ofWord text with
      | .ok d => .ok (some d) s'
      | .error fault => .error fault s' := by
  rw [readDatum, bind_apply, h]
  show (some <$> MonadExcept.ofExcept (Datum.ofWord text) : Reading _) s' = _
  cases Datum.ofWord text <;> rfl

theorem readDatum_word {text : Text} :
    readDatum most (depth + 1) (cut (⟨.word, text⟩ :: ts) u) =
      match Datum.ofWord text with
      | .ok d => .ok (some d) (cut ts u)
      | .error fault => .error fault (cut ts u) :=
  readDatum_of_word rfl

theorem readDatum_string {text : Text} :
    readDatum most (depth + 1) (cut (⟨.string, text⟩ :: ts) u) =
      match Datum.ofLiteral text with
      | .ok d => .ok (some d) (cut ts u)
      | .error fault => .error fault (cut ts u) := by
  show (some <$> MonadExcept.ofExcept (Datum.ofLiteral text) : Reading _) (cut ts u) = _
  cases Datum.ofLiteral text <;> rfl

theorem readDatum_opener {text : Text} :
    readDatum most (depth + 1) (cut (⟨.opener, text⟩ :: ts) u) =
      match Bracket.ofOpener? text with
      | none => .error (.noBracket text) (cut ts u)
      | some b =>
        match readItems (readDatum most depth) b most [] (cut ts u) with
        | .ok items s => .ok (some (.list items)) s
        | .error fault s => .error fault s := by
  show (match Bracket.ofOpener? text with
    | none => throw (.noBracket text)
    | some b => do
      let items ← readItems (readDatum most depth) b most []
      pure (some (Datum.list items)) : Reading (Option Datum)) (cut ts u) = _
  cases Bracket.ofOpener? text with
  | none => rfl
  | some b =>
    show (readItems (readDatum most depth) b most [] >>= fun items =>
      pure (some (Datum.list items)) : Reading (Option Datum)) (cut ts u) = _
    rw [bind_apply]
    dsimp only
    cases readItems (readDatum most depth) b most [] (cut ts u) with
    | ok items s => rfl
    | error fault s => rfl

theorem readDatum_closer {text : Text} :
    readDatum most (depth + 1) (cut (⟨.closer, text⟩ :: ts) u) =
      .error (.strayCloser text) (cut ts u) := rfl

theorem readDatum_other {kind text : Text} :
    readDatum most (depth + 1) (cut (⟨.other kind, text⟩ :: ts) u) =
      .error (.unknownToken kind text) (cut ts u) := rfl

/-- A token that was looked at is read like one that was not. -/
theorem readDatum_buffered {t : Token} :
    readDatum most depth ⟨[t], ts, u, true⟩ = readDatum most depth (cut (t :: ts) u) := by
  cases depth with
  | zero => rfl
  | succ depth => rfl

/-- A token that is no closer starts the next item. -/
theorem readItems_item {most' : Nat} {t : Token} (ht : t.kind ≠ .closer) :
    readItems (readDatum most' depth) b (most + 1) done (cut (t :: ts) u) =
      match readDatum most' depth (cut (t :: ts) u) with
      | .ok (some d) s => readItems (readDatum most' depth) b most (d :: done) s
      | .ok none s => .error (.unmatched b) s
      | .error fault s => .error fault s := by
  rw [← readDatum_buffered, readItems, bind_apply, peek_cons]
  generalize (⟨[t], ts, u, true⟩ : TokenStream) = s
  obtain ⟨kind, text⟩ := t
  cases kind with
  | closer => exact absurd rfl ht
  | opener | string | word | other _ =>
    dsimp only
    rw [bind_apply]
    cases readDatum most' depth s with
    | error fault s => rfl
    | ok d s => cases d <;> rfl

/-- Every token at the top level starts a datum. -/
theorem readDataWith_cons {most' : Nat} {t : Token} :
    readDataWith (readDatum most' depth) (most + 1) done (cut (t :: ts) u) =
      match readDatum most' depth (cut (t :: ts) u) with
      | .ok (some d) s => readDataWith (readDatum most' depth) most (d :: done) s
      | .ok none s => .ok done.reverse s
      | .error fault s => .error fault s := by
  rw [← readDatum_buffered, readDataWith, bind_apply, peek_cons]
  dsimp only
  rw [bind_apply]
  cases readDatum most' depth ⟨[t], ts, u, true⟩ with
  | error fault s => rfl
  | ok d s => cases d <;> rfl

/-! ## Loops over data -/

/-- The loop reads an item wherever a token is left that is no closer: the item joins those read
    before, and a fault of the item is a fault of the loop. -/
structure Gathers (item : Reading (Option Datum))
    (loop : Nat → List Datum → Reading (List Datum)) : Prop where
  joins {most : Nat} {done : List Datum} {t : Token} {ts : List Token} {u : Option LexFault}
    {d : Datum} {s : TokenStream} : t.kind ≠ .closer → item (cut (t :: ts) u) = .ok (some d) s →
    loop (most + 1) done (cut (t :: ts) u) = loop most (d :: done) s
  fails {most : Nat} {done : List Datum} {t : Token} {ts : List Token} {u : Option LexFault}
    {fault : Fault} {s : TokenStream} : t.kind ≠ .closer →
    item (cut (t :: ts) u) = .error fault s →
    loop (most + 1) done (cut (t :: ts) u) = .error fault s

theorem gathers_readItems (most' depth : Nat) (b : Bracket) :
    Gathers (readDatum most' depth) (readItems (readDatum most' depth) b) where
  joins ht h := by rw [readItems_item ht, h]
  fails ht h := by rw [readItems_item ht, h]

theorem gathers_readDataWith (most' depth : Nat) :
    Gathers (readDatum most' depth) (readDataWith (readDatum most' depth)) where
  joins _ h := by rw [readDataWith_cons, h]
  fails _ h := by rw [readDataWith_cons, h]

end TokenStream

end MiniLisp
