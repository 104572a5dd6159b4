/-
  MiniLisp.Proofs.Text.Unambiguous

  Texts that tell what they stand for. `Tells f a b` says that the texts of `a`
  and `b` differ if `a` and `b` do, whatever stands behind them, so that a
  longer text can be taken apart from its front: the first part is known, and
  what is left is what follows it.

  Decimal texts tell their number when a bracket follows, quoted texts and
  symbols tell their characters, and tuples tell their members if the members'
  texts do.
-/
import MiniLisp.Proofs.Text.Numeral
import MiniLisp.Proofs.Text.Spelling
import MiniLisp.Symbol
import MiniLisp.Text.Sequence

namespace MiniLisp.Text

variable {α : Type}

/-- The texts of `a` and `b` are told apart, whatever stands behind them. -/
def Tells (f : α → Text) (a b : α) : Prop :=
  ∀ r s, (f a).toList ++ r = (f b).toList ++ s → a = b ∧ r = s

/-- What tells between two texts still tells. -/
theorem Tells.between {f : α → Text} {a b : α} (h : Tells f a b) {front back : Text}
    {r s : List CodePoint}
    (heq : (front ++ f a ++ back).toList ++ r = (front ++ f b ++ back).toList ++ s) :
    a = b ∧ r = s := by
  simp only [Text.toList_append, List.append_assoc] at heq
  have hparts := List.append_cancel_left heq
  obtain ⟨hab, hrest⟩ := h _ _ hparts
  exact ⟨hab, List.append_cancel_left hrest⟩

/-! ## Decimal texts -/

/-- A decimal digit is none of the marks that could stand beside it. -/
theorem ne_of_mem_toDigits {c : CodePoint} {d : Char} {n : Nat}
    (hc : c ∈ (Nat.toDigits 10 n).map CodePoint.char) (hd : d.isDigit = false) : c ≠ d := by
  rintro rfl
  obtain ⟨e, he, h⟩ := List.mem_map.mp hc
  cases h
  rw [Nat.isDigit_of_mem_toDigits (by decide) (by decide) he] at hd
  cases hd

theorem decimal_injective {m n : Int} (h : decimal m = decimal n) : m = n := by
  obtain ⟨k, hk, hkvalue, -⟩ := Numeral.exists_ofChars?_decimal m
  obtain ⟨l, hl, hlvalue, -⟩ := Numeral.exists_ofChars?_decimal n
  -- Both are read back from the same text.
  rw [h, hl] at hk
  rw [← hkvalue, ← hlvalue, Option.some.inj hk]

/-- No closing bracket stands in a decimal text. -/
theorem enclosed_decimal (n : Int) : Enclosed ')' (decimal n).toList := by
  have hdigits : ∀ k, Enclosed ')' ((Nat.toDigits 10 k).map .char) := by
    intro k
    refine .of_forall fun c hc => ?_
    exact ⟨ne_of_mem_toDigits hc rfl, ne_of_mem_toDigits hc rfl⟩
  cases n with
  | ofNat n =>
    rw [decimal, Text.toList_ofList]
    exact hdigits n
  | negSucc n =>
    rw [decimal, Text.toList_ofList]
    exact .char (by decide) (by decide) (hdigits (n + 1))

/-- A decimal text before a closing bracket tells its number. -/
theorem decimal_unambiguous {m n : Int} {r s : List CodePoint}
    (h : (decimal m).toList ++ .char ')' :: r = (decimal n).toList ++ .char ')' :: s) :
    m = n ∧ r = s := by
  obtain ⟨hlist, hrest⟩ :=
    Enclosed.eq_of_append_eq (by decide) (enclosed_decimal m) (enclosed_decimal n) h
  exact ⟨decimal_injective (Text.toList_inj.mp hlist), hrest⟩

/-! ## Quoted texts and symbols -/

theorem tells_quoted (s t : Text) : Tells quoted s t := by
  intro r r' h
  simp only [quoted, Text.toList_ofList] at h
  obtain ⟨hchars, hrest⟩ := quotedChars_unambiguous h
  exact ⟨Text.toList_inj.mp hchars, hrest⟩

theorem toList_close : (ofString ")").toList = [.char ')'] := by decide

theorem tells_symbol (x y : Symbol) : Tells Symbol.text x y := by
  intro r s h
  rw [Symbol.text, Symbol.text] at h
  obtain ⟨hname, hrest⟩ := (tells_quoted x.name y.name).between h
  exact ⟨congrArg Symbol.mk hname, hrest⟩

/-! ## Tuples -/

/-- The members from the second on, each behind its comma, and the end of a tuple. -/
def tupleRest : List Text → List CodePoint
  | [] => [.char ')']
  | x :: xs => .char ',' :: .char ' ' :: (x.toList ++ tupleRest xs)

/-- What follows the first member of a tuple: a comma even if there is no second one. -/
def tupleTail : List Text → List CodePoint
  | [] => [.char ',', .char ')']
  | x :: xs => tupleRest (x :: xs)

theorem toList_commas_cons (x : Text) (xs : List Text) :
    (commas (x :: xs)).toList ++ [.char ')'] = x.toList ++ tupleRest xs := by
  induction xs generalizing x with
  | nil => rfl
  | cons y ys ih =>
    rw [commas, divided, Text.toList_append, Text.toList_append, List.append_assoc,
      List.append_assoc, ← commas, ih, tupleRest]
    rfl

theorem toList_tupleText_nil : (tupleText []).toList = [.char '(', .char ')'] := by decide

theorem toList_tupleText_cons (x : Text) (xs : List Text) :
    (tupleText (x :: xs)).toList = .char '(' :: (x.toList ++ tupleTail xs) := by
  cases xs with
  | nil =>
    rw [tupleText, Text.toList_append, Text.toList_append]
    rfl
  | cons y ys =>
    rw [tupleTail, ← toList_commas_cons, tupleText, Text.toList_append, Text.toList_append]
    · rfl
    · simp

theorem tupleRest_unambiguous {f : α → Text} {xs ys : List α} {r s : List CodePoint}
    (hf : ∀ x ∈ xs, ∀ y ∈ ys, Tells f x y)
    (h : tupleRest (xs.map f) ++ r = tupleRest (ys.map f) ++ s) : xs = ys ∧ r = s := by
  induction xs generalizing ys with
  | nil =>
    cases ys with
    | nil => exact ⟨rfl, List.append_cancel_left h⟩
    | cons y ys => exact absurd (List.cons.inj h).1 (by decide)
  | cons x xs ih =>
    cases ys with
    | nil => exact absurd (List.cons.inj h).1 (by decide)
    | cons y ys =>
      have h' := (List.cons.inj (List.cons.inj h).2).2
      simp only [List.append_eq, List.append_assoc] at h'
      obtain ⟨rfl, hrest⟩ := hf x List.mem_cons_self y List.mem_cons_self _ _ h'
      obtain ⟨rfl, rfl⟩ := ih
        (fun z hz w hw => hf z (List.mem_cons_of_mem x hz) w (List.mem_cons_of_mem x hw)) hrest
      exact ⟨rfl, rfl⟩

theorem tupleTail_unambiguous {f : α → Text} {xs ys : List α} {r s : List CodePoint}
    (hf : ∀ x ∈ xs, ∀ y ∈ ys, Tells f x y)
    (h : tupleTail (xs.map f) ++ r = tupleTail (ys.map f) ++ s) : xs = ys ∧ r = s := by
  cases xs with
  | nil =>
    cases ys with
    | nil => exact ⟨rfl, List.append_cancel_left h⟩
    | cons y ys => exact absurd (List.cons.inj (List.cons.inj h).2).1 (by decide)
  | cons x xs =>
    cases ys with
    | nil => exact absurd (List.cons.inj (List.cons.inj h).2).1 (by decide)
    | cons y ys => exact tupleRest_unambiguous hf h

/-- The text looks like nothing that could end a tuple. -/
def OpensMember (t : Text) : Prop := ∀ r s, t.toList ++ r ≠ .char ')' :: s

/-- A tuple of no members is told from one of some. -/
theorem tupleText_nil_ne {x : Text} (hx : OpensMember x) (xs : List Text) (r s : List CodePoint) :
    (tupleText []).toList ++ r ≠ (tupleText (x :: xs)).toList ++ s := by
  intro h
  rw [toList_tupleText_nil, toList_tupleText_cons] at h
  have hrest : .char ')' :: r = x.toList ++ tupleTail xs ++ s := (List.cons.inj h).2
  rw [List.append_assoc] at hrest
  exact hx _ _ hrest.symm

/-- A tuple tells its members if each member's text tells that member and opens it. -/
theorem tells_tuple {f : α → Text} {xs ys : List α} (hf : ∀ x ∈ xs, ∀ y ∈ ys, Tells f x y)
    (hxs : ∀ x ∈ xs, OpensMember (f x)) (hys : ∀ y ∈ ys, OpensMember (f y)) :
    Tells (fun zs => tupleText (zs.map f)) xs ys := by
  intro r s h
  cases xs with
  | nil =>
    cases ys with
    | nil => exact ⟨rfl, List.append_cancel_left h⟩
    | cons y ys => exact absurd h (tupleText_nil_ne (hys y List.mem_cons_self) _ r s)
  | cons x xs =>
    cases ys with
    | nil => exact absurd h.symm (tupleText_nil_ne (hxs x List.mem_cons_self) _ s r)
    | cons y ys =>
      simp only [List.map_cons, toList_tupleText_cons, List.cons_append, List.append_assoc] at h
      obtain ⟨rfl, htail⟩ := hf x List.mem_cons_self y List.mem_cons_self _ _ (List.cons.inj h).2
      obtain ⟨rfl, rfl⟩ := tupleTail_unambiguous
        (fun z hz w hw => hf z (List.mem_cons_of_mem x hz) w (List.mem_cons_of_mem x hw)) htail
      exact ⟨rfl, rfl⟩

end MiniLisp.Text
