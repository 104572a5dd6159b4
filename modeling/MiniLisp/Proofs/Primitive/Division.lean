/-
  MiniLisp.Proofs.Primitive.Division

  Integer division. `Truncates a b q` says what a quotient that is cut off toward
  zero is, by what it leaves over and without saying how it is found. There is at
  most one such quotient (`Truncates.unique`). The operation divides the magnitudes
  and looks at the signs, which is truncated division (`quotient_eq_tdiv`), and its
  quotient is such a one (`truncates_tdiv`); so what follows from the description
  alone, such as what a change of sign does, holds of the operation.
-/
import MiniLisp.Proofs.Primitive.Result

namespace MiniLisp

variable {a b q : Int}

/-- What is left over when `q` times the divisor `b` is taken from `a` is less than the divisor, and
    it is nothing or has the sign of `a`. -/
structure Truncates (a b q : Int) : Prop where
  small : (a - q * b).natAbs < b.natAbs
  sign : a - q * b = 0 ∨ (a - q * b).sign = a.sign

namespace Truncates

/-- What is left over lies on the same side of zero as the dividend. -/
theorem rest_cases (h : Truncates a b q) :
    a - q * b = 0 ∨ (0 < a ∧ 0 < a - q * b) ∨ (a < 0 ∧ a - q * b < 0) := by
  rcases h.sign with hzero | hsign
  · exact .inl hzero
  · rcases Int.lt_trichotomy a 0 with ha | ha | ha
    · rw [Int.sign_eq_neg_one_of_neg ha, Int.sign_eq_neg_one_iff_neg] at hsign
      exact .inr (.inr ⟨ha, hsign⟩)
    · rw [ha, Int.sign_zero, Int.sign_eq_zero_iff_zero] at hsign
      exact .inl (ha ▸ hsign)
    · rw [Int.sign_eq_one_of_pos ha, Int.sign_eq_one_iff_pos] at hsign
      exact .inr (.inl ⟨ha, hsign⟩)

/-- Two such quotients leave over two numbers on one side of zero, which differ by less than the
    divisor and by a multiple of it. -/
theorem unique {q' : Int} (h : Truncates a b q) (h' : Truncates a b q') : q' = q := by
  have hdiff : (q' - q) * b = (a - q * b) - (a - q' * b) := by
    rw [Int.sub_mul]
    omega
  have hless : ((q' - q) * b).natAbs < b.natAbs := by
    have hsmall := h.small
    have hsmall' := h'.small
    have hrest := h.rest_cases
    have hrest' := h'.rest_cases
    rw [hdiff]
    omega
  have hzero : (q' - q).natAbs = 0 := by
    rw [Int.natAbs_mul] at hless
    rcases Nat.eq_zero_or_pos (q' - q).natAbs with hzero | hpos
    · exact hzero
    · -- any multiple of the divisor but zero is as great as the divisor
      have hge := Nat.le_mul_of_pos_left b.natAbs hpos
      omega
  omega

theorem neg_left (h : Truncates a b q) : Truncates (-a) b (-q) := by
  have hrest : -a - -q * b = -(a - q * b) := by
    rw [Int.neg_mul]
    omega
  refine ⟨?_, ?_⟩
  · rw [hrest, Int.natAbs_neg]
    exact h.small
  · rw [hrest, Int.sign_neg, Int.sign_neg, Int.neg_eq_zero, Int.neg_inj]
    exact h.sign

theorem neg_right (h : Truncates a b q) : Truncates a (-b) (-q) := by
  have hrest : a - -q * -b = a - q * b := by rw [Int.neg_mul_neg]
  refine ⟨?_, ?_⟩
  · rw [hrest, Int.natAbs_neg]
    exact h.small
  · rw [hrest]
    exact h.sign

end Truncates

/-! ## What the operation computes -/

/-- The quotient is that of the magnitudes, and negative if just one of the numbers is. -/
theorem tdiv_eq_of_signs (a b : Int) :
    a.tdiv b = if a < 0 ↔ b < 0 then ((a.natAbs / b.natAbs : Nat) : Int)
      else -((a.natAbs / b.natAbs : Nat) : Int) := by
  have hofNat (n : Nat) : ¬Int.ofNat n < 0 := Int.not_lt.mpr (Int.natCast_nonneg n)
  have hnegSucc (n : Nat) : Int.negSucc n < 0 := Int.negSucc_lt_zero n
  -- Truncated division is defined by the four cases of the signs; zero counts as positive.
  cases a with
  | ofNat m =>
    cases b with
    | ofNat n => rw [if_pos (iff_of_false (hofNat m) (hofNat n))]; rfl
    | negSucc n => rw [if_neg fun h => hofNat m (h.mpr (hnegSucc n))]; rfl
  | negSucc m =>
    cases b with
    | ofNat n => rw [if_neg fun h => hofNat n (h.mp (hnegSucc m))]; rfl
    | negSucc n => rw [if_pos (iff_of_true (hnegSucc m) (hnegSucc n))]; rfl

theorem truncates_tdiv (a : Int) (hb : b ≠ 0) : Truncates a b (a.tdiv b) := by
  have hrest : a - a.tdiv b * b = a.tmod b := by rw [Int.tmod_def, Int.mul_comm]
  refine ⟨?_, ?_⟩
  · rw [hrest, Int.natAbs_tmod]
    exact Nat.mod_lt _ (by omega)
  · rw [hrest, Int.sign_tmod]
    by_cases hdvd : b ∣ a
    · exact .inl (Int.tmod_eq_zero_of_dvd hdvd)
    · rw [if_neg hdvd]
      exact .inr rfl

/-- Dividing the magnitudes and looking at the signs is truncated division. -/
theorem quotient_eq_tdiv (a : Int) (hb : b ≠ 0) : Primitive.quotient a b = .ok (a.tdiv b) := by
  rw [Primitive.quotient, if_neg hb, tdiv_eq_of_signs]

/-- Dividing by anything but zero has the truncated quotient for its result. -/
theorem outcome_division (depth : Nat) (hb : b ≠ 0) (h : Truncates a b q) :
    (Primitive.applySymbol depth Primitive.div.symbol [.num a, .num b]).outcome =
      .ok (.num q) := by
  have hquotient : Primitive.quotient a b = .ok q := by
    rw [quotient_eq_tdiv a hb, h.unique (truncates_tdiv a hb)]
  rw [Primitive.outcome_applySymbol]
  show (do let q ← Primitive.quotient a b; pure (Value.num q)) = _
  rw [hquotient]
  rfl

/-- **Division is cut off toward zero.** Dividing by a number that is not zero gives the only number
    that leaves over less than the divisor, and on the side of zero where the dividend is: the
    quotient of the magnitudes, negative if just one of the two numbers is. So the quotient changes
    its sign with either of them. -/
theorem division_truncates_toward_zero (depth : Nat) (a b : Int) (hb : b ≠ 0) :
    let divide (a b : Int) :=
      (Primitive.applySymbol depth Primitive.div.symbol [.num a, .num b]).outcome
    ∃ q, divide a b = .ok (.num q) ∧
      Truncates a b q ∧ (∀ q', Truncates a b q' → q' = q) ∧
      (q = if a < 0 ↔ b < 0 then ((a.natAbs / b.natAbs : Nat) : Int)
        else -((a.natAbs / b.natAbs : Nat) : Int)) ∧
      divide (-a) b = .ok (.num (-q)) ∧ divide a (-b) = .ok (.num (-q)) := by
  have hq := truncates_tdiv a hb
  have hnegb : -b ≠ 0 := Int.neg_ne_zero.mpr hb
  exact ⟨a.tdiv b, outcome_division depth hb hq, hq, fun _ => hq.unique, tdiv_eq_of_signs a b,
    outcome_division depth hb hq.neg_left, outcome_division depth hnegb hq.neg_right⟩

/-- Seven by two, with all four signs. -/
theorem division_truncates_toward_zero_signs :
    let divide (a b : Int) := (Primitive.applySymbol 0 ⟨"/"⟩ [.num a, .num b]).outcome
    (2 : Int) ≠ 0 ∧ divide (-7) 2 = .ok (.num (-3)) ∧ Truncates (-7) 2 (-3) ∧
      (∀ q, Truncates (-7) 2 q → q = -3) ∧ divide 7 2 = .ok (.num 3) ∧
      divide (-7) (-2) = .ok (.num 3) ∧ divide 7 (-2) = .ok (.num (-3)) := by
  intro divide
  have hleft : (2 : Int) ≠ 0 := by decide
  have hright : (-2 : Int) ≠ 0 := by decide
  obtain ⟨q, hq, htruncates, hunique, hvalue, hneg, hneg'⟩ :=
    division_truncates_toward_zero 0 (-7) 2 hleft
  obtain rfl : q = -3 := hvalue
  obtain ⟨r, -, -, -, hvalue', hneg'', -⟩ := division_truncates_toward_zero 0 (-7) (-2) hright
  obtain rfl : r = 3 := hvalue'
  exact ⟨hleft, hq, htruncates, hunique, hneg, hneg', hneg''⟩

end MiniLisp
