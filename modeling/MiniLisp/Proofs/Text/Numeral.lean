/-
  MiniLisp.Proofs.Text.Numeral

  Which texts are numerals, and what they stand for.

  `IsNumeral` describes numerals without reading them: a sign or none, and
  digits. A text is read as a numeral just if it is one (`ofChars?_eq_none_iff`).
  The decimal text of an integer is read as that integer
  (`exists_ofChars?_decimal`), and no numeral of at most `maxDigits` digits
  stands for an integer whose decimal text has more (`decimalFits_value`).
-/
import MiniLisp.Text.Numeral
import Mathlib.Algebra.Group.Nat.Defs

namespace MiniLisp.Text

/-- A sign or none, and one or more decimal digits of any scripts. -/
def IsNumeral (cs : List CodePoint) : Prop :=
  ∃ digits, digits ≠ [] ∧ (∀ c ∈ digits, isDigit c = true) ∧
    (cs = digits ∨ cs = .char '+' :: digits ∨ cs = .char '-' :: digits)

namespace Numeral

/-! ## Runs of digits -/

theorem mapM_digitValue?_eq_some_iff {cs : List CodePoint} {ds : List Nat} :
    cs.mapM digitValue? = some ds ↔ cs.map digitValue? = ds.map some := by
  induction cs generalizing ds with
  | nil => cases ds <;> simp
  | cons c cs ih =>
    simp only [List.mapM_cons, Option.bind_eq_bind, Option.bind_eq_some_iff, Option.pure_def,
      Option.some.injEq, List.map_cons]
    constructor
    · rintro ⟨d, hd, rest, hrest, rfl⟩
      rw [hd, ih.mp hrest, List.map_cons]
    · intro h
      cases ds with
      | nil => cases h
      | cons d ds =>
        obtain ⟨hd, hrest⟩ := List.cons.inj h
        exact ⟨d, hd, ds, ih.mpr hrest, rfl⟩

theorem digits?_eq_some_iff {cs : List CodePoint} {ds : List Nat} :
    digits? cs = some ds ↔ cs ≠ [] ∧ cs.map digitValue? = ds.map some := by
  cases cs with
  | nil => simp [digits?]
  | cons c cs =>
    rw [digits?, List.isEmpty_cons, if_neg Bool.false_ne_true, mapM_digitValue?_eq_some_iff]
    exact (and_iff_right (List.cons_ne_nil c cs)).symm

/-- Digits, one or more, have values. -/
theorem exists_digits?_iff {cs : List CodePoint} :
    (∃ ds, digits? cs = some ds) ↔ cs ≠ [] ∧ ∀ c ∈ cs, isDigit c = true := by
  simp only [digits?_eq_some_iff, exists_and_left, and_congr_right_iff]
  intro _
  constructor
  · rintro ⟨ds, hds⟩ c hc
    have hmem : digitValue? c ∈ ds.map some := hds ▸ List.mem_map_of_mem hc
    obtain ⟨d, -, hd⟩ := List.mem_map.mp hmem
    rw [isDigit, ← hd, Option.isSome_some]
  · intro hcs
    refine ⟨cs.map fun c => (digitValue? c).getD 0, ?_⟩
    rw [List.map_map]
    refine List.map_congr_left fun c hc => ?_
    obtain ⟨d, hd⟩ := Option.isSome_iff_exists.mp (hcs c hc)
    rw [Function.comp_apply, hd, Option.getD_some]

/-- Ten digits to a place: a number is less than the power of ten of its number of digits. -/
theorem natOfDigits_lt {ds : List Nat} (h : ∀ d ∈ ds, d < 10) :
    natOfDigits ds < 10 ^ ds.length := by
  -- The digits so far make up `n`, and each of those to come multiplies it by ten.
  have hfold (n : Nat) : ds.foldl (fun n d => 10 * n + d) n < (n + 1) * 10 ^ ds.length := by
    induction ds generalizing n with
    | nil => simp
    | cons d ds ih =>
      obtain ⟨hd, hds⟩ := List.forall_mem_cons.mp h
      rw [List.foldl_cons, List.length_cons]
      calc ds.foldl (fun n d => 10 * n + d) (10 * n + d)
          < (10 * n + d + 1) * 10 ^ ds.length := ih hds _
        _ ≤ ((n + 1) * 10) * 10 ^ ds.length := Nat.mul_le_mul_right _ (by omega)
        _ = (n + 1) * 10 ^ (ds.length + 1) := by rw [Nat.mul_assoc, ← Nat.pow_succ']
  simpa [natOfDigits] using hfold 0

/-! ## Signs -/

theorem isDigit_sign : isDigit '+' = false ∧ isDigit '-' = false := by decide

theorem splitSign_of_digits {cs : List CodePoint} (h : ∀ c ∈ cs, isDigit c = true) :
    splitSign cs = (false, cs) := by
  unfold splitSign
  split
  · exact absurd (h '-' List.mem_cons_self) (by simp [isDigit_sign])
  · exact absurd (h '+' List.mem_cons_self) (by simp [isDigit_sign])
  · rfl

/-- What is left when a sign is split off is the text, or the text behind its sign. -/
theorem splitSign_cases (cs : List CodePoint) :
    cs = (splitSign cs).2 ∨ cs = .char '+' :: (splitSign cs).2 ∨
      cs = .char '-' :: (splitSign cs).2 := by
  unfold splitSign
  split
  · exact .inr (.inr rfl)
  · exact .inr (.inl rfl)
  · exact .inl rfl

/-- A text is read as a numeral just if it is one. -/
theorem ofChars?_eq_none_iff {cs : List CodePoint} : ofChars? cs = none ↔ ¬IsNumeral cs := by
  have hdigits : ofChars? cs = none ↔ ¬∃ ds, digits? (splitSign cs).2 = some ds := by
    rw [ofChars?, Option.map_eq_none_iff, Option.eq_none_iff_forall_ne_some, not_exists]
  rw [hdigits, exists_digits?_iff]
  refine not_congr ⟨?_, ?_⟩
  · rintro ⟨hne, hcs⟩
    exact ⟨_, hne, hcs, splitSign_cases cs⟩
  · rintro ⟨digits, hne, hall, rfl | rfl | rfl⟩
    · rw [splitSign_of_digits hall]
      exact ⟨hne, hall⟩
    · exact ⟨hne, hall⟩
    · exact ⟨hne, hall⟩

/-! ## Decimal texts -/

theorem digitValue?_of_isDigit {c : Char} (h : c.isDigit = true) :
    digitValue? c = some (c.toNat - '0'.toNat) := by
  have hrange : 48 ≤ c.toNat ∧ c.toNat < 48 + 10 := by
    simp only [Char.isDigit, Bool.and_eq_true, decide_eq_true_eq] at h
    exact ⟨h.1, Nat.lt_succ_of_le h.2⟩
  rw [digitValue?, digitZeros, List.findSome?_cons, if_pos]
  · rfl
  · rw [Bool.and_eq_true, decide_eq_true_eq, decide_eq_true_eq]
    exact hrange

theorem digits?_toDigits (n : Nat) :
    digits? ((Nat.toDigits 10 n).map .char) =
      some ((Nat.toDigits 10 n).map (·.toNat - '0'.toNat)) := by
  refine digits?_eq_some_iff.mpr ⟨mt List.map_eq_nil_iff.mp Nat.toDigits_ne_nil, ?_⟩
  rw [List.map_map, List.map_map]
  refine List.map_congr_left fun c hc => ?_
  exact digitValue?_of_isDigit (Nat.isDigit_of_mem_toDigits (by decide) (by decide) hc)

theorem isDigit_of_mem_toDigits {n : Nat} {c : CodePoint}
    (h : c ∈ (Nat.toDigits 10 n).map CodePoint.char) : isDigit c = true := by
  obtain ⟨d, hd, rfl⟩ := List.mem_map.mp h
  have hdigit : d.isDigit = true := Nat.isDigit_of_mem_toDigits (by decide) (by decide) hd
  rw [isDigit, digitValue?_of_isDigit hdigit, Option.isSome_some]

theorem natOfDigits_toDigits (n : Nat) :
    natOfDigits ((Nat.toDigits 10 n).map (·.toNat - '0'.toNat)) = n := by
  rw [natOfDigits, List.foldl_map]
  exact Nat.ofDigitChars_ten_toDigits

/-- The decimal text of an integer is a numeral that stands for the integer. -/
theorem exists_ofChars?_decimal (n : Int) :
    ∃ m : Numeral, ofChars? (decimal n).toList = some m ∧ m.value = n ∧
      m.digits.length = (Nat.toDigits 10 n.natAbs).length := by
  cases n with
  | ofNat n =>
    refine ⟨⟨false, (Nat.toDigits 10 n).map (·.toNat - '0'.toNat)⟩, ?_, ?_, List.length_map _⟩
    · rw [decimal, Text.toList_ofList, ofChars?,
        splitSign_of_digits fun c => isDigit_of_mem_toDigits]
      simp [digits?_toDigits]
    · rw [value, if_neg Bool.false_ne_true, natOfDigits_toDigits]
      rfl
  | negSucc n =>
    refine ⟨⟨true, (Nat.toDigits 10 (n + 1)).map (·.toNat - '0'.toNat)⟩, ?_, ?_, List.length_map _⟩
    · rw [decimal, Text.toList_ofList, ofChars?]
      simp [splitSign, digits?_toDigits]
    · rw [value, if_pos rfl, natOfDigits_toDigits]
      rfl

theorem decimalFits_iff_lt {n : Int} : decimalFits n = true ↔ n.natAbs < 10 ^ maxDigits := by
  unfold decimalFits decimalBound
  rw [decide_eq_true_iff, Nat.pow_eq]

theorem decimalFits_iff {n : Int} :
    decimalFits n = true ↔ (Nat.toDigits 10 n.natAbs).length ≤ maxDigits := by
  rw [Nat.length_toDigits_le_iff (by decide) (by decide), decimalFits_iff_lt]

theorem natAbs_value (m : Numeral) : m.value.natAbs = natOfDigits m.digits := by
  rw [value]
  split
  · exact Int.natAbs_neg _
  · rfl

/-- A numeral that is not too long stands for an integer whose decimal text is not. -/
theorem decimalFits_value {cs : List CodePoint} {m : Numeral} (h : ofChars? cs = some m)
    (hlength : m.digits.length ≤ maxDigits) : decimalFits m.value = true := by
  have hdigits : digits? (splitSign cs).2 = some m.digits := by
    obtain ⟨ds, hds, rfl⟩ := Option.map_eq_some_iff.mp h
    exact hds
  have hlt : ∀ d ∈ m.digits, d < 10 := by
    intro d hd
    have hmem : some d ∈ (splitSign cs).2.map digitValue? :=
      (digits?_eq_some_iff.mp hdigits).2 ▸ List.mem_map_of_mem hd
    obtain ⟨c, -, hc⟩ := List.mem_map.mp hmem
    exact digitValue?_lt hc
  rw [decimalFits_iff_lt, natAbs_value]
  exact Nat.lt_of_lt_of_le (natOfDigits_lt hlt) (Nat.pow_le_pow_right (by decide) hlength)

end Numeral

end MiniLisp.Text
