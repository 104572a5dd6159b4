/-
  MiniLisp.Proofs.Text.Positional

  The value of numerals by the places of their digits.

  `DigitWorth` and `Positional` say what digits are worth without reading them:
  a digit is as far from the zero of its script as it is worth, and stands for
  its worth times a power of ten, which is given by the number of digits behind
  it. The table of zeros and the loop that reads digits agree with that
  (`digitValue?_eq_some_iff`, `exists_digits_of_positional`), so what a numeral
  stands for does not depend on the scripts of its digits or on zeros in front
  (`Positional.of_sameWorth`, `Positional.of_zeros`).
-/
import MiniLisp.Proofs.Text.Numeral
import Mathlib.Data.List.Forall2
import Mathlib.Tactic.Ring

namespace MiniLisp.Text

variable {c : CodePoint} {cs digits : List CodePoint} {d n : Nat}

/-! ## Digits of every script -/

/-- A decimal digit of some script, and what it is worth. -/
def DigitWorth (c : CodePoint) (d : Nat) : Prop := d < 10 ∧ ∃ z ∈ digitZeros, c.toNat = z + d

/-- The digits of different scripts do not overlap. -/
theorem pairwise_digitZeros : digitZeros.Pairwise fun z z' => z + 10 ≤ z' := by
  decide

theorem digitValue?_eq_some_iff : digitValue? c = some d ↔ DigitWorth c d := by
  constructor
  · intro h
    obtain ⟨z, hz, hc⟩ := List.exists_of_findSome?_eq_some h
    refine ⟨digitValue?_lt h, z, hz, ?_⟩
    split at hc
    · rename_i hrange
      simp only [Bool.and_eq_true, decide_eq_true_eq] at hrange
      cases hc
      omega
    · cases hc
  · rintro ⟨hd, z, hz, hc⟩
    obtain ⟨before, after, hzeros⟩ := List.append_of_mem hz
    have hpairwise := pairwise_digitZeros
    rw [hzeros, List.pairwise_append] at hpairwise
    refine List.findSome?_eq_some_iff.mpr ⟨before, z, after, hzeros, ?_, ?_⟩
    · have hrange : z ≤ c.toNat ∧ c.toNat < z + 10 := by omega
      rw [if_pos (by simpa using hrange), hc, Nat.add_sub_cancel_left]
    · -- The scripts before this one end before its zero.
      intro z' hz'
      have hends := hpairwise.2.2 z' hz' z List.mem_cons_self
      have hbeyond : ¬(z' ≤ c.toNat ∧ c.toNat < z' + 10) := by omega
      rw [if_neg (by simpa using hbeyond)]

instance (c : CodePoint) (d : Nat) : Decidable (DigitWorth c d) :=
  decidable_of_iff _ digitValue?_eq_some_iff

theorem isDigit_iff : isDigit c = true ↔ ∃ d, DigitWorth c d := by
  rw [isDigit, Option.isSome_iff_exists]
  exact exists_congr fun d => digitValue?_eq_some_iff

/-- Digits of the same worth, of one script or of two. -/
def SameWorth (c c' : CodePoint) : Prop := ∃ d, DigitWorth c d ∧ DigitWorth c' d

/-! ## Places -/

/-- The characters are digits, and `n` is their value: each digit counts its worth times ten for
    every digit behind it. -/
inductive Positional : List CodePoint → Nat → Prop
  | nil : Positional [] 0
  | cons {c : CodePoint} {cs : List CodePoint} {d n : Nat} (hc : DigitWorth c d)
      (hcs : Positional cs n) :
      Positional (c :: cs) (d * 10 ^ cs.length + n)

theorem exists_positional_iff :
    (∃ n, Positional cs n) ↔ ∀ c ∈ cs, isDigit c = true := by
  constructor
  · rintro ⟨n, h⟩
    induction h with
    | nil => exact List.forall_mem_nil _
    | cons hc _ ih => exact List.forall_mem_cons.mpr ⟨isDigit_iff.mpr ⟨_, hc⟩, ih⟩
  · intro h
    induction cs with
    | nil => exact ⟨0, .nil⟩
    | cons c cs ih =>
      obtain ⟨hc, hcs⟩ := List.forall_mem_cons.mp h
      obtain ⟨d, hd⟩ := isDigit_iff.mp hc
      obtain ⟨n, hn⟩ := ih hcs
      exact ⟨_, .cons hd hn⟩

/-- The digits are read as numbers that a loop from the first to the last of them, which may start
    with digits already read, puts in their places. -/
theorem exists_digits_of_positional (h : Positional cs n) :
    ∃ ds : List Nat, cs.map digitValue? = ds.map some ∧
      ∀ k, ds.foldl (fun n d => 10 * n + d) k = k * 10 ^ cs.length + n := by
  induction h with
  | nil => exact ⟨[], rfl, fun k => by simp⟩
  | @cons c cs d n hc _ ih =>
    obtain ⟨ds, hds, hfold⟩ := ih
    refine ⟨d :: ds, ?_, fun k => ?_⟩
    · rw [List.map_cons, List.map_cons, digitValue?_eq_some_iff.mpr hc, hds]
    · calc (d :: ds).foldl (fun n d => 10 * n + d) k
          = (10 * k + d) * 10 ^ cs.length + n := hfold _
        _ = k * 10 ^ (cs.length + 1) + (d * 10 ^ cs.length + n) := by ring

/-- Scripts make no difference to the value. -/
theorem Positional.of_sameWorth (h : Positional cs n) {cs' : List CodePoint}
    (hsame : List.Forall₂ SameWorth cs cs') : Positional cs' n := by
  induction h generalizing cs' with
  | nil =>
    cases hsame
    exact .nil
  | cons hc _ ih =>
    cases hsame with
    | cons hfirst hrest =>
      obtain ⟨d, hd, hd'⟩ := hfirst
      have hvalue := digitValue?_eq_some_iff.mpr hc
      rw [digitValue?_eq_some_iff.mpr hd, Option.some.injEq] at hvalue
      rw [hrest.length_eq, ← hvalue]
      exact .cons hd' (ih hrest)

/-- Nor do zeros in front. -/
theorem Positional.of_zeros (h : Positional cs n) {zeros : List CodePoint}
    (hzeros : ∀ c ∈ zeros, DigitWorth c 0) : Positional (zeros ++ cs) n := by
  induction zeros with
  | nil => exact h
  | cons zero zeros ih =>
    obtain ⟨hzero, hzeros⟩ := List.forall_mem_cons.mp hzeros
    have hcons := Positional.cons hzero (ih hzeros)
    rwa [Nat.zero_mul, Nat.zero_add] at hcons

/-! ## Signs -/

/-- What stands in front of the digits of a numeral. -/
inductive Sign where
  | absent
  | plus
  | minus
deriving DecidableEq, Repr

namespace Sign

/-- The sign as it is written. -/
def chars : Sign → List CodePoint
  | .absent => []
  | .plus => [.char '+']
  | .minus => [.char '-']

/-- The integer with the sign and the magnitude `n`. -/
def apply : Sign → (n : Nat) → Int
  | .absent, n | .plus, n => n
  | .minus, n => -n

end Sign

/-- The text is a sign, or none, and one or more digits of the value `n`. -/
structure Signed (cs : List CodePoint) (sign : Sign) (digits : List CodePoint) (n : Nat) :
    Prop where
  text : cs = sign.chars ++ digits
  nonempty : digits ≠ []
  value : Positional digits n

theorem isNumeral_iff : IsNumeral cs ↔ ∃ sign digits n, Signed cs sign digits n := by
  constructor
  · rintro ⟨digits, hne, hall, hcs⟩
    obtain ⟨n, hn⟩ := exists_positional_iff.mpr hall
    obtain rfl | rfl | rfl := hcs
    · exact ⟨.absent, _, n, rfl, hne, hn⟩
    · exact ⟨.plus, _, n, rfl, hne, hn⟩
    · exact ⟨.minus, _, n, rfl, hne, hn⟩
  · rintro ⟨sign, digits, n, rfl, hne, hn⟩
    refine ⟨digits, hne, exists_positional_iff.mp ⟨n, hn⟩, ?_⟩
    cases sign with
    | absent => exact .inl rfl
    | plus => exact .inr (.inl rfl)
    | minus => exact .inr (.inr rfl)

theorem splitSign_chars_append (sign : Sign) (h : ∀ c ∈ digits, isDigit c = true) :
    Numeral.splitSign (sign.chars ++ digits) = (decide (sign = .minus), digits) := by
  cases sign with
  | absent => exact Numeral.splitSign_of_digits h
  | plus => rfl
  | minus => rfl

/-- A numeral is read as so many digits as it has, and they stand for its value with its sign. -/
theorem Signed.exists_ofChars? {sign : Sign} (h : Signed cs sign digits n) :
    ∃ m : Numeral, Numeral.ofChars? cs = some m ∧ m.digits.length = digits.length ∧
      m.value = sign.apply n := by
  obtain ⟨rfl, hne, hn⟩ := h
  obtain ⟨ds, hds, hfold⟩ := exists_digits_of_positional hn
  refine ⟨⟨decide (sign = .minus), ds⟩, ?_, ?_, ?_⟩
  · rw [Numeral.ofChars?, splitSign_chars_append sign (exists_positional_iff.mp ⟨n, hn⟩)]
    dsimp only
    rw [Numeral.digits?_eq_some_iff.mpr ⟨hne, hds⟩, Option.map_some]
  · have hlength := congrArg List.length hds
    rwa [List.length_map, List.length_map, eq_comm] at hlength
  · rw [Numeral.value, Numeral.natOfDigits, hfold, Nat.zero_mul, Nat.zero_add]
    cases sign <;> rfl

/-- Digits may be exchanged for others of the same worth, and zeros put in front of them. -/
theorem Signed.respell {sign : Sign} (h : Signed cs sign digits n) {zeros digits' : List CodePoint}
    (hzeros : ∀ c ∈ zeros, DigitWorth c 0) (hsame : List.Forall₂ SameWorth digits digits') :
    Signed (sign.chars ++ (zeros ++ digits')) sign (zeros ++ digits') n := by
  refine ⟨rfl, fun hnil => h.nonempty ?_, (h.value.of_sameWorth hsame).of_zeros hzeros⟩
  have hlength := hsame.length_eq
  rw [(List.append_eq_nil_iff.mp hnil).2, List.length_nil] at hlength
  exact List.eq_nil_of_length_eq_zero hlength

end MiniLisp.Text
