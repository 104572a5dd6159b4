/-
  MiniLisp.Proofs.Reader.Integers

  Words in token streams. A word that is a numeral stands for the integer that its
  digits have for their value in their places (`ofWord_of_signed`), up to the limit
  on digits, and every other word for the symbol of that name. Recognizing numerals
  and computing their values are separate parts of the reader, so both have to agree
  with the one description of a numeral, `Text.Signed`.
-/
import MiniLisp.Proofs.Reader.Steps
import MiniLisp.Proofs.Text.Positional

namespace MiniLisp

open Text (DigitWorth SameWorth Sign Signed maxDigits)

variable {text : Text} {sign : Sign} {digits : List CodePoint} {n : Nat}

/-! ## Words -/

namespace Datum

theorem ofWord_of_signed (h : Signed text.toList sign digits n) :
    ofWord text = if digits.length ≤ maxDigits then .ok (.int (sign.apply n))
      else .error (.longNumeral digits.length) := by
  obtain ⟨m, hm, hlength, hvalue⟩ := h.exists_ofChars?
  rw [ofWord, hm]
  dsimp only
  rw [hlength, hvalue]
  by_cases hfits : digits.length ≤ maxDigits
  · rw [if_pos hfits, if_neg (Nat.not_lt.mpr hfits)]
  · rw [if_neg hfits, if_pos (Nat.lt_of_not_le hfits)]

theorem ofWord_symbol {x : Symbol} (h : ¬Text.IsNumeral x.name.toList) :
    ofWord x.name = .ok (.sym x) := by
  rw [ofWord, Text.Numeral.ofChars?_eq_none_iff.mpr h]

theorem ofWord_of_not_signed (h : ¬∃ sign digits n, Signed text.toList sign digits n) :
    ofWord text = .ok (.sym ⟨text⟩) :=
  ofWord_symbol (Text.isNumeral_iff.not.mpr h)

/-- A word is a numeral within the limit, a numeral beyond it, or no numeral. -/
theorem word_cases (text : Text) :
    (∃ sign digits n, Signed text.toList sign digits n ∧ digits.length ≤ maxDigits ∧
      ofWord text = .ok (.int (sign.apply n))) ∨
    (∃ sign digits n, Signed text.toList sign digits n ∧ maxDigits < digits.length ∧
      ofWord text = .error (.longNumeral digits.length)) ∨
    ((¬∃ sign digits n, Signed text.toList sign digits n) ∧ ofWord text = .ok (.sym ⟨text⟩)) := by
  by_cases hsigned : ∃ sign digits n, Signed text.toList sign digits n
  · obtain ⟨sign, digits, n, h⟩ := hsigned
    have hword := ofWord_of_signed h
    by_cases hfits : digits.length ≤ maxDigits
    · exact .inl ⟨sign, digits, n, h, hfits, hword.trans (if_pos hfits)⟩
    · exact .inr (.inl ⟨sign, digits, n, h, Nat.lt_of_not_le hfits, hword.trans (if_neg hfits)⟩)
  · exact .inr (.inr ⟨hsigned, ofWord_of_not_signed hsigned⟩)

theorem ofWord_eq_int_iff {k : Int} :
    ofWord text = .ok (.int k) ↔
      ∃ sign digits n, Signed text.toList sign digits n ∧ digits.length ≤ maxDigits ∧
        k = sign.apply n := by
  constructor
  · intro hk
    obtain ⟨sign, digits, n, h, hfits, hword⟩ | ⟨_, _, _, _, _, hword⟩ | ⟨_, hword⟩ :=
      word_cases text
    · cases hk.symm.trans hword
      exact ⟨sign, digits, n, h, hfits, rfl⟩
    · cases hk.symm.trans hword
    · cases hk.symm.trans hword
  · rintro ⟨sign, digits, n, h, hfits, rfl⟩
    exact (ofWord_of_signed h).trans (if_pos hfits)

theorem ofWord_eq_error_iff {fault : Fault} :
    ofWord text = .error fault ↔
      ∃ sign digits n, Signed text.toList sign digits n ∧ maxDigits < digits.length ∧
        fault = .longNumeral digits.length := by
  constructor
  · intro hfault
    obtain ⟨_, _, _, _, _, hword⟩ | ⟨sign, digits, n, h, hlong, hword⟩ | ⟨_, hword⟩ :=
      word_cases text
    · cases hfault.symm.trans hword
    · cases hfault.symm.trans hword
      exact ⟨sign, digits, n, h, hlong, rfl⟩
    · cases hfault.symm.trans hword
  · rintro ⟨sign, digits, n, h, hlong, rfl⟩
    exact (ofWord_of_signed h).trans (if_neg (Nat.not_le.mpr hlong))

theorem ofWord_eq_sym_iff {x : Symbol} :
    ofWord text = .ok (.sym x) ↔
      (¬∃ sign digits n, Signed text.toList sign digits n) ∧ x = ⟨text⟩ := by
  constructor
  · intro hx
    obtain ⟨_, _, _, _, _, hword⟩ | ⟨_, _, _, _, _, hword⟩ | ⟨hsigned, hword⟩ := word_cases text
    · cases hx.symm.trans hword
    · cases hx.symm.trans hword
    · cases hx.symm.trans hword
      exact ⟨hsigned, rfl⟩
  · rintro ⟨hsigned, rfl⟩
    exact ofWord_of_not_signed hsigned

end Datum

/-! ## Streams whose next token is a word -/

namespace TokenStream

section

variable [Host] {s s' : TokenStream}

theorem next_eq_ok_iff_of_word (depth : Nat) (h : advance s = .ok (some ⟨.word, text⟩) s')
    {d : Datum} : next (depth + 1) s = .ok (some d) s' ↔ Datum.ofWord text = .ok d := by
  rw [next_apply, readDatum_of_word h]
  cases Datum.ofWord text <;> simp

theorem next_eq_error_iff_of_word (depth : Nat) (h : advance s = .ok (some ⟨.word, text⟩) s')
    {fault : Fault} : next (depth + 1) s = .error fault s' ↔ Datum.ofWord text = .error fault := by
  rw [next_apply, readDatum_of_word h]
  cases Datum.ofWord text <;> simp

end

/-- **Numerals of any script have their positional value.** Let the next token of a stream be a
    word. It is read as an integer just if all of it is a sign, or none, and one or more decimal
    digits, of any scripts, that are not too many; the integer is the positional value of the
    digits, with the sign. Just if they are too many, reading fails and says how many they are.
    Just if the word is nothing of the kind, it is read as the symbol of that name.
    So it makes no difference to the integer if digits are exchanged for others that are worth the
    same, or if zeros are put in front of them within the limit. -/
theorem word_has_positional_value [Host] {s s' : TokenStream} (depth : Nat)
    (h : advance s = .ok (some ⟨.word, text⟩) s') :
    (∀ k, next (depth + 1) s = .ok (some (.int k)) s' ↔
      ∃ sign digits n, Signed text.toList sign digits n ∧ digits.length ≤ maxDigits ∧
        k = sign.apply n) ∧
    (∀ fault, next (depth + 1) s = .error fault s' ↔
      ∃ sign digits n, Signed text.toList sign digits n ∧ maxDigits < digits.length ∧
        fault = .longNumeral digits.length) ∧
    (∀ x, next (depth + 1) s = .ok (some (.sym x)) s' ↔
      (¬∃ sign digits n, Signed text.toList sign digits n) ∧ x = ⟨text⟩) ∧
    ∀ {sign digits n zeros digits'} {t t' : TokenStream}, Signed text.toList sign digits n →
      (∀ c ∈ zeros, DigitWorth c 0) → List.Forall₂ SameWorth digits digits' →
      zeros.length + digits.length ≤ maxDigits →
      advance t = .ok (some ⟨.word, Text.ofList (sign.chars ++ (zeros ++ digits'))⟩) t' →
      ∃ k, next (depth + 1) s = .ok (some (.int k)) s' ∧
        next (depth + 1) t = .ok (some (.int k)) t' := by
  refine ⟨fun k => ?_, fun fault => ?_, fun x => ?_, ?_⟩
  · rw [next_eq_ok_iff_of_word depth h, Datum.ofWord_eq_int_iff]
  · rw [next_eq_error_iff_of_word depth h, Datum.ofWord_eq_error_iff]
  · rw [next_eq_ok_iff_of_word depth h, Datum.ofWord_eq_sym_iff]
  · intro sign digits n zeros digits' t t' hsigned hzeros hsame hfits ht
    have hlength : (zeros ++ digits').length = zeros.length + digits.length := by
      rw [List.length_append, hsame.length_eq]
    have hrespelled := hsigned.respell hzeros hsame
    rw [← Text.toList_ofList (sign.chars ++ (zeros ++ digits'))] at hrespelled
    refine ⟨sign.apply n, ?_, ?_⟩
    · rw [next_eq_ok_iff_of_word depth h, Datum.ofWord_eq_int_iff]
      exact ⟨sign, digits, n, hsigned, by omega, rfl⟩
    · rw [next_eq_ok_iff_of_word depth ht, Datum.ofWord_eq_int_iff]
      exact ⟨sign, zeros ++ digits', n, hrespelled, by omega, rfl⟩

/-- An integer in digits of two scripts, the same integer in digits of two others behind zeros of
    two more, one zero too many, and digits with a line break behind them. -/
theorem word_has_positional_value_mixed :
    letI := Host.bare
    let stream (words : List Text) := ofTokens (words.map fun text => ⟨.word, text⟩)
    advance (stream ["-٤२", "x"]) = .ok (some ⟨.word, "-٤२"⟩) (stream ["x"]) ∧
      Signed (Text.ofString "-٤२").toList .minus [.char '٤', .char '२'] 42 ∧
      next 1 (stream ["-٤२", "x"]) = .ok (some (.int (-42))) (stream ["x"]) ∧
      next 1 (stream ["-᠐𝟎４𝟚"]) = .ok (some (.int (-42))) (stream []) ∧
      next 1 (stream [Text.ofList (List.replicate 4301 (.char '᠐'))]) =
        .error (.longNumeral 4301) (stream []) ∧
      next 1 (stream ["٤२\n"]) = .ok (some (.sym ⟨"٤२\n"⟩)) (stream []) := by
  let _ := Host.bare
  intro stream
  have hadvance (text : Text) (rest : List Text) :
      advance (stream (text :: rest)) = .ok (some ⟨.word, text⟩) (stream rest) := rfl
  have hsigned : Signed (Text.ofString "-٤२").toList .minus [.char '٤', .char '२'] 42 :=
    ⟨by decide, by decide, .cons (d := 4) (by decide) (.cons (d := 2) (by decide) .nil)⟩
  obtain ⟨hint, -, -, hsame⟩ := word_has_positional_value 0 (hadvance "-٤२" ["x"])
  have hread := (hint (-42)).mpr ⟨.minus, _, 42, hsigned, by decide, rfl⟩
  have hrespelled : next 1 (stream ["-᠐𝟎４𝟚"]) = .ok (some (.int (-42))) (stream []) := by
    have hzeros : ∀ c ∈ [CodePoint.char '᠐', .char '𝟎'], DigitWorth c 0 :=
      List.forall_mem_cons.mpr ⟨by decide, List.forall_mem_singleton.mpr (by decide)⟩
    have hdigits : List.Forall₂ SameWorth [.char '٤', .char '२'] [.char '４', .char '𝟚'] :=
      .cons ⟨4, by decide, by decide⟩ (.cons ⟨2, by decide, by decide⟩ .nil)
    have htext : Text.ofList (Sign.minus.chars ++ ([.char '᠐', .char '𝟎'] ++
        [.char '４', .char '𝟚'])) = "-᠐𝟎４𝟚" := by
      decide
    obtain ⟨k, hk, hk'⟩ := hsame hsigned hzeros hdigits (by decide) (hadvance _ [])
    cases hread.symm.trans hk
    rwa [htext] at hk'
  have hlong (k : Nat) (hk : maxDigits < k) :
      next 1 (stream [Text.ofList (List.replicate k (CodePoint.char '᠐'))]) =
        .error (.longNumeral k) (stream []) := by
    have hzeros : Text.Positional (List.replicate k (CodePoint.char '᠐')) 0 := by
      rw [← List.append_nil (List.replicate k (CodePoint.char '᠐'))]
      refine Text.Positional.nil.of_zeros fun c hc => ?_
      rw [List.eq_of_mem_replicate hc]
      decide
    have hlength : (List.replicate k (CodePoint.char '᠐')).length = k := List.length_replicate
    have hne : List.replicate k (CodePoint.char '᠐') ≠ [] := List.ne_nil_of_length_pos (by omega)
    exact ((word_has_positional_value 0 (hadvance _ [])).2.1 _).mpr
      ⟨.absent, _, 0, ⟨Text.toList_ofList _, hne, hzeros⟩, by omega, by rw [hlength]⟩
  have hsymbol : ¬∃ sign digits n, Signed (Text.ofString "٤२\n").toList sign digits n :=
    Text.isNumeral_iff.not.mp (Text.Numeral.ofChars?_eq_none_iff.mp (by decide))
  exact ⟨hadvance _ _, hsigned, hread, hrespelled, hlong 4301 (by decide),
    ((word_has_positional_value 0 (hadvance _ [])).2.2.1 _).mpr ⟨hsymbol, rfl⟩⟩

end TokenStream

end MiniLisp
