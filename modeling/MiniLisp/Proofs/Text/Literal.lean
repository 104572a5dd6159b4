/-
  MiniLisp.Proofs.Text.Literal

  The ways to write a character in a string literal, and what the decoder makes
  of them.

  `SpelledBy c cs` lists the ways, without regard to the decoder: the character
  itself, unless it is a surrogate, a short escape, two, four or eight
  hexadecimal digits in either case, or three octal digits. Three stages handle
  a literal one after the other, and each of them keeps the spellings apart: no
  spelling closes the literal (`SpelledBy.enclosed`), spelling out its line
  breaks leaves an escape as it is and makes one of a raw line break
  (`SpelledBy.spellBreaks_cases`), and the decoder takes the outcome for the one
  character (`SpelledBy.taken`). So a literal is decoded to the characters that
  it spells, whatever mixture of spellings it holds (`decode_of_spelledBy`).
-/
import MiniLisp.Proofs.Text.Spelling

namespace MiniLisp.Text

open Literal (shortEscape? hexEscape? hexValue? octalValue? leadingDigits ofDigits escape
  decodeFrom decode spellBreaks)

/-! ## Ways to write a character -/

/-- The escapes of a backslash and one letter or mark, with what each stands for. -/
def shortEscapes : List (CodePoint × CodePoint) :=
  [('\\', '\\'), ('\x27', '\x27'), ('\x22', '\x22'), ('a', '\x07'), ('b', '\x08'), ('f', '\x0c'),
   ('n', '\n'), ('r', '\r'), ('t', '\t'), ('v', '\x0b')]

/-- The small letter of a capital of ASCII; anything else is left as it is. -/
def lower : CodePoint → CodePoint
  | .char c => .char c.toLower
  | .surrogate n => .surrogate n

/-- The text holds the lowest `width` hexadecimal digits of `n`, each in either case. -/
def IsHex (width n : Nat) (digits : List CodePoint) : Prop :=
  digits.map lower = hexDigits width n

/-- The three octal digits of a number below 512. -/
def octalDigits (n : Nat) : List CodePoint :=
  [hexDigit (n / 64), hexDigit (n / 8 % 8), hexDigit (n % 8)]

/-- The ways to write a character in a string. -/
inductive SpelledBy : CodePoint → List CodePoint → Prop
  /-- The character itself, also a line break. -/
  | itself {c : CodePoint} (hsurrogate : c.isSurrogate = false) (hquote : c ≠ '\x22')
      (hbackslash : c ≠ '\\') (hnul : c ≠ '\x00') : SpelledBy c [c]
  /-- A backslash and a letter or mark. -/
  | short {c e : CodePoint} (h : (e, c) ∈ shortEscapes) : SpelledBy c [.char '\\', e]
  /-- `\x` and two hexadecimal digits. -/
  | byte {c : CodePoint} {digits : List CodePoint} (hc : c.toNat ≤ 0xff)
      (h : IsHex 2 c.toNat digits) :
      SpelledBy c (.char '\\' :: .char 'x' :: digits)
  /-- A backslash and three octal digits. -/
  | octal {c : CodePoint} (hc : c.toNat ≤ 0x1ff) : SpelledBy c (.char '\\' :: octalDigits c.toNat)
  /-- `\u` and four hexadecimal digits. -/
  | unit {c : CodePoint} {digits : List CodePoint} (hc : c.toNat ≤ 0xffff)
      (h : IsHex 4 c.toNat digits) :
      SpelledBy c (.char '\\' :: .char 'u' :: digits)
  /-- `\U` and eight hexadecimal digits. -/
  | scalar {c : CodePoint} {digits : List CodePoint} (h : IsHex 8 c.toNat digits) :
      SpelledBy c (.char '\\' :: .char 'U' :: digits)

/-! ## Digits -/

/-- The case of a letter does not matter for its value as a digit. -/
theorem hexValue?_lower (c : CodePoint) : hexValue? (lower c) = hexValue? c := by
  cases c with
  | surrogate n => rfl
  | char c =>
    by_cases hc : 65 ≤ c.toNat ∧ c.toNat ≤ 90
    · have hletters : ∀ k : Fin 26, hexValue? (lower (.char (Char.ofNat (65 + k)))) =
          hexValue? (.char (Char.ofNat (65 + k))) := by decide
      have hletter := hletters ⟨c.toNat - 65, by omega⟩
      rwa [show 65 + (c.toNat - 65) = c.toNat by omega, Char.ofNat_toNat] at hletter
    · have hsame : c.toLower = c := dif_neg fun h => hc h
      rw [lower, hsame]

/-- A character that is no quote mark and no backslash, not U+0000 and no line break: no stage of
    the decoding looks out for it. -/
def isPlain (c : CodePoint) : Bool :=
  c ≠ '\x22' ∧ c ≠ '\\' ∧ c.isSurrogate = false ∧ c ≠ '\x00' ∧ c ≠ '\n' ∧ c ≠ '\r'

theorem isPlain_iff {c : CodePoint} : isPlain c = true ↔
    c ≠ '\x22' ∧ c ≠ '\\' ∧ c.isSurrogate = false ∧ c ≠ '\x00' ∧ c ≠ '\n' ∧ c ≠ '\r' :=
  decide_eq_true_iff

theorem isPlain_hexDigit (n : Fin 16) : isPlain (hexDigit n) = true := by
  revert n
  decide

namespace IsHex

variable {width n : Nat} {digits : List CodePoint}

theorem length_eq (h : IsHex width n digits) : digits.length = width := by
  rw [← length_hexDigits width n, ← h, List.length_map]

theorem exists_values (h : IsHex width n digits) :
    ∃ values, digits.map hexValue? = values.map some ∧ ofDigits 16 values = n % 16 ^ width := by
  obtain ⟨values, hvalues, hvalue⟩ := exists_values_hexDigits width n
  refine ⟨values, ?_, hvalue⟩
  rw [← hvalues, ← h, List.map_map]
  exact List.map_congr_left fun c _ => (hexValue?_lower c).symm

theorem isPlain (h : IsHex width n digits) : ∀ c ∈ digits, Text.isPlain c = true := by
  intro c hc
  have hmem : lower c ∈ hexDigits width n := h ▸ List.mem_map_of_mem hc
  obtain ⟨d, hd⟩ := exists_of_mem_hexDigits hmem
  have hplain := isPlain_hexDigit d
  rw [← hd] at hplain
  -- What is not plain has no other case, so in lower case it would not be plain.
  by_contra hmark
  simp only [isPlain_iff, ne_eq, not_and_or, not_not, Bool.not_eq_false] at hmark
  obtain rfl | rfl | hsurrogate | rfl | rfl | rfl := hmark
  case inr.inr.inl =>
    cases c with
    | char c => cases hsurrogate
    | surrogate n => cases (isPlain_iff.mp hplain).2.2.1
  all_goals exact absurd hplain (by decide)

/-- Enough hexadecimal digits of a character's number are a spelling of it. -/
theorem spelling {c letter : CodePoint} {short : EscapeFault} (h : IsHex width c.toNat digits)
    (hletter : hexEscape? letter = some (width, short)) (hc : c.toNat < 16 ^ width) :
    Spelling c (.char '\\' :: letter :: digits) := by
  obtain ⟨values, hvalues, hvalue⟩ := h.exists_values
  rw [Nat.mod_eq_of_lt hc] at hvalue
  rw [← h.length_eq] at hletter
  exact .hex hletter hvalues hvalue

end IsHex

/-- An octal digit has its own value and starts no other escape. -/
theorem octalDigit_facts (n : Fin 8) :
    octalValue? (hexDigit n) = some n.val ∧ shortEscape? (hexDigit n) = none ∧
      hexEscape? (hexDigit n) = none := by
  revert n
  decide

/-- An octal escape is decoded to the character of its value. -/
theorem escape_octal {c : CodePoint} (hc : c.toNat ≤ 0x1ff) (named? : Text → Option Char)
    (column : Nat) (rest : List CodePoint) :
    escape named? column (hexDigit (c.toNat / 64))
        ([hexDigit (c.toNat / 8 % 8), hexDigit (c.toNat % 8)] ++ rest) = .ok ([c], 3, 4) := by
  obtain ⟨hfirst, hshort, hhex⟩ := octalDigit_facts ⟨c.toNat / 64, by omega⟩
  obtain ⟨hsecond, -, -⟩ := octalDigit_facts ⟨c.toNat / 8 % 8, by omega⟩
  obtain ⟨hthird, -, -⟩ := octalDigit_facts ⟨c.toNat % 8, by omega⟩
  have hdigits : (octalDigits c.toNat).map octalValue? =
      [c.toNat / 64, c.toNat / 8 % 8, c.toNat % 8].map some := by
    rw [octalDigits, List.map_cons, List.map_cons, List.map_singleton, hfirst, hsecond, hthird]
    rfl
  have hleading : leadingDigits octalValue? 3 (hexDigit (c.toNat / 64) ::
      ([hexDigit (c.toNat / 8 % 8), hexDigit (c.toNat % 8)] ++ rest)) =
        [c.toNat / 64, c.toNat / 8 % 8, c.toNat % 8] := leadingDigits_append hdigits rest
  have hvalue : ofDigits 8 [c.toNat / 64, c.toNat / 8 % 8, c.toNat % 8] = c.toNat := by
    show 8 * (8 * (8 * 0 + c.toNat / 64) + c.toNat / 8 % 8) + c.toNat % 8 = c.toNat
    omega
  unfold escape
  rw [hshort, hhex, hfirst]
  dsimp only
  rw [hleading, hvalue, CodePoint.ofNat_toNat]
  rfl

/-! ## What each stage makes of a spelling -/

theorem shortEscape?_of_mem {c e : CodePoint} (h : (e, c) ∈ shortEscapes) :
    shortEscape? e = some c ∧ e.isSurrogate = false ∧ e ≠ '\x00' ∧ e ≠ '\n' ∧ e ≠ '\r' := by
  have hall : shortEscapes.all (fun p => shortEscape? p.1 = some p.2 ∧
      p.1.isSurrogate = false ∧ p.1 ≠ '\x00' ∧ p.1 ≠ '\n' ∧ p.1 ≠ '\r') = true := by decide
  exact of_decide_eq_true (List.all_eq_true.mp hall (e, c) h)

theorem spellBreaks_of_forall {cs : List CodePoint} (h : ∀ c ∈ cs, c ≠ '\n' ∧ c ≠ '\r') :
    spellBreaks cs = cs := by
  induction cs with
  | nil => rfl
  | cons c cs ih =>
    obtain ⟨⟨hline, hreturn⟩, hcs⟩ := List.forall_mem_cons.mp h
    rw [spellBreaks, List.flatMap_cons, if_neg hline, if_neg hreturn, List.singleton_append]
    exact congrArg (c :: ·) (ih hcs)

namespace SpelledBy

variable {c : CodePoint} {cs : List CodePoint}

/-- A spelling is the character itself, or a backslash and a character behind which only plain ones
    follow. -/
theorem shape (h : SpelledBy c cs) :
    (cs = [c] ∧ c ≠ '\\' ∧ c ≠ '\x22' ∧ c.isSurrogate = false ∧ c ≠ '\x00') ∨
    ∃ e digits, cs = .char '\\' :: e :: digits ∧
      (e.isSurrogate = false ∧ e ≠ '\x00' ∧ e ≠ '\n' ∧ e ≠ '\r') ∧
        ∀ d ∈ digits, isPlain d = true := by
  cases h with
  | itself hsurrogate hquote hbackslash hnul =>
    exact .inl ⟨rfl, hbackslash, hquote, hsurrogate, hnul⟩
  | @short e h =>
    exact .inr ⟨e, [], rfl, (shortEscape?_of_mem h).2, fun d hd => absurd hd List.not_mem_nil⟩
  | @byte digits _ h => exact .inr ⟨'x', digits, rfl, by decide, h.isPlain⟩
  | octal hc =>
    have hdigit (n : Nat) (hn : n < 16) : isPlain (hexDigit n) = true := isPlain_hexDigit ⟨n, hn⟩
    refine .inr ⟨_, _, rfl, ?_, ?_⟩
    · obtain ⟨-, -, hfirst⟩ := isPlain_iff.mp (hdigit (c.toNat / 64) (by omega))
      exact hfirst
    · exact List.forall_mem_cons.mpr ⟨hdigit _ (by omega),
        List.forall_mem_singleton.mpr (hdigit _ (by omega))⟩
  | @unit digits _ h => exact .inr ⟨'u', digits, rfl, by decide, h.isPlain⟩
  | @scalar digits h => exact .inr ⟨'U', digits, rfl, by decide, h.isPlain⟩

/-- No spelling closes the literal that it stands in. -/
theorem enclosed (h : SpelledBy c cs) : Enclosed '\x22' cs := by
  obtain ⟨rfl, hbackslash, hquote, -⟩ | ⟨e, digits, rfl, -, hdigits⟩ := h.shape
  · exact .char hbackslash hquote .nil
  · refine .escape e (.of_forall fun d hd => ?_)
    obtain ⟨hquote, hbackslash, -⟩ := isPlain_iff.mp (hdigits d hd)
    exact ⟨hbackslash, hquote⟩

/-- A spelling holds no surrogate and not U+0000. -/
theorem forall_mem (h : SpelledBy c cs) : ∀ d ∈ cs, d.isSurrogate = false ∧ d ≠ '\x00' := by
  obtain ⟨rfl, -, -, hc⟩ | ⟨e, digits, rfl, he, hdigits⟩ := h.shape
  · exact List.forall_mem_singleton.mpr hc
  · refine List.forall_mem_cons.mpr ⟨by decide, List.forall_mem_cons.mpr ⟨⟨he.1, he.2.1⟩, ?_⟩⟩
    intro d hd
    obtain ⟨-, -, hsurrogate, hnul, -⟩ := isPlain_iff.mp (hdigits d hd)
    exact ⟨hsurrogate, hnul⟩

/-- Spelling out line breaks makes the short escape of a raw line break, and leaves any other
    spelling as it is. -/
theorem spellBreaks_cases (h : SpelledBy c cs) :
    spellBreaks cs = cs ∨ ∃ e, (e, c) ∈ shortEscapes ∧ spellBreaks cs = [.char '\\', e] := by
  obtain ⟨rfl, -, -, -⟩ | ⟨e, digits, rfl, ⟨-, -, hline, hreturn⟩, hdigits⟩ := h.shape
  · by_cases hline : c = '\n'
    · subst hline
      exact .inr ⟨'n', by decide, rfl⟩
    · by_cases hreturn : c = '\r'
      · subst hreturn
        exact .inr ⟨'r', by decide, rfl⟩
      · exact .inl (spellBreaks_of_forall (List.forall_mem_singleton.mpr ⟨hline, hreturn⟩))
  · refine .inl (spellBreaks_of_forall (List.forall_mem_cons.mpr ⟨by decide,
      List.forall_mem_cons.mpr ⟨⟨hline, hreturn⟩, fun d hd => ?_⟩⟩))
    obtain ⟨-, -, -, -, hbreaks⟩ := isPlain_iff.mp (hdigits d hd)
    exact hbreaks

/-- The decoder takes a spelling for its character. -/
theorem taken (h : SpelledBy c cs) : Taken c cs := by
  cases h with
  | itself _ _ hbackslash _ => exact (Spelling.raw hbackslash).taken
  | short h => exact (Spelling.short (shortEscape?_of_mem h).1).taken
  | byte hc h => exact (h.spelling rfl (Nat.lt_succ_of_le hc)).taken
  | unit hc h => exact (h.spelling rfl (Nat.lt_succ_of_le hc)).taken
  | scalar h =>
    have hlt := c.toNat_lt
    exact (h.spelling rfl (by omega)).taken
  | octal hc =>
    intro named? column done rest
    refine ⟨column + 4, ?_⟩
    rw [octalDigits, List.cons_append, List.cons_append, decodeFrom,
      escape_octal hc named? column rest]
    rfl

/-- The decoder takes a spelling for its character also when its line breaks are spelled out. -/
theorem taken_spellBreaks (h : SpelledBy c cs) : Taken c (spellBreaks cs) := by
  obtain hkept | ⟨e, he, hbreak⟩ := h.spellBreaks_cases
  · rw [hkept]
    exact h.taken
  · rw [hbreak]
    exact (Spelling.short (shortEscape?_of_mem he).1).taken

end SpelledBy

/-! ## Whole literals -/

variable {cs : List CodePoint} {parts : List (List CodePoint)}

theorem enclosed_of_spelledBy (h : List.Forall₂ SpelledBy cs parts) :
    Enclosed '\x22' parts.flatten := by
  induction h with
  | nil => exact .nil
  | cons hpart _ ih =>
    rw [List.flatten_cons]
    exact hpart.enclosed.append ih

theorem forall_mem_of_spelledBy (h : List.Forall₂ SpelledBy cs parts) :
    ∀ d ∈ parts.flatten, d.isSurrogate = false ∧ d ≠ '\x00' := by
  induction h with
  | nil => exact fun d hd => absurd hd List.not_mem_nil
  | cons hpart _ ih =>
    rw [List.flatten_cons]
    exact List.forall_mem_append.mpr ⟨hpart.forall_mem, ih⟩

/-- Spelling out line breaks brings no surrogate into a text. -/
theorem encodeFault?_spellBreaks (h : ∀ c ∈ cs, c.isSurrogate = false) :
    encodeFault? (spellBreaks cs) = none := by
  refine encodeFault?_eq_none_iff.mpr fun d hd => ?_
  obtain ⟨c, hc, hd⟩ := List.mem_flatMap.mp hd
  have hescape (e : Char) : ∀ d ∈ [CodePoint.char '\\', .char e], d.isSurrogate = false :=
    List.forall_mem_cons.mpr ⟨rfl, List.forall_mem_singleton.mpr rfl⟩
  split at hd
  · exact hescape 'n' d hd
  · split at hd
    · exact hescape 'r' d hd
    · rw [List.mem_singleton.mp hd]
      exact h c hc

/-- Spelling out line breaks keeps the surrogates of a text, so a literal that holds one is
    refused. -/
theorem decode_of_mem_of_isSurrogate {c : CodePoint} (hc : c ∈ cs) (h : c.isSurrogate = true)
    (named? : Text → Option Char) :
    ∃ fault, decode named? cs = .error (.holdsSurrogates fault) := by
  have hmem : c ∈ spellBreaks cs := by
    refine List.mem_flatMap.mpr ⟨c, hc, ?_⟩
    cases c with
    | char _ => cases h
    | surrogate _ => exact List.mem_singleton.mpr rfl
  cases hfault : encodeFault? (spellBreaks cs) with
  | none =>
    rw [encodeFault?_eq_none_iff.mp hfault c hmem] at h
    cases h
  | some fault =>
    refine ⟨fault, ?_⟩
    rw [decode, hfault]

/-- A literal is decoded to the characters that it spells. -/
theorem decode_of_spelledBy (h : List.Forall₂ SpelledBy cs parts) (named? : Text → Option Char) :
    decode named? (.char '\x22' :: (parts.flatten ++ [.char '\x22'])) = .ok cs := by
  have hmem : ∀ d ∈ CodePoint.char '\x22' :: (parts.flatten ++ [.char '\x22']),
      d.isSurrogate = false ∧ d ≠ '\x00' :=
    List.forall_mem_cons.mpr ⟨by decide, List.forall_mem_append.mpr
      ⟨forall_mem_of_spelledBy h, List.forall_mem_singleton.mpr (by decide)⟩⟩
  have hencodes := encodeFault?_spellBreaks fun d hd => (hmem d hd).1
  have hnul : CodePoint.char '\x00' ∉ .char '\x22' :: (parts.flatten ++ [.char '\x22']) :=
    fun h => (hmem _ h).2 rfl
  have hbreaks : spellBreaks parts.flatten = (parts.map spellBreaks).flatten := by
    rw [spellBreaks, ← List.flatMap_id, List.flatMap_assoc, List.flatMap_def]
    rfl
  have htaken : List.Forall₂ Taken cs (parts.map spellBreaks) :=
    List.forall₂_map_right_iff.mpr (h.imp fun _ _ hpart => hpart.taken_spellBreaks)
  rw [decode, hencodes]
  dsimp only
  rw [List.contains_eq_mem, if_neg (by simpa using hnul), List.drop_one, List.tail_cons,
    List.dropLast_concat, hbreaks, decodeFrom_flatten htaken]
  rfl

end MiniLisp.Text
