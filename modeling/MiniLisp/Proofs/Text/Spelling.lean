/-
  MiniLisp.Proofs.Text.Spelling

  How characters are spelled between quote marks, and that spellings can be
  taken apart again.

  `Enclosed quote cs` says that a quote mark behind `cs` is the first one that
  no backslash escapes, so that the end of a quoted text is where it seems to be
  (`Enclosed.eq_of_append_eq`). `Spelling c cs` says that the literal decoder
  takes `cs` for the character `c`, wherever it stands (`Spelling.taken`); a text
  of parts that are taken for characters is decoded to the characters
  (`decodeFrom_flatten`).

  Both hold of the texts that `quoted` writes, which can therefore be told from
  whatever follows them (`quotedChars_unambiguous`).
-/
import MiniLisp.Text.Literal
import MiniLisp.Text.Quoted
import Mathlib.Algebra.Group.Nat.Defs
import Mathlib.Data.List.Forall2

namespace MiniLisp.Text

/-! ## Where a quoted text ends -/

/-- No quote mark stands in the text unescaped, and no backslash is left at its end. -/
inductive Enclosed (quote : CodePoint) : List CodePoint → Prop
  | nil : Enclosed quote []
  | char {c : CodePoint} {cs : List CodePoint} (hc : c ≠ '\\') (hq : c ≠ quote)
      (h : Enclosed quote cs) :
      Enclosed quote (c :: cs)
  | escape (c : CodePoint) {cs : List CodePoint} (h : Enclosed quote cs) :
      Enclosed quote (.char '\\' :: c :: cs)

namespace Enclosed

variable {quote : CodePoint}

theorem append {cs ds : List CodePoint} (hcs : Enclosed quote cs) (hds : Enclosed quote ds) :
    Enclosed quote (cs ++ ds) := by
  induction hcs with
  | nil => exact hds
  | char hc hq _ ih => exact .char hc hq ih
  | escape c _ ih => exact .escape c ih

theorem flatMap {α : Type} {f : α → List CodePoint} {xs : List α}
    (h : ∀ x ∈ xs, Enclosed quote (f x)) :
    Enclosed quote (xs.flatMap f) := by
  induction xs with
  | nil => exact .nil
  | cons x xs ih =>
    obtain ⟨hx, hxs⟩ := List.forall_mem_cons.mp h
    rw [List.flatMap_cons]
    exact hx.append (ih hxs)

/-- Characters that are neither the quote mark nor a backslash may stand as they are. -/
theorem of_forall {cs : List CodePoint} (h : ∀ c ∈ cs, c ≠ '\\' ∧ c ≠ quote) :
    Enclosed quote cs := by
  induction cs with
  | nil => exact .nil
  | cons c cs ih =>
    obtain ⟨hc, hcs⟩ := List.forall_mem_cons.mp h
    exact .char hc.1 hc.2 (ih hcs)

/-- The first quote mark that is not escaped ends the text, whatever stands behind it. -/
theorem eq_of_append_eq (hquote : quote ≠ '\\') {cs ds r s : List CodePoint}
    (hcs : Enclosed quote cs)
    (hds : Enclosed quote ds) (h : cs ++ quote :: r = ds ++ quote :: s) : cs = ds ∧ r = s := by
  induction hcs generalizing ds with
  | nil =>
    cases hds with
    | nil => exact ⟨rfl, (List.cons.inj h).2⟩
    | char _ hq _ => exact absurd (List.cons.inj h).1.symm hq
    | escape _ _ => exact absurd (List.cons.inj h).1 hquote
  | char hc hq _ ih =>
    cases hds with
    | nil => exact absurd (List.cons.inj h).1 hq
    | char _ _ hds =>
      obtain ⟨rfl, htail⟩ := List.cons.inj h
      obtain ⟨rfl, rfl⟩ := ih hds htail
      exact ⟨rfl, rfl⟩
    | escape _ _ => exact absurd (List.cons.inj h).1 hc
  | escape c _ ih =>
    cases hds with
    | nil => exact absurd (List.cons.inj h).1.symm hquote
    | char hc _ _ => exact absurd (List.cons.inj h).1.symm hc
    | escape _ hds =>
      obtain ⟨rfl, htail⟩ := List.cons.inj (List.cons.inj h).2
      obtain ⟨rfl, rfl⟩ := ih hds htail
      exact ⟨rfl, rfl⟩

end Enclosed

/-! ## Spellings of a character -/

open Literal (shortEscape? hexEscape? hexValue? octalValue? leadingDigits ofDigits escape
  decodeFrom)

/-- What the decoder takes for one character. -/
inductive Spelling : CodePoint → List CodePoint → Prop
  /-- The character itself. -/
  | raw {c : CodePoint} (hc : c ≠ '\\') : Spelling c [c]
  /-- A backslash and one letter or mark. -/
  | short {c e : CodePoint} (he : shortEscape? e = some c) : Spelling c [.char '\\', e]
  /-- A backslash, a letter that asks for some number of hexadecimal digits, and these. -/
  | hex {c letter : CodePoint} {short : EscapeFault} {digits : List CodePoint} {values : List Nat}
      (hletter : hexEscape? letter = some (digits.length, short))
      (hdigits : digits.map hexValue? = values.map some)
      (hvalue : ofDigits 16 values = c.toNat) : Spelling c (.char '\\' :: letter :: digits)

theorem leadingDigits_append {digit? : CodePoint → Option Nat} {digits : List CodePoint}
    {values : List Nat}
    (h : digits.map digit? = values.map some) (rest : List CodePoint) :
    leadingDigits digit? digits.length (digits ++ rest) = values := by
  induction digits generalizing values with
  | nil =>
    cases values with
    | nil => rfl
    | cons _ _ => cases h
  | cons c digits ih =>
    cases values with
    | nil => cases h
    | cons d values =>
      obtain ⟨hc, h⟩ := List.cons.inj h
      rw [List.length_cons, List.cons_append, leadingDigits, hc]
      show d :: _ = _
      rw [ih h]

/-- A hexadecimal escape is decoded to the character of its value. -/
theorem escape_hex {c letter : CodePoint} {short : EscapeFault} {digits : List CodePoint}
    {values : List Nat}
    (hletter : hexEscape? letter = some (digits.length, short))
    (hdigits : digits.map hexValue? = values.map some) (hvalue : ofDigits 16 values = c.toNat)
    (named? : Text → Option Char) (column : Nat) (rest : List CodePoint) :
    escape named? column letter (digits ++ rest) =
      .ok ([c], 1 + digits.length, 2 + digits.length) := by
  have hshort : shortEscape? letter = none := by
    unfold hexEscape? at hletter
    split at hletter <;> first | rfl | cases hletter
  have hlength : values.length = digits.length := by
    have := congrArg List.length hdigits
    simpa using this.symm
  have hle := Nat.le_of_lt_succ c.toNat_lt
  unfold escape
  rw [hshort, hletter]
  simp only [leadingDigits_append hdigits rest, hvalue, hlength]
  rw [if_neg (Nat.lt_irrefl _), if_neg (Nat.not_lt.mpr hle), CodePoint.ofNat_toNat]

/-- The decoder takes the characters for the character `c`, wherever they stand and whatever names
    there are, and goes on behind them. -/
def Taken (c : CodePoint) (cs : List CodePoint) : Prop :=
  ∀ named? column done rest, ∃ column',
    decodeFrom named? column done (cs ++ rest) = decodeFrom named? column' (c :: done) rest

/-- The decoder takes a spelling for its character. -/
theorem Spelling.taken {c : CodePoint} {cs : List CodePoint} (h : Spelling c cs) : Taken c cs := by
  intro named? column done rest
  cases h with
  | raw hc =>
    refine ⟨column + if Literal.isAscii c then 1 else 10, ?_⟩
    rw [List.singleton_append, decodeFrom]
    intro e rest' h
    exact absurd h hc
  | @short e he =>
    have hstep : escape named? column e rest = .ok ([c], 1, 2) := by
      unfold escape
      rw [he]
    refine ⟨column + 2, ?_⟩
    rw [List.cons_append, List.singleton_append, decodeFrom, hstep]
    rfl
  | @hex letter _ digits _ hletter hdigits hvalue =>
    refine ⟨column + (2 + digits.length), ?_⟩
    rw [List.cons_append, List.cons_append, decodeFrom,
      escape_hex hletter hdigits hvalue named? column rest]
    show decodeFrom _ _ _ (List.drop (1 + digits.length - 1) _) = _
    rw [Nat.add_sub_cancel_left, List.drop_left]
    rfl

/-- A text in which each part is taken for a character is decoded to the characters. -/
theorem decodeFrom_flatten {cs : List CodePoint} {parts : List (List CodePoint)}
    (h : List.Forall₂ Taken cs parts) (named? : Text → Option Char) (column : Nat)
    (done : List CodePoint) :
    decodeFrom named? column done parts.flatten = .ok (done.reverse ++ cs) := by
  induction h generalizing column done with
  | nil => rw [List.flatten_nil, decodeFrom, List.append_nil]
  | @cons c part cs parts hpart _ ih =>
    obtain ⟨column', hstep⟩ := hpart named? column done parts.flatten
    rw [List.flatten_cons, hstep, ih, List.reverse_cons, List.append_assoc, List.singleton_append]

/-- A text in which each character is spelled is decoded to the characters. -/
theorem decodeFrom_flatMap {spell : CodePoint → List CodePoint} (h : ∀ c, Spelling c (spell c))
    (named? : Text → Option Char) (column : Nat) (done cs : List CodePoint) :
    decodeFrom named? column done (cs.flatMap spell) = .ok (done.reverse ++ cs) := by
  have htaken : List.Forall₂ Taken cs (cs.map spell) :=
    List.forall₂_map_right_iff.mpr (List.forall₂_same.mpr fun c _ => (h c).taken)
  rw [List.flatMap_def]
  exact decodeFrom_flatten htaken named? column done

/-! ## Hexadecimal digits -/

/-- A hexadecimal digit has its own value, and is neither a quote mark nor a backslash. -/
theorem hexDigit_facts (n : Fin 16) :
    hexValue? (hexDigit n) = some n.val ∧ hexDigit n ≠ '\\' ∧ hexDigit n ≠ '\x27' ∧
      hexDigit n ≠ '\x22' := by
  revert n
  decide

theorem length_hexDigits (width n : Nat) : (hexDigits width n).length = width := by
  induction width generalizing n with
  | zero => rfl
  | succ width ih => rw [hexDigits, List.length_append, ih, List.length_singleton]

theorem ofDigits_append_singleton (base : Nat) (digits : List Nat) (d : Nat) :
    ofDigits base (digits ++ [d]) = base * ofDigits base digits + d := by
  rw [ofDigits, ofDigits, List.foldl_append]
  rfl

/-- The digits of a number have the number's lowest part for their value. -/
theorem exists_values_hexDigits (width n : Nat) :
    ∃ values, (hexDigits width n).map hexValue? = values.map some ∧
      ofDigits 16 values = n % 16 ^ width := by
  induction width generalizing n with
  | zero => exact ⟨[], rfl, (Nat.mod_one n).symm⟩
  | succ width ih =>
    obtain ⟨values, hvalues, hvalue⟩ := ih (n / 16)
    have hlast := (hexDigit_facts ⟨n % 16, Nat.mod_lt n (by decide)⟩).1
    refine ⟨values ++ [n % 16], ?_, ?_⟩
    · rw [hexDigits, List.map_append, hvalues, List.map_append, List.map_singleton, hlast]
      rfl
    · rw [ofDigits_append_singleton, hvalue, Nat.pow_succ', Nat.mod_mul, Nat.add_comm]

/-- Every digit of a number is the digit of some number below sixteen. -/
theorem exists_of_mem_hexDigits {width n : Nat} {c : CodePoint} (h : c ∈ hexDigits width n) :
    ∃ d : Fin 16, c = hexDigit d := by
  induction width generalizing n with
  | zero => cases h
  | succ width ih =>
    rw [hexDigits] at h
    rcases List.mem_append.mp h with h | h
    · exact ih h
    · exact ⟨⟨n % 16, Nat.mod_lt n (by decide)⟩, List.mem_singleton.mp h⟩

/-! ## Quoted texts -/

/-- A mark that texts are put between. -/
def IsQuote (c : CodePoint) : Prop := c = '\x27' ∨ c = '\x22'

theorem isQuote_quoteFor (cs : List CodePoint) : IsQuote (quoteFor cs) := by
  unfold quoteFor
  split
  · exact .inr rfl
  · exact .inl rfl

theorem IsQuote.ne_backslash {quote : CodePoint} (h : IsQuote quote) : quote ≠ '\\' := by
  rcases h with rfl | rfl <;> decide

/-- A code point spelled in enough digits is decoded to its character. -/
theorem spelling_hexDigits (c : CodePoint) {letter : CodePoint} {width : Nat} {short : EscapeFault}
    (hletter : hexEscape? letter = some (width, short)) (hwidth : c.toNat < 16 ^ width) :
    Spelling c (.char '\\' :: letter :: hexDigits width c.toNat) := by
  obtain ⟨values, hvalues, hvalue⟩ := exists_values_hexDigits width c.toNat
  rw [Nat.mod_eq_of_lt hwidth] at hvalue
  have hletter' : hexEscape? letter = some ((hexDigits width c.toNat).length, short) := by
    rw [length_hexDigits, hletter]
  exact .hex hletter' hvalues hvalue

theorem spelling_codePointEscape (c : CodePoint) : Spelling c (codePointEscape c.toNat) := by
  have hle := Nat.le_of_lt_succ c.toNat_lt
  unfold codePointEscape
  split
  · rename_i h
    exact spelling_hexDigits c rfl h
  · split
    · rename_i h
      exact spelling_hexDigits c rfl h
    · exact spelling_hexDigits c rfl (Nat.lt_of_le_of_lt hle (by decide))

theorem enclosed_codePointEscape {quote : CodePoint} (hquote : IsQuote quote) (n : Nat) :
    Enclosed quote (codePointEscape n) := by
  have hdigits : ∀ width, Enclosed quote (hexDigits width n) := by
    intro width
    refine .of_forall fun c hc => ?_
    obtain ⟨d, rfl⟩ := exists_of_mem_hexDigits hc
    obtain ⟨-, hbackslash, hsingle, hdouble⟩ := hexDigit_facts d
    rcases hquote with rfl | rfl
    · exact ⟨hbackslash, hsingle⟩
    · exact ⟨hbackslash, hdouble⟩
  unfold codePointEscape
  split
  · exact .escape _ (hdigits 2)
  · split
    · exact .escape _ (hdigits 4)
    · exact .escape _ (hdigits 8)

/-- How a quoted text spells a character is a spelling of it. -/
theorem spelling_spellChar {quote : CodePoint} (hquote : IsQuote quote) (c : CodePoint) :
    Spelling c (spellChar quote c) := by
  unfold spellChar
  split
  · rename_i h
    refine .short ?_
    rcases h with rfl | rfl
    · rcases hquote with rfl | rfl <;> rfl
    · rfl
  · rename_i h
    split
    · rename_i hc
      subst hc
      exact .short rfl
    · split
      · rename_i hc
        subst hc
        exact .short rfl
      · split
        · rename_i hc
          subst hc
          exact .short rfl
        · split
          · exact .raw fun hc => h (.inr hc)
          · exact spelling_codePointEscape c

/-- How a quoted text spells a character does not end the text. -/
theorem enclosed_spellChar {quote : CodePoint} (hquote : IsQuote quote) (c : CodePoint) :
    Enclosed quote (spellChar quote c) := by
  unfold spellChar
  split
  · exact .escape c .nil
  · rename_i h
    split
    · exact .escape _ .nil
    · split
      · exact .escape _ .nil
      · split
        · exact .escape _ .nil
        · split
          · exact .char (fun hc => h (.inr hc)) (fun hc => h (.inl hc)) .nil
          · exact enclosed_codePointEscape hquote _

/-- A quoted text tells what it quotes and where it ends, whatever stands behind it. -/
theorem quotedChars_unambiguous {cs ds r s : List CodePoint}
    (h : quotedChars cs ++ r = quotedChars ds ++ s) : cs = ds ∧ r = s := by
  unfold quotedChars at h
  rw [List.cons_append, List.cons_append, List.append_assoc, List.append_assoc] at h
  obtain ⟨hquote, h⟩ := List.cons.inj h
  rw [← hquote] at h
  have hq := isQuote_quoteFor cs
  obtain ⟨hbody, hrest⟩ := Enclosed.eq_of_append_eq hq.ne_backslash
    (.flatMap fun c _ => enclosed_spellChar hq c) (.flatMap fun c _ => enclosed_spellChar hq c) h
  have hdecoded := decodeFrom_flatMap (spelling_spellChar hq) (fun _ => none) 0 [] cs
  rw [hbody, decodeFrom_flatMap (spelling_spellChar hq)] at hdecoded
  exact ⟨(Except.ok.inj hdecoded).symm, hrest⟩

end MiniLisp.Text
