/-
  MiniLisp.Proofs.Reader.RoundTrip

  Writing data and reading them back.

  `Datum.Readable` describes the data that can be read, and `Writes` the tokens of
  their written forms: integers in decimal, texts between double quotes, symbols by
  their names, lists in brackets of any shape. `Renders` lays the tokens out in a
  text, with any gaps.

  The tokens of a written form are lexemes (`isLexeme_of_writes`). Those of a
  printable datum, which has no surrogates in its texts, spell the datum
  (`spells_of_writes`), so every rendering is read back as the data it renders. In
  the other direction, only readable data are spelled by lexemes
  (`readable_of_spells`), and the lexer cuts a text into nothing else; but a
  rendering of data with surrogates stops the reader at the first literal that
  holds one (`Pass.printable_or_stops`).
-/
import MiniLisp.Proofs.Reader.Integers
import MiniLisp.Proofs.Reader.SinglePass
import MiniLisp.Proofs.Reader.Strings

namespace MiniLisp

open Lexer (isWordChar LaidOut)
open Text (IsNumeral SpelledBy)

/-! ## Printable data and their written forms -/

/-- Integers that are not too long, texts that are `good`, symbols, and lists of such data. -/
inductive Datum.Surface (good : Text → Prop) : Datum → Prop
  | int {n : Int} (h : Text.decimalFits n = true) : Surface good (.int n)
  | str {s : Text} (h : good s) : Surface good (.str s)
  /-- A symbol whose name is a word and no numeral. -/
  | sym {x : Symbol} (hne : x.name.toList ≠ []) (hchars : ∀ c ∈ x.name.toList, isWordChar c = true)
      (hnumeral : ¬IsNumeral x.name.toList) : Surface good (.sym x)
  | list {items : List Datum} (h : ∀ d ∈ items, Surface good d) : Surface good (.list items)

/-- The data that can be read. -/
abbrev Datum.Readable : Datum → Prop := Surface fun _ => True

/-- The data whose written forms are read back: no text in them holds a surrogate. -/
abbrev Datum.Printable : Datum → Prop := Surface fun s => s.isEncodable = true

theorem Datum.Surface.readable {good : Text → Prop} {d : Datum} (h : Surface good d) :
    d.Readable := by
  induction h with
  | int h => exact .int h
  | str _ => exact .str trivial
  | sym hne hchars hnumeral => exact .sym hne hchars hnumeral
  | list _ ih => exact .list ih

/-- How a character is written in a string: backslashes and double quotes behind a backslash, and
    U+0000 by its number. -/
def spellInString (c : CodePoint) : List CodePoint :=
  if c = '\\' ∨ c = '\x22' then [.char '\\', c]
  else if c = '\x00' then [.char '\\', .char 'x', .char '0', .char '0']
  else [c]

/-- A text between double quotes. -/
def stringLiteral (s : Text) : Text :=
  Text.ofList (.char '\x22' :: (s.toList.flatMap spellInString ++ [.char '\x22']))

/-- The tokens are a written form of the datum. -/
inductive Writes : List Token → Datum → Prop
  | int (n : Int) : Writes [⟨.word, Text.decimal n⟩] (.int n)
  | str (s : Text) : Writes [⟨.string, stringLiteral s⟩] (.str s)
  | sym (x : Symbol) : Writes [⟨.word, x.name⟩] (.sym x)
  /-- The items of a list, each in a written form, in brackets of any one shape. -/
  | list (b : Bracket) {parts : List (List Token × Datum)} (h : ∀ p ∈ parts, Writes p.1 p.2) :
      Writes (b.openToken :: (parts.flatMap Prod.fst ++ [b.closeToken]))
        (.list (parts.map Prod.snd))

/-- The text holds written forms of the data, one after the other, laid out in any way. -/
def Renders (ds : List Datum) (text : Text) : Prop :=
  ∃ parts : List (List Token × Datum), parts.map Prod.snd = ds ∧
    (∀ p ∈ parts, Writes p.1 p.2) ∧ LaidOut false (parts.flatMap Prod.fst) text.toList

/-! ## Integers -/

theorem ofWord_decimal {n : Int} (h : Text.decimalFits n = true) :
    Datum.ofWord (Text.decimal n) = .ok (.int n) := by
  obtain ⟨m, hm, hvalue, hlength⟩ := Text.Numeral.exists_ofChars?_decimal n
  rw [Text.Numeral.decimalFits_iff, ← hlength] at h
  rw [Datum.ofWord, hm]
  dsimp only
  rw [if_neg (Nat.not_lt.mpr h), hvalue]

theorem isWordChar_of_isDigit {c : Char} (h : c.isDigit = true) : isWordChar c = true := by
  have hrange : 48 ≤ c.toNat ∧ c.toNat ≤ 57 := by
    simp only [Char.isDigit, Bool.and_eq_true, decide_eq_true_eq] at h
    exact h
  have hdigits : ∀ k : Fin 10, isWordChar (Char.ofNat (48 + k)) = true := by decide
  have hc := hdigits ⟨c.toNat - 48, by omega⟩
  rwa [show 48 + (c.toNat - 48) = c.toNat by omega, Char.ofNat_toNat] at hc

theorem isLexeme_decimal (n : Int) : Token.IsLexeme ⟨.word, Text.decimal n⟩ := by
  have hdigits (n : Nat) : ∀ c ∈ (Nat.toDigits 10 n).map CodePoint.char, isWordChar c = true :=
    List.forall_mem_map.mpr fun c hc =>
      isWordChar_of_isDigit (Nat.isDigit_of_mem_toDigits (by decide) (by decide) hc)
  have hne (n : Nat) : (Nat.toDigits 10 n).map CodePoint.char ≠ [] :=
    List.map_eq_nil_iff.not.mpr Nat.toDigits_ne_nil
  cases n with
  | ofNat n => exact .word (hne n) (hdigits n)
  | negSucc n =>
    exact .word (List.cons_ne_nil _ _) (List.forall_mem_cons.mpr ⟨by decide, hdigits (n + 1)⟩)

/-! ## Strings -/

theorem spelledBy_spellInString {c : CodePoint} (h : c.isSurrogate = false) :
    SpelledBy c (spellInString c) := by
  unfold spellInString
  split
  · rename_i hc
    obtain rfl | rfl := hc
    · exact .short (by decide)
    · exact .short (by decide)
  · rename_i hc
    rw [not_or] at hc
    split
    · rename_i hnul
      subst hnul
      exact .byte (by decide) rfl
    · rename_i hnul
      exact .itself h hc.2 hc.1 hnul

/-- The written form of a text without surrogates spells its characters. -/
theorem spelledBy_stringLiteral {s : Text} (h : s.isEncodable = true) :
    List.Forall₂ SpelledBy s.toList (s.toList.map spellInString) :=
  List.forall₂_map_right_iff.mpr (List.forall₂_same.mpr fun c hc =>
    spelledBy_spellInString (Text.isEncodable_iff.mp h c hc))

/-- The written form of a text is one token, also that of a text with surrogates. -/
theorem isLexeme_stringLiteral (s : Text) : Token.IsLexeme ⟨.string, stringLiteral s⟩ := by
  refine .string (Text.Enclosed.flatMap fun c _ => ?_)
  unfold spellInString
  split
  · exact .escape c .nil
  · rename_i hc
    rw [not_or] at hc
    split
    · exact .escape _ (.of_forall (by decide))
    · exact .char hc.1 hc.2 .nil

section

variable [Host]

/-- The written form of a text without surrogates is decoded to the text. -/
theorem ofLiteral_stringLiteral {s : Text} (h : s.isEncodable = true) :
    Datum.ofLiteral (stringLiteral s) = .ok (.str s) :=
  ofLiteral_betweenQuotes (spelledBy_stringLiteral h)

/-- A text with a surrogate has a written form that holds the surrogate, and is not decoded. -/
theorem ofLiteral_stringLiteral_of_surrogate {s : Text} (h : s.isEncodable = false) :
    ∃ cause, Datum.ofLiteral (stringLiteral s) = .error (.badLiteral (stringLiteral s) cause) := by
  obtain ⟨c, hc, hsurrogate⟩ : ∃ c ∈ s.toList, c.isSurrogate = true := by
    simpa [Text.isEncodable] using h
  have hspell : spellInString c = [c] := by
    cases c with
    | char _ => cases hsurrogate
    | surrogate _ => rfl
  have hmem : c ∈ (stringLiteral s).toList := by
    refine List.mem_cons_of_mem _ (List.mem_append_left _ (List.mem_flatMap.mpr ⟨c, hc, ?_⟩))
    rw [hspell]
    exact List.mem_singleton.mpr rfl
  obtain ⟨fault, hfault⟩ := Text.decode_of_mem_of_isSurrogate hmem hsurrogate Host.named?
  rw [TokenStream.ofLiteral_of_isString ((isLexeme_stringLiteral s).isPlain rfl), hfault]
  exact ⟨.holdsSurrogates fault, rfl⟩

/-! ## Written forms are read back -/

/-- The tokens of a printable datum's written form spell the datum. -/
theorem spells_of_writes {ts : List Token} {d : Datum} (h : Writes ts d) (hd : d.Printable) :
    Spells ts d := by
  induction h with
  | int n =>
    cases hd with
    | int hfits => exact .word (ofWord_decimal hfits)
  | str s =>
    cases hd with
    | str hs => exact .string ((isLexeme_stringLiteral s).isPlain rfl) (ofLiteral_stringLiteral hs)
  | sym x =>
    cases hd with
    | sym _ _ hnumeral => exact .word (Datum.ofWord_symbol hnumeral)
  | list b _ ih =>
    cases hd with
    | list hitems => exact .list b fun p hp => ih p hp (hitems p.2 (List.mem_map_of_mem hp))

end

/-- The tokens of a readable datum's written form are lexemes. -/
theorem isLexeme_of_writes {ts : List Token} {d : Datum} (h : Writes ts d) (hd : d.Readable) :
    ∀ t ∈ ts, t.IsLexeme := by
  induction h with
  | int n => exact List.forall_mem_singleton.mpr (isLexeme_decimal n)
  | str s => exact List.forall_mem_singleton.mpr (isLexeme_stringLiteral s)
  | sym x =>
    cases hd with
    | sym hne hchars _ =>
      have hlexeme := Token.IsLexeme.word hne hchars
      rw [Text.ofList_toList] at hlexeme
      exact List.forall_mem_singleton.mpr hlexeme
  | @list b parts _ ih =>
    cases hd with
    | list hitems =>
      intro t ht
      simp only [List.mem_cons, List.mem_append, List.mem_flatMap, List.not_mem_nil,
        or_false] at ht
      obtain rfl | ⟨p, hp, htp⟩ | rfl := ht
      · exact .opener b
      · exact ih p hp (hitems p.2 (List.mem_map_of_mem hp)) t htp
      · exact .closer b

/-- A written form of one token is a rendering by itself. -/
theorem renders_of_writes {t : Token} {d : Datum} (h : Writes [t] d) : Renders [d] t.text :=
  ⟨[([t], d)], rfl, List.forall_mem_singleton.mpr h, .single t⟩

/-- A rendering of readable data is cut into the tokens of their written forms. -/
theorem lex_of_writes {parts : List (List Token × Datum)} {text : Text}
    (hparts : ∀ p ∈ parts, p.2.Readable) (hwrites : ∀ p ∈ parts, Writes p.1 p.2)
    (hlaid : LaidOut false (parts.flatMap Prod.fst) text.toList) :
    lex text = ⟨parts.flatMap Prod.fst, none⟩ := by
  refine lex_of_laidOut hlaid fun t ht => ?_
  obtain ⟨p, hp, htp⟩ := List.mem_flatMap.mp ht
  exact isLexeme_of_writes (hwrites p hp) (hparts p hp) t htp

section

variable [Host]

/-- A rendering of printable data is read as the data, and the bound on nesting is all that can
    stop the reader. -/
theorem read_of_renders {ds : List Datum} {text : Text} (hds : ∀ d ∈ ds, d.Printable)
    (h : Renders ds text) (depth : Nat) :
    read depth text = within (Datum.heightAll ds) depth ds := by
  obtain ⟨parts, rfl, hwrites, hlaid⟩ := h
  have hprintable : ∀ p ∈ parts, p.2.Printable := List.forall_mem_map.mp hds
  exact read_of_spells (lex_of_writes (fun p hp => (hprintable p hp).readable) hwrites hlaid)
    (fun p hp => spells_of_writes (hwrites p hp) (hprintable p hp)) depth

/-! ## Surrogates are not read back -/

namespace Pass

variable {depth : Nat} {u : Option LexFault}

/-- The pass stops at a literal that cannot be decoded. -/
def StopsAtLiteral (s : Pass) (depth : Nat) (ts : List Token) (u : Option LexFault) : Prop :=
  ∃ literal cause, s.runWithin depth ts u = .error (.badLiteral literal cause)

/-- Parts each of which is printable or stops the pass: the first that is not printable stops it. -/
theorem printable_or_stops_of_forall {parts : List (List Token × Datum)} {n : Nat}
    (hwrites : ∀ p ∈ parts, Writes p.1 p.2) (hheight : ∀ p ∈ parts, n + p.2.height ≤ depth)
    (h : ∀ p ∈ parts, ∀ (s : Pass) (rest : List Token), s.opened.length = n →
      p.2.Printable ∨ s.StopsAtLiteral depth (p.1 ++ rest) u)
    (s : Pass) (hs : s.opened.length = n) (rest : List Token) :
    (∀ p ∈ parts, p.2.Printable) ∨
      s.StopsAtLiteral depth (parts.flatMap Prod.fst ++ rest) u := by
  induction parts generalizing s with
  | nil => exact .inl (List.forall_mem_nil _)
  | cons p parts ih =>
    obtain ⟨hwrite, hwrites⟩ := List.forall_mem_cons.mp hwrites
    obtain ⟨hroom, hheight⟩ := List.forall_mem_cons.mp hheight
    obtain ⟨hp, hparts⟩ := List.forall_mem_cons.mp h
    rw [List.flatMap_cons, List.append_assoc]
    rcases hp s (parts.flatMap Prod.fst ++ rest) hs with hprintable | hstops
    · -- A printable part is spelled, so the pass takes it and comes to the next.
      have htaken := runWithin_of_spells (u := u) (spells_of_writes hwrite hprintable) s
        (hs.symm ▸ hroom) (parts.flatMap Prod.fst ++ rest)
      rcases ih hwrites hheight hparts (s.add p.2) ((length_opened_add s p.2).trans hs) with
        hall | ⟨literal, cause, hfails⟩
      · exact .inl (List.forall_mem_cons.mpr ⟨hprintable, hall⟩)
      · exact .inr ⟨literal, cause, htaken.trans hfails⟩
    · exact .inr hstops

/-- The written form of a readable datum that is not printable stops the pass. -/
theorem printable_or_stops {ts : List Token} {d : Datum} (h : Writes ts d) (hd : d.Readable)
    (s : Pass) (hdepth : s.opened.length + d.height ≤ depth) (rest : List Token) :
    d.Printable ∨ s.StopsAtLiteral depth (ts ++ rest) u := by
  -- On the written form; within a list the pass has one more list open.
  induction h generalizing s rest with
  | int n =>
    cases hd with
    | int hfits => exact .inl (.int hfits)
  | sym x =>
    cases hd with
    | sym hne hchars hnumeral => exact .inl (.sym hne hchars hnumeral)
  | str text =>
    cases htext : text.isEncodable with
    | true => exact .inl (.str htext)
    | false =>
      obtain ⟨cause, hcause⟩ := ofLiteral_stringLiteral_of_surrogate htext
      refine .inr ⟨stringLiteral text, cause, runWithin_of_take_error ?_⟩
      rw [takeWithin_of_lt (Nat.lt_of_succ_le hdepth), take, hcause]
      rfl
  | @list b parts hwrites ih =>
    cases hd with
    | list hitems =>
      rw [Datum.height] at hdepth
      have hheights :=
        Datum.heightAll_le_iff.mp (Nat.le_refl (Datum.heightAll (parts.map Prod.snd)))
      have hroom : ∀ p ∈ parts, s.opened.length + 1 + p.2.height ≤ depth := fun p hp => by
        have := hheights p.2 (List.mem_map_of_mem hp)
        omega
      have hopen : s.takeWithin depth b.openToken = .ok ⟨(b, []) :: s.opened, s.data⟩ :=
        (takeWithin_of_lt (by omega)).trans take_openToken
      rcases printable_or_stops_of_forall (u := u) hwrites hroom
          (fun p hp s' rest hs' => ih p hp (hitems p.2 (List.mem_map_of_mem hp)) s'
            (hs'.symm ▸ hroom p hp) rest)
          ⟨(b, []) :: s.opened, s.data⟩ rfl (b.closeToken :: rest) with
        hall | ⟨literal, cause, hfails⟩
      · exact .inl (.list (List.forall_mem_map.mpr hall))
      · refine .inr ⟨literal, cause, ?_⟩
        rw [List.cons_append, List.append_assoc, List.singleton_append, runWithin_of_take hopen]
        exact hfails

end Pass

/-- A rendering of readable data that are not printable stops the reader at a literal. -/
theorem read_of_renders_of_not_printable {ds : List Datum} {text : Text}
    (hds : ∀ d ∈ ds, d.Readable) (h : Renders ds text) {depth : Nat}
    (hheight : Datum.heightAll ds ≤ depth) (hnot : ¬∀ d ∈ ds, d.Printable) :
    ∃ literal cause, read depth text = .error (.badLiteral literal cause) := by
  obtain ⟨parts, rfl, hwrites, hlaid⟩ := h
  have hreadable : ∀ p ∈ parts, p.2.Readable := List.forall_mem_map.mp hds
  have hroom : ∀ p ∈ parts, 0 + p.2.height ≤ depth := fun p hp =>
    (Nat.zero_add _).symm ▸ Datum.heightAll_le_iff.mp hheight p.2 (List.mem_map_of_mem hp)
  rcases Pass.printable_or_stops_of_forall (u := none) hwrites hroom
      (fun p hp s rest hs => Pass.printable_or_stops (hwrites p hp) (hreadable p hp) s
        (hs.symm ▸ hroom p hp) rest)
      .start rfl [] with
    hall | ⟨literal, cause, hfails⟩
  · exact absurd (List.forall_mem_map.mpr hall) hnot
  · refine ⟨literal, cause, ?_⟩
    rw [read_eq_runWithin, lex_of_writes hreadable hwrites hlaid]
    rwa [List.append_nil] at hfails

end

/-! ## Only readable data are read -/

theorem readable_of_ofWord {text : Text} {d : Datum} (h : Datum.ofWord text = .ok d)
    (ht : Token.IsLexeme ⟨.word, text⟩) : d.Readable := by
  cases ht with
  | @word cs hne hchars =>
    unfold Datum.ofWord at h
    rw [Text.toList_ofList] at h
    split at h
    · rename_i hnone
      cases h
      exact .sym hne hchars (Text.Numeral.ofChars?_eq_none_iff.mp hnone)
    · rename_i m hm
      split at h
      · cases h
      · rename_i hlength
        cases h
        exact .int (Text.Numeral.decimalFits_value hm (Nat.not_lt.mp hlength))

section

variable [Host]

theorem readable_of_ofLiteral {text : Text} {d : Datum}
    (hplain : Lexer.isString text.toList = true) (h : Datum.ofLiteral text = .ok d) :
    d.Readable := by
  rw [TokenStream.ofLiteral_of_isString hplain] at h
  split at h
  · cases h
    exact .str trivial
  · cases h

/-- What lexemes spell is readable. -/
theorem readable_of_spells {ts : List Token} {d : Datum} (h : Spells ts d)
    (hts : ∀ t ∈ ts, t.IsLexeme) : d.Readable := by
  induction h with
  | word h => exact readable_of_ofWord h (hts _ List.mem_cons_self)
  | string hplain h => exact readable_of_ofLiteral hplain h
  | @list b parts _ ih =>
    refine .list (List.forall_mem_map.mpr fun p hp => ih p hp fun t ht => hts t ?_)
    exact List.mem_cons_of_mem _ (List.mem_append_left _ (List.mem_flatMap.mpr ⟨p, hp, ht⟩))

theorem readable_of_read {depth : Nat} {source : Text} {ds : List Datum}
    (h : read depth source = .ok ds) : ∀ d ∈ ds, d.Readable := by
  obtain ⟨parts, hts, hparts, rfl⟩ := exists_spells_of_read h
  -- The tokens of each part are among those of the text, which are lexemes.
  refine List.forall_mem_map.mpr fun p hp => readable_of_spells (hparts p hp).1 fun t ht => ?_
  have hmem : t ∈ (lex source).tokens := hts ▸ List.mem_flatMap.mpr ⟨p, hp, ht⟩
  exact isLexeme_of_mem_lex hmem

theorem heightAll_le_of_read {depth : Nat} {source : Text} {ds : List Datum}
    (h : read depth source = .ok ds) : Datum.heightAll ds ≤ depth := by
  obtain ⟨parts, -, hparts, rfl⟩ := exists_spells_of_read h
  exact Datum.heightAll_le_iff.mpr (List.forall_mem_map.mpr fun p hp => (hparts p hp).2)

end

/-! ## Every readable datum has a rendering -/

theorem exists_parts {ds : List Datum} (h : ∀ d ∈ ds, ∃ ts, Writes ts d) :
    ∃ parts : List (List Token × Datum), parts.map Prod.snd = ds ∧
      ∀ p ∈ parts, Writes p.1 p.2 := by
  induction ds with
  | nil => exact ⟨[], rfl, fun p hp => absurd hp List.not_mem_nil⟩
  | cons d ds ih =>
    obtain ⟨⟨ts, hts⟩, hds⟩ := List.forall_mem_cons.mp h
    obtain ⟨parts, rfl, hparts⟩ := ih hds
    exact ⟨(ts, d) :: parts, rfl, List.forall_mem_cons.mpr ⟨hts, hparts⟩⟩

theorem exists_writes {d : Datum} (h : d.Readable) : ∃ ts, Writes ts d := by
  induction h with
  | @int n _ => exact ⟨_, .int n⟩
  | @str s _ => exact ⟨_, .str s⟩
  | @sym x _ _ _ => exact ⟨_, .sym x⟩
  | list _ ih =>
    obtain ⟨parts, rfl, hparts⟩ := exists_parts ih
    exact ⟨_, .list .round hparts⟩

/-- Any tokens can be laid out: with a space before each. -/
theorem exists_laidOut (ts : List Token) (afterWord : Bool) : ∃ cs, LaidOut afterWord ts cs := by
  induction ts generalizing afterWord with
  | nil => exact ⟨[], .done .nil⟩
  | cons t ts ih =>
    obtain ⟨rest, hrest⟩ := ih (t.kind = .word)
    exact ⟨_, .token (.blank (by decide : Text.isBlank ' ' = true) .nil)
      (fun _ _ => List.cons_ne_nil _ []) hrest⟩

theorem exists_renders {ds : List Datum} (h : ∀ d ∈ ds, d.Readable) : ∃ text, Renders ds text := by
  obtain ⟨parts, rfl, hparts⟩ := exists_parts fun d hd => exists_writes (h d hd)
  obtain ⟨cs, hcs⟩ := exists_laidOut (parts.flatMap Prod.fst) false
  refine ⟨Text.ofList cs, parts, rfl, hparts, ?_⟩
  rw [Text.toList_ofList]
  exact hcs

/-- Reading undoes writing. Printable data have renderings, and every one of them is read as the
    data, unless they nest deeper than allowed. Whatever else is read, the data are readable: they
    are of the same kinds, but a text among them may hold surrogates, which an escape can spell.
    They have renderings. Such a rendering is read as the same data if they are printable, and stops
    the reader at a literal if they are not. -/
theorem read_renders_round_trip [Host] (depth : Nat) :
    (∀ ds : List Datum, (∀ d ∈ ds, d.Printable) →
      (∃ text, Renders ds text) ∧
      ∀ text, Renders ds text →
        read depth text = if Datum.heightAll ds ≤ depth then .ok ds else .error .tooDeep) ∧
    (∀ source ds, read depth source = .ok ds →
      (∀ d ∈ ds, d.Readable) ∧ (∃ text, Renders ds text) ∧
      ∀ text, Renders ds text →
        ((∀ d ∈ ds, d.Printable) → read depth text = .ok ds) ∧
        ((¬∀ d ∈ ds, d.Printable) →
          ∃ literal cause, read depth text = .error (.badLiteral literal cause))) := by
  refine ⟨fun ds hds => ⟨exists_renders fun d hd => (hds d hd).readable,
    fun text h => read_of_renders hds h depth⟩, ?_⟩
  intro source ds hread
  have hreadable := readable_of_read hread
  have hheight := heightAll_le_of_read hread
  refine ⟨hreadable, exists_renders hreadable, fun text h => ⟨fun hds => ?_, fun hds => ?_⟩⟩
  · rw [read_of_renders hds h, within, if_pos hheight]
  · exact read_of_renders_of_not_printable hreadable h hheight hds

/-- A list in square brackets with a comment in it, a number right before a string that holds a
    quote mark and a line break, and a symbol right behind the list. -/
theorem read_renders_round_trip_mixed :
    letI := Host.bare
    Renders [.list [.sym ⟨"a"⟩, .int (-7), .str "\x22\n"], .sym ⟨"b"⟩]
        "[a;c\n-7\x22\\\x22\n\x22]b" ∧
      read 2 "[a;c\n-7\x22\\\x22\n\x22]b" =
        .ok [.list [.sym ⟨"a"⟩, .int (-7), .str "\x22\n"], .sym ⟨"b"⟩] := by
  let _ := Host.bare
  have hsym (name : Text) (hne : name.toList ≠ [])
      (hchars : name.toList.all isWordChar = true)
      (hnone : Text.Numeral.ofChars? name.toList = none) : (Datum.sym ⟨name⟩).Printable :=
    .sym hne (List.all_eq_true.mp hchars) (Text.Numeral.ofChars?_eq_none_iff.mp hnone)
  have hprintable : ∀ d ∈ [Datum.list [.sym ⟨"a"⟩, .int (-7), .str "\x22\n"], .sym ⟨"b"⟩],
      d.Printable := by
    have hitems : ∀ d ∈ [Datum.sym ⟨"a"⟩, .int (-7), .str "\x22\n"], d.Printable :=
      List.forall_mem_cons.mpr ⟨hsym "a" (by decide) (by decide) (by decide),
        List.forall_mem_cons.mpr ⟨.int (Text.Numeral.decimalFits_iff.mpr (by decide)),
          List.forall_mem_singleton.mpr (.str (by decide))⟩⟩
    exact List.forall_mem_cons.mpr ⟨.list hitems,
      List.forall_mem_singleton.mpr (hsym "b" (by decide) (by decide) (by decide))⟩
  have hrenders : Renders [.list [.sym ⟨"a"⟩, .int (-7), .str "\x22\n"], .sym ⟨"b"⟩]
      "[a;c\n-7\x22\\\x22\n\x22]b" := by
    have hlist := @Writes.list .square
      [([⟨.word, "a"⟩], .sym ⟨"a"⟩), ([⟨.word, Text.decimal (-7)⟩], .int (-7)),
        ([⟨.string, stringLiteral "\x22\n"⟩], .str "\x22\n")]
      (List.forall_mem_cons.mpr ⟨.sym ⟨"a"⟩,
        List.forall_mem_cons.mpr ⟨.int (-7), List.forall_mem_singleton.mpr (.str _)⟩⟩)
    have hgap : Lexer.IsGap [.char ';', .char 'c', .char '\n'] :=
      @Lexer.IsGap.comment [.char 'c'] [] (by decide) .nil
    refine ⟨[(_, _), ([⟨.word, "b"⟩], .sym ⟨"b"⟩)], rfl,
      List.forall_mem_cons.mpr ⟨hlist, List.forall_mem_singleton.mpr (.sym ⟨"b"⟩)⟩, ?_⟩
    have hlaid := @LaidOut.token false [] _ Bracket.square.openToken _ .nil nofun
      (@LaidOut.token _ [] _ ⟨.word, "a"⟩ _ .nil nofun
      (@LaidOut.token _ _ _ ⟨.word, Text.decimal (-7)⟩ _ hgap (fun _ _ => List.cons_ne_nil _ _)
      (@LaidOut.token _ [] _ ⟨.string, stringLiteral "\x22\n"⟩ _ .nil nofun
      (@LaidOut.token _ [] _ Bracket.square.closeToken _ .nil nofun
      (@LaidOut.token _ [] _ ⟨.word, "b"⟩ _ .nil nofun (.done .nil))))))
    exact Eq.subst (motive := LaidOut false _) (by decide) hlaid
  refine ⟨hrenders, ?_⟩
  rw [((read_renders_round_trip 2).1 _ hprintable).2 _ hrenders, if_pos (by decide)]

/-- Half of a surrogate pair can be spelled by an escape, and so be read; but it is not printable,
    and where it stands by itself between the quotes it is refused. -/
theorem escaped_surrogate_is_not_read_back :
    letI := Host.bare
    let half : Text := ⟨[.surrogate 0]⟩
    read 1 "\x22\\ud800\x22" = .ok [.str half] ∧ ¬(Datum.str half).Printable ∧
      Renders [.str half] ⟨[.char '\x22', .surrogate 0, .char '\x22']⟩ ∧
      read 1 ⟨[.char '\x22', .surrogate 0, .char '\x22']⟩ =
        .error (.badLiteral ⟨[.char '\x22', .surrogate 0, .char '\x22']⟩
          (.holdsSurrogates ⟨1, .surrogate 0, 1⟩)) := by
  let _ := Host.bare
  intro half
  have hspelled : List.Forall₂ SpelledBy half.toList [(Text.ofString "\\ud800").toList] :=
    .cons (.unit (by decide) rfl) .nil
  have htext : betweenQuotes [(Text.ofString "\\ud800").toList] = "\x22\\ud800\x22" := by decide
  have hlexeme := isLexeme_betweenQuotes hspelled
  have hread := read_of_lexeme hlexeme
    (.string (hlexeme.isPlain rfl) (ofLiteral_betweenQuotes hspelled)) 1
  refine ⟨?_, ?_, renders_of_writes (.str half), ?_⟩
  · rw [← htext]
    exact hread
  · intro hprintable
    cases hprintable with
    | str h => exact absurd h (by decide)
  · have hlex : lex ⟨[.char '\x22', .surrogate 0, .char '\x22']⟩ =
        ⟨[⟨.string, ⟨[.char '\x22', .surrogate 0, .char '\x22']⟩⟩], none⟩ := by
      decide +kernel
    rw [read_eq, hlex]
    rfl

end MiniLisp
