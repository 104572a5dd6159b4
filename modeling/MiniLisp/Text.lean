/-
  MiniLisp.Text

  Texts: sequences of code points. Most code points are characters. The others
  are the surrogates, U+D800 to U+DFFF, which stand for nothing by themselves:
  an escape in a string literal can name one, a program can compute with texts
  that hold some, and only what is to be written out as UTF-8 must be free of
  them.
-/

namespace MiniLisp

/-- A code point: a character or a surrogate. -/
inductive CodePoint where
  | char (c : Char)
  /-- The surrogate that stands `n` places behind U+D800. -/
  | surrogate (n : Fin 0x800)
deriving DecidableEq, Repr, Inhabited

instance : Coe Char CodePoint := ⟨.char⟩

namespace CodePoint

/-- The number of a code point. -/
def toNat : CodePoint → Nat
  | .char c => c.toNat
  | .surrogate n => 0xd800 + n.val

/-- The code point of a number; U+0000 for a number beyond the last one. -/
def ofNat (n : Nat) : CodePoint :=
  if h : 0xd800 ≤ n ∧ n < 0xe000 then .surrogate ⟨n - 0xd800, by omega⟩ else .char (Char.ofNat n)

/-- How many bytes a code point takes in UTF-8, which has none for surrogates. -/
def utf8Size : CodePoint → Nat
  | .char c => c.utf8Size
  | .surrogate _ => 0

/-- The code point is a surrogate. -/
def isSurrogate : CodePoint → Bool
  | .char _ => false
  | .surrogate _ => true

@[simp] theorem toNat_char (c : Char) : (CodePoint.char c).toNat = c.toNat := rfl

/-- The number of a character is not that of a surrogate. -/
theorem toNat_char_bounds (c : Char) :
    c.toNat < 0xd800 ∨ 0xe000 ≤ c.toNat ∧ c.toNat < 0x110000 := by
  obtain h | ⟨h, h'⟩ := c.valid
  · exact .inl h
  · exact .inr ⟨h, h'⟩

/-- A code point is known by its number. -/
@[simp] theorem ofNat_toNat (c : CodePoint) : ofNat c.toNat = c := by
  cases c with
  | char c =>
    have hc := toNat_char_bounds c
    rw [toNat_char, ofNat, dif_neg (by omega), Char.ofNat_toNat]
  | surrogate n =>
    have hn : 0xd800 ≤ 0xd800 + n.val ∧ 0xd800 + n.val < 0xe000 := by omega
    simp only [toNat, ofNat, dif_pos hn, Nat.add_sub_cancel_left]

/-- The numbers of code points end before 0x110000. -/
theorem toNat_lt (c : CodePoint) : c.toNat < 0x110000 := by
  cases c with
  | char c => have := toNat_char_bounds c; simp only [toNat_char]; omega
  | surrogate n => simp only [toNat]; omega

end CodePoint

/-- A sequence of code points. -/
structure Text where
  ofList ::
  toList : List CodePoint
deriving DecidableEq, Repr, Inhabited

namespace Text

/-- The characters of a string. -/
def ofString (s : String) : Text := ⟨s.toList.map .char⟩

instance : Coe String Text := ⟨ofString⟩

/-- The text of one code point. -/
def singleton (c : CodePoint) : Text := ⟨[c]⟩

/-- The number of code points. -/
def length (s : Text) : Nat := s.toList.length

/-- One text behind another. -/
def append (s t : Text) : Text := ⟨s.toList ++ t.toList⟩

instance : Append Text := ⟨append⟩

/-- Texts one behind the other. -/
def join (ts : List Text) : Text := ⟨ts.flatMap toList⟩

/-- How many bytes the characters of a text take in UTF-8. -/
def utf8Size (s : Text) : Nat := s.toList.foldl (fun size c => size + c.utf8Size) 0

/-- The text holds no surrogate, so that it can be written out. -/
def isEncodable (s : Text) : Bool := s.toList.all fun c => !c.isSurrogate

variable {s t : Text}

theorem isEncodable_iff : s.isEncodable = true ↔ ∀ c ∈ s.toList, c.isSurrogate = false := by
  simp [isEncodable]

@[ext] theorem ext (h : s.toList = t.toList) : s = t := by
  cases s; cases t; cases h; rfl

theorem toList_inj : s.toList = t.toList ↔ s = t := ⟨ext, congrArg toList⟩

@[simp] theorem toList_ofList (cs : List CodePoint) : (ofList cs).toList = cs := rfl

@[simp] theorem ofList_toList (s : Text) : ofList s.toList = s := rfl

@[simp] theorem toList_singleton (c : CodePoint) : (singleton c).toList = [c] := rfl

@[simp] theorem toList_append (s t : Text) : (s ++ t).toList = s.toList ++ t.toList := rfl

theorem append_assoc (r s t : Text) : r ++ s ++ t = r ++ (s ++ t) :=
  ext (List.append_assoc _ _ _)

@[simp] theorem append_empty (s : Text) : s ++ ofList [] = s := ext (List.append_nil _)

theorem append_right_inj (r : Text) : r ++ s = r ++ t ↔ s = t := by
  rw [← toList_inj, ← toList_inj, toList_append, toList_append, List.append_right_inj]

theorem append_left_inj (r : Text) : s ++ r = t ++ r ↔ s = t := by
  rw [← toList_inj, ← toList_inj, toList_append, toList_append, List.append_left_inj]

@[simp] theorem join_nil : join [] = ofList [] := rfl

@[simp] theorem join_cons (s : Text) (ts : List Text) : join (s :: ts) = s ++ join ts := by
  ext1; simp [join]

@[simp] theorem join_append (ts us : List Text) : join (ts ++ us) = join ts ++ join us := by
  ext1; simp [join]

@[simp] theorem toList_ofString (s : String) : (ofString s).toList = s.toList.map .char := rfl

/-- Strings of the same characters are the same. -/
@[simp] theorem ofString_inj {s t : String} : ofString s = ofString t ↔ s = t := by
  rw [← toList_inj, toList_ofString, toList_ofString]
  rw [List.map_inj_right fun _ _ => CodePoint.char.inj, String.toList_inj]

end Text

end MiniLisp
