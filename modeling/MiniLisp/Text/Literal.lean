/-
  MiniLisp.Text.Literal

  What a string literal of the language stands for. Inside the quotes a
  backslash starts an escape: a short one (`\n`, `\t`, ...), up to three octal
  digits, or two, four or eight hexadecimal digits after `x`, `u` or `U`. A
  backslash before any other character is kept, and so is that character. Line
  breaks may stand in a literal; they are read as the escapes that spell them,
  so a backslash right before a line break escapes the backslash of that
  escape.

  A character can also be given by its Unicode name, in braces after `\N`. Which
  names there are is left open: `named?` says what each of them stands for.

  A literal is to be written as UTF-8 before it is decoded, so it can spell a
  surrogate, by an escape, and not hold one.

  A faulty escape is reported with the positions of its first and last
  character in the ASCII spelling of the literal, in which a character beyond
  ASCII takes ten columns and a backslash that would escape one takes six.
-/
import MiniLisp.Text.Utf8

namespace MiniLisp.Text

/-- What can be wrong with an escape. -/
inductive EscapeFault where
  /-- Fewer than two hexadecimal digits after `\x`. -/
  | shortByte
  /-- Fewer than four hexadecimal digits after `\u`. -/
  | shortUnit
  /-- Fewer than eight hexadecimal digits after `\U`. -/
  | shortScalar
  /-- A code point beyond the last one. -/
  | beyondUnicode
  /-- No name in braces after `\N`. -/
  | malformedName
  /-- A name in braces after `\N` that names no character. -/
  | unknownName
deriving DecidableEq, Repr

/-- Why a literal stands for no text. -/
inductive LiteralFault where
  /-- The literal holds surrogates. -/
  | holdsSurrogates (fault : EncodeFault)
  /-- The literal holds the character U+0000. -/
  | holdsNul
  /-- The escape that spans columns `first` to `last` is faulty. -/
  | escape (first last : Nat) (cause : EscapeFault)
  /-- The literal is none of the language, and is refused with these words. -/
  | refused (words : Text)
deriving DecidableEq, Repr

/-- The wording of an escape's fault. -/
def EscapeFault.message : EscapeFault → Text
  | .shortByte => "truncated \\xXX escape"
  | .shortUnit => "truncated \\uXXXX escape"
  | .shortScalar => "truncated \\UXXXXXXXX escape"
  | .beyondUnicode => "illegal Unicode character"
  | .malformedName => "malformed \\N character escape"
  | .unknownName => "unknown Unicode character name"

/-- The wording of a literal's fault. -/
def LiteralFault.message : LiteralFault → Text
  | .holdsSurrogates fault => fault.message
  | .holdsNul => "source code string cannot contain null bytes"
  | .escape first last cause =>
    s!"(unicode error) 'unicodeescape' codec can't decode bytes in position {first}-{last}: " ++
      cause.message ++ " (<unknown>, line 1)"
  | .refused words => words

namespace Literal

/-- The escapes of one letter or mark, and what each stands for. -/
def shortEscape? (c : CodePoint) : Option CodePoint :=
  match c with
  | .char '\\' => some '\\'
  | .char '\x27' => some '\x27'
  | .char '\x22' => some '\x22'
  | .char 'a' => some '\x07'
  | .char 'b' => some '\x08'
  | .char 'f' => some '\x0c'
  | .char 'n' => some '\n'
  | .char 'r' => some '\r'
  | .char 't' => some '\t'
  | .char 'v' => some '\x0b'
  | _ => none

/-- The value of an octal digit. -/
def octalValue? (c : CodePoint) : Option Nat :=
  if 0x30 ≤ c.toNat ∧ c.toNat ≤ 0x37 then some (c.toNat - 0x30) else none

/-- The value of a hexadecimal digit of either case. -/
def hexValue? (c : CodePoint) : Option Nat :=
  if 0x30 ≤ c.toNat ∧ c.toNat ≤ 0x39 then some (c.toNat - 0x30)
  else if 0x61 ≤ c.toNat ∧ c.toNat ≤ 0x66 then some (c.toNat - 0x61 + 10)
  else if 0x41 ≤ c.toNat ∧ c.toNat ≤ 0x46 then some (c.toNat - 0x41 + 10)
  else none

/-- The values of the digits that a text starts with, at most `most` of them. -/
def leadingDigits (digit? : CodePoint → Option Nat) : (most : Nat) → List CodePoint → List Nat
  | 0, _ => []
  | _ + 1, [] => []
  | most + 1, c :: cs =>
    match digit? c with
    | some d => d :: leadingDigits digit? most cs
    | none => []

/-- The number that digits stand for in a base. -/
def ofDigits (base : Nat) (digits : List Nat) : Nat := digits.foldl (fun n d => base * n + d) 0

/-- The hexadecimal escapes: how many digits the letter asks for, and the fault of having fewer. -/
def hexEscape? (c : CodePoint) : Option (Nat × EscapeFault) :=
  match c with
  | .char 'x' => some (2, .shortByte)
  | .char 'u' => some (4, .shortUnit)
  | .char 'U' => some (8, .shortScalar)
  | _ => none

/-- The character is one of the 128 of ASCII. -/
def isAscii (c : CodePoint) : Bool := c.toNat < 128

/-- Columns that a text takes in the ASCII spelling of its literal. -/
def columns : List CodePoint → Nat
  | [] => 0
  | .char '\\' :: c :: cs => (if isAscii c then 2 else 16) + columns cs
  | c :: cs => (if isAscii c then 1 else 10) + columns cs

section Decoding

-- The character of a Unicode name.
variable (named? : Text → Option Char)

/-- One step of decoding at a backslash: the characters that the escape stands for, how many
    characters after the backslash it takes, and how many columns it takes in all. `column` is
    that of the backslash, `c` the character after it and `rest` what follows. -/
def escape (column : Nat) (c : CodePoint) (rest : List CodePoint) :
    Except LiteralFault (List CodePoint × Nat × Nat) :=
  match shortEscape? c, hexEscape? c, octalValue? c with
  | some d, _, _ => .ok ([d], 1, 2)
  | _, some (count, short), _ =>
    let digits := leadingDigits hexValue? count rest
    let last := column + 1 + digits.length
    if digits.length < count then .error (.escape column last short)
    else if 0x10ffff < ofDigits 16 digits then .error (.escape column last .beyondUnicode)
    else .ok ([CodePoint.ofNat (ofDigits 16 digits)], 1 + count, 2 + count)
  | _, _, some _ =>
    let digits := leadingDigits octalValue? 3 (c :: rest)
    .ok ([CodePoint.ofNat (ofDigits 8 digits)], digits.length, 1 + digits.length)
  | none, none, none =>
    if c = 'N' then
      match rest with
      | .char '\x7b' :: more =>
        let name := more.takeWhile fun d => d ≠ CodePoint.char '\x7d'
        if name.length = more.length then
          .error (.escape column (column + 2 + columns more) .malformedName)
        else if name.isEmpty then .error (.escape column (column + 2) .malformedName)
        else
          match named? (Text.ofList name) with
          | some d => .ok ([.char d], 3 + name.length, 4 + columns name)
          | none => .error (.escape column (column + 3 + columns name) .unknownName)
      | _ => .error (.escape column (column + 1) .malformedName)
    else .ok (['\\', c], 1, if isAscii c then 2 else 16)

/-- Decodes what stands between the quotes, from `column` on; `done` holds what is decoded so
    far, last character first. -/
def decodeFrom (column : Nat) (done : List CodePoint) :
    List CodePoint → Except LiteralFault (List CodePoint)
  | [] => .ok done.reverse
  | .char '\\' :: c :: rest =>
    match escape named? column c rest with
    | .error fault => .error fault
    | .ok (chars, taken, width) =>
      decodeFrom (column + width) (chars.reverse ++ done) (rest.drop (taken - 1))
  | c :: rest => decodeFrom (column + if isAscii c then 1 else 10) (c :: done) rest
termination_by cs => cs.length
decreasing_by
  · simp only [List.length_drop, List.length_cons]; omega
  · simp

/-- Spells the line breaks of a literal by their escapes. -/
def spellBreaks (cs : List CodePoint) : List CodePoint :=
  cs.flatMap fun c : CodePoint =>
    if c = '\n' then ['\\', 'n'] else if c = '\r' then ['\\', 'r'] else [c]

/-- The text that a literal stands for. The literal is given with its two quotes. -/
def decode (literal : List CodePoint) : Except LiteralFault (List CodePoint) :=
  match encodeFault? (spellBreaks literal) with
  | some fault => .error (.holdsSurrogates fault)
  | none =>
    if literal.contains '\x00' then .error .holdsNul
    else decodeFrom named? 0 [] (spellBreaks (literal.drop 1).dropLast)

end Decoding

end Literal

end MiniLisp.Text
