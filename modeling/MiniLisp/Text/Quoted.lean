/-
  MiniLisp.Text.Quoted

  Quoted texts and byte strings, as diagnostics and canonical texts show them.
  A text stands between single quotes, or between double quotes when it holds
  a single quote and no double one. Backslashes and the quote in use are
  escaped, line feed, carriage return and tab have short escapes, and any
  other unprintable character is written by its code point in two, four or
  eight hexadecimal digits, the fewest that fit.
-/
import MiniLisp.Text.Printable

namespace MiniLisp.Text

/-- The lowercase hexadecimal digit of a number below sixteen. -/
def hexDigit (n : Nat) : CodePoint :=
  .char (if n < 10 then Char.ofNat (48 + n) else Char.ofNat (87 + n))

/-- The lowest `width` hexadecimal digits of `n`, most significant first. -/
def hexDigits : (width : Nat) → (n : Nat) → List CodePoint
  | 0, _ => []
  | w + 1, n => hexDigits w (n / 16) ++ [hexDigit (n % 16)]

/-- The escape that spells an unprintable character by its code point. -/
def codePointEscape (n : Nat) : List CodePoint :=
  if n < 0x100 then '\\' :: 'x' :: hexDigits 2 n
  else if n < 0x10000 then '\\' :: 'u' :: hexDigits 4 n
  else '\\' :: 'U' :: hexDigits 8 n

/-- How a character is spelled between two `quote` marks. -/
def spellChar (quote c : CodePoint) : List CodePoint :=
  if c = quote ∨ c = '\\' then ['\\', c]
  else if c = '\n' then ['\\', 'n']
  else if c = '\r' then ['\\', 'r']
  else if c = '\t' then ['\\', 't']
  else if isPrintable c then [c]
  else codePointEscape c.toNat

/-- The quote mark that a text is put between. -/
def quoteFor (cs : List CodePoint) : CodePoint :=
  if cs.contains '\x27' && !cs.contains '\x22' then '\x22' else '\x27'

/-- The characters between quote marks, spelled so that the text can be told from its
    surroundings. -/
def quotedChars (cs : List CodePoint) : List CodePoint :=
  quoteFor cs :: (cs.flatMap (spellChar (quoteFor cs)) ++ [quoteFor cs])

/-- A text as diagnostics and canonical texts show it. -/
def quoted (s : Text) : Text := Text.ofList (quotedChars s.toList)

/-- How a byte is spelled between two `quote` marks: as the ASCII character it stands for when
    that one is printable, by its value otherwise. -/
def spellByte (quote : CodePoint) (b : UInt8) : List CodePoint :=
  let c : CodePoint := .char (Char.ofNat b.toNat)
  if c = quote ∨ c = '\\' then ['\\', c]
  else if c = '\n' then ['\\', 'n']
  else if c = '\r' then ['\\', 'r']
  else if c = '\t' then ['\\', 't']
  else if 0x20 ≤ b.toNat ∧ b.toNat < 0x7f then [c]
  else '\\' :: 'x' :: hexDigits 2 b.toNat

/-- A byte string between quote marks, behind the letter `b`. -/
def quotedBytes (bs : List UInt8) : Text :=
  let quote := quoteFor (bs.map fun b => .char (Char.ofNat b.toNat))
  Text.ofList ('b' :: quote :: (bs.flatMap (spellByte quote) ++ [quote]))

end MiniLisp.Text
