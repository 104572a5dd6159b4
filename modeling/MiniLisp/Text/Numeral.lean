/-
  MiniLisp.Text.Numeral

  Integers and their decimal texts. A numeral is an optional sign and a run of
  decimal digits of any scripts, mixed freely. Texts of more than `maxDigits`
  digits are refused in both directions, so that no single conversion can
  take time out of proportion to the program that asks for it; arithmetic
  itself has no bound.
-/
import MiniLisp.Text.Digit

namespace MiniLisp.Text

/-- Most digits that a decimal text may have. -/
def maxDigits : Nat := 4300

/-- The least magnitude whose decimal text has more than `maxDigits` digits. -/
def decimalBound : Nat := Nat.pow 10 maxDigits

/-- The decimal text of `n` has at most `maxDigits` digits. -/
def decimalFits (n : Int) : Bool := n.natAbs < decimalBound

/-- The decimal text of an integer, with a minus sign when it is negative. -/
def decimal : Int → Text
  | .ofNat n => Text.ofList ((Nat.toDigits 10 n).map .char)
  | .negSucc n => Text.ofList ('-' :: (Nat.toDigits 10 (n + 1)).map .char)

/-- A sign and the digits after it, most significant first. -/
structure Numeral where
  negative : Bool
  digits : List Nat
deriving DecidableEq, Repr

namespace Numeral

/-- The number that a run of digits stands for. -/
def natOfDigits (digits : List Nat) : Nat := digits.foldl (fun n d => 10 * n + d) 0

/-- The integer that the numeral stands for. -/
def value (n : Numeral) : Int :=
  if n.negative then -(natOfDigits n.digits : Int) else natOfDigits n.digits

/-- The values of a text of one or more digits, `none` if it holds anything else. -/
def digits? (cs : List CodePoint) : Option (List Nat) :=
  if cs.isEmpty then none else cs.mapM digitValue?

/-- Splits off a leading sign. -/
def splitSign : List CodePoint → Bool × List CodePoint
  | .char '-' :: cs => (true, cs)
  | .char '+' :: cs => (false, cs)
  | cs => (false, cs)

/-- Reads a whole text as a numeral. -/
def ofChars? (cs : List CodePoint) : Option Numeral :=
  let (negative, rest) := splitSign cs
  (digits? rest).map fun ds => ⟨negative, ds⟩

/-- Underscores stand only between two other characters: none first, none last, no two together.
    `inside` says that the character before the text is there and is no underscore. -/
def isGrouped : (inside : Bool) → List CodePoint → Bool
  | inside, [] => inside
  | inside, c :: cs => if c = '_' then inside && isGrouped false cs else isGrouped true cs

/-- Reads a whole text as a numeral whose digits may be grouped by single underscores. -/
def ofGrouped? (cs : List CodePoint) : Option Numeral := do
  let (negative, rest) := splitSign cs
  guard (isGrouped false rest)
  let ds ← digits? (rest.filter (· ≠ '_'))
  pure ⟨negative, ds⟩

end Numeral

end MiniLisp.Text
