/-
  MiniLisp.Settings

  What the variables of the surroundings set: how deep activations may nest,
  and from which level on log records are shown. A setting that is missing or
  makes no sense has its default.
-/
import MiniLisp.Text.Blank
import MiniLisp.Text.Numeral

namespace MiniLisp

/-- The variables of the surroundings, by name. -/
abbrev Variables := String → Option Text

namespace Settings

/-- The integer that a text gives: a numeral between blanks, whose digits may be grouped by
    underscores. -/
def integer? (text : Text) : Option Int :=
  match Text.Numeral.ofGrouped? (Text.trim text.toList) with
  | some n => if n.digits.length ≤ Text.maxDigits then some n.value else none
  | none => none

/-- The integer that a variable gives, or a default. -/
def integer (vars : Variables) (name : String) (default : Int) : Int :=
  ((vars name).bind integer?).getD default

/-- How many nested activations are allowed when nothing else is said. -/
def defaultDepth : Nat := 10000

/-- How many nested activations are allowed: a positive number. -/
def depth (vars : Variables) : Nat :=
  let n := integer vars "AAQZ_RECURSION_LIMIT" defaultDepth
  if 0 < n then n.toNat else defaultDepth

/-- The capital of a letter, spelled out for ligatures. Letters whose capital is not made of
    ASCII letters are left as they are: no level is named with them. -/
def capital (c : CodePoint) : List CodePoint :=
  if 0x61 ≤ c.toNat ∧ c.toNat ≤ 0x7a then [CodePoint.ofNat (c.toNat - 0x20)]
  else
    match c.toNat with
    | 0x0131 => ['I']
    | 0x017f => ['S']
    | 0x00df => ['S', 'S']
    | 0xfb00 => ['F', 'F']
    | 0xfb01 => ['F', 'I']
    | 0xfb02 => ['F', 'L']
    | 0xfb03 => ['F', 'F', 'I']
    | 0xfb04 => ['F', 'F', 'L']
    | 0xfb05 => ['S', 'T']
    | 0xfb06 => ['S', 'T']
    | _ => [c]

/-- The levels that records are logged at, by name. -/
def levels : List (Text × Nat) :=
  [("CRITICAL", 50), ("FATAL", 50), ("ERROR", 40), ("WARNING", 30), ("WARN", 30), ("INFO", 20),
   ("DEBUG", 10), ("NOTSET", 0)]

/-- The level of a name, in capitals or not. -/
def level? (name : List CodePoint) : Option Nat :=
  levels.lookup (Text.ofList (name.flatMap capital))

/-- The level from which on records are shown when nothing else is said. -/
def defaultLevel : Nat := 30

/-- The level of the records that evaluation logs. -/
def debugLevel : Nat := 10

/-- The level from which on records are shown. -/
def level (vars : Variables) : Nat :=
  ((vars "AAQZ_LOG_LEVEL").bind fun name => level? (Text.trim name.toList)).getD defaultLevel

end Settings

end MiniLisp
