/-
  MiniLisp.Primitive

  The ten built-in operations and the symbols that name them. Other symbols
  may be tagged as built-in operations too; applying such a tag is a fault.
-/
import MiniLisp.Symbol

namespace MiniLisp

/-- The built-in operations. -/
inductive Primitive where
  | add
  | sub
  | mul
  | div
  | atMost
  | same
  | println
  | seq
  | concat
  | raise
deriving DecidableEq, Repr

namespace Primitive

/-- Every built-in operation, in the order in which the top-level environment binds them. -/
def all : List Primitive :=
  [.add, .sub, .mul, .div, .atMost, .same, .println, .seq, .concat, .raise]

/-- The name of a built-in operation. -/
def name : Primitive → Text
  | .add => "+"
  | .sub => "-"
  | .mul => "*"
  | .div => "/"
  | .atMost => "<="
  | .same => "equal?"
  | .println => "println"
  | .seq => "seq"
  | .concat => "++"
  | .raise => "error"

/-- The symbol that names a built-in operation. -/
def symbol (p : Primitive) : Symbol := ⟨p.name⟩

/-- The built-in operation that a symbol names. -/
def ofSymbol? (x : Symbol) : Option Primitive := all.find? fun p => p.name = x.name

/-- Each operation is found by its own symbol. -/
@[simp] theorem ofSymbol?_symbol (p : Primitive) : ofSymbol? p.symbol = some p := by
  cases p <;> rfl

end Primitive

end MiniLisp
