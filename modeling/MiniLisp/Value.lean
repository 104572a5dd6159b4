/-
  MiniLisp.Value

  Values and environments. A value is a number, a text, a truth value, a
  built-in operation, or a closure: a function together with the environment
  that it was made in. Two more shapes occur only in values built by hand: the
  mark of a failed result, and a datum that is no value.

  An environment is a chain of frames, innermost first; a frame binds names to
  values, in the order in which the names were first bound. Environments are
  never changed: extending one makes a new chain that shares the old one.
-/
import MiniLisp.Expr

namespace MiniLisp

/-- Values. -/
inductive Value where
  | num (n : Int)
  | str (s : Text)
  | bool (b : Bool)
  /-- The symbol of a built-in operation. -/
  | prim (op : Symbol)
  /-- A function and the frames of the environment it was made in. -/
  | closure (params : List Symbol) (body : Expr) (env : List (List (Symbol × Value)))
  /-- The mark of a failed result. -/
  | failure
  /-- A datum in the place of a value. -/
  | foreign (d : Datum)
deriving Inhabited

/-- Bindings of names to values. -/
abbrev Frame := List (Symbol × Value)

/-- A chain of frames, innermost first. -/
abbrev Env := List Frame

namespace Value

/-- The name of a value's kind. -/
def kindName : Value → Text
  | .num _ => "Number"
  | .str _ => "String"
  | .bool _ => "Bool"
  | .prim _ => "Primitive"
  | .closure _ _ _ => "Closure"
  | .failure => "ErrorValue"
  | .foreign d => d.typeName

end Value

end MiniLisp
