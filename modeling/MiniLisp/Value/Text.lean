/-
  MiniLisp.Value.Text

  The two texts of a value. Its display is what a result is reported with; it
  shows functions only by a tag, and a text as it is, between double quotes.
  Its canonical text names the kind of the value and all its parts, except
  that the environment of a closure is left out; `equal?` compares values by
  their canonical texts.

  Neither exists for a value that shows a number of too many digits.
-/
import MiniLisp.Expr.Text
import MiniLisp.Value

namespace MiniLisp

namespace Value

/-- The text that a result is reported with. -/
def display : Value → Except Fault Text
  | .num n => decimalText n
  | .str s => .ok ("\x22" ++ s ++ "\x22")
  | .bool b => .ok (if b then "true" else "false")
  | .prim _ => .ok "#<primop>"
  | .closure _ _ _ => .ok "#<procedure>"
  | v => .error (.unprintableKind v.kindName)

/-- The canonical text, whatever the size of its numbers. -/
def text : Value → Text
  | .num n => "Number(value=" ++ Text.decimal n ++ ")"
  | .str s => "String(value=" ++ Text.quoted s ++ ")"
  | .bool b => "Bool(value=" ++ Datum.boolText b ++ ")"
  | .prim op => "Primitive(op=" ++ op.text ++ ")"
  | .closure params body _ =>
    "Closure(params=" ++ Expr.paramsText params ++ ", body=" ++ body.text ++ ")"
  | .failure => "ErrorValue()"
  | .foreign d => d.text

/-- Every integer that the canonical text shows has a decimal text. -/
def decimalsFit : Value → Bool
  | .num n => Text.decimalFits n
  | .closure _ body _ => body.decimalsFit
  | .foreign d => d.decimalsFit
  | .str _ | .bool _ | .prim _ | .failure => true

/-- The text by which values are compared; `depth` is the number of nested values and expressions
    that may still be entered. -/
def canonical : (depth : Nat) → Value → Except Fault Text
  | 0, _ => .error .tooDeep
  | _ + 1, .num n => do pure ("Number(value=" ++ (← decimalText n) ++ ")")
  | depth + 1, .closure params body _ => do
    let body ← body.canonical depth
    pure ("Closure(params=" ++ Expr.paramsText params ++ ", body=" ++ body ++ ")")
  | _ + 1, .foreign d => d.written
  | _ + 1, v => .ok v.text

end Value

end MiniLisp
