/-
  MiniLisp.Expr.Text

  The canonical text of an expression, as it is given out. There is none for an
  expression that shows a number of too many digits.

  The text is put together part by part, from left to right. `depth` is the
  number of nested expressions that may still be entered.
-/
import MiniLisp.Expr
import MiniLisp.Fault

namespace MiniLisp

/-- The decimal text of a number, if it does not have too many digits. -/
def decimalText (n : Int) : Except Fault Text :=
  if Text.decimalFits n then .ok (Text.decimal n) else .error .longDecimal

/-- The written form of a datum whose numbers all have decimal texts. -/
def Datum.written (d : Datum) : Except Fault Text :=
  if d.decimalsFit then .ok d.text else .error .longDecimal

/-- The canonical text of an expression whose numbers all have decimal texts. -/
def Expr.canonical : (depth : Nat) → Expr → Except Fault Text
  | 0, _ => .error .tooDeep
  | _ + 1, .num n => do pure ("NumberLit(value=" ++ (← decimalText n) ++ ")")
  | _ + 1, .str s => .ok (text (.str s))
  | _ + 1, .bool b => .ok (text (.bool b))
  | _ + 1, .ident x => .ok (text (.ident x))
  | depth + 1, .cond test yes no => do
    let test ← canonical depth test
    let yes ← canonical depth yes
    let no ← canonical depth no
    pure ("If(cond=" ++ test ++ ", then=" ++ yes ++ ", orelse=" ++ no ++ ")")
  | depth + 1, .lambda params body => do
    let body ← canonical depth body
    pure ("Lambda(params=" ++ paramsText params ++ ", body=" ++ body ++ ")")
  | depth + 1, .apply callee args => do
    let callee ← canonical depth callee
    let args ← args.mapM (canonical depth)
    pure ("Apply(callee=" ++ callee ++ ", args=" ++ Text.tupleText args ++ ")")
  | _ + 1, .foreign d => d.written

end MiniLisp
