/-
  MiniLisp.Expr

  Expressions: literals, identifiers, conditionals, functions and
  applications. An expression built by hand may also hold, in the place of a
  part, a datum that is no expression; evaluating that part is a fault.

  `Expr.text` is the canonical text of an expression, which names every part:
  two proper expressions have the same canonical text only if they are equal.
-/
import MiniLisp.Datum

namespace MiniLisp

/-- Expressions. -/
inductive Expr where
  | num (n : Int)
  | str (s : Text)
  | bool (b : Bool)
  | ident (x : Symbol)
  | cond (test yes no : Expr)
  /-- A function of the parameters, with its body. -/
  | lambda (params : List Symbol) (body : Expr)
  | apply (callee : Expr) (args : List Expr)
  /-- A datum in the place of an expression. -/
  | foreign (d : Datum)
deriving Repr, Inhabited

namespace Expr

/-- Symbols as a tuple of canonical texts. -/
def paramsText (params : List Symbol) : Text := Text.tupleText (params.map Symbol.text)

mutual

/-- The canonical text of an expression. -/
def text : Expr → Text
  | .num n => "NumberLit(value=" ++ Text.decimal n ++ ")"
  | .str s => "StringLit(value=" ++ Text.quoted s ++ ")"
  | .bool b => "BoolLit(value=" ++ Datum.boolText b ++ ")"
  | .ident x => "Identifier(name=" ++ x.text ++ ")"
  | .cond test yes no =>
    "If(cond=" ++ text test ++ ", then=" ++ text yes ++ ", orelse=" ++ text no ++ ")"
  | .lambda params body => "Lambda(params=" ++ paramsText params ++ ", body=" ++ text body ++ ")"
  | .apply callee args =>
    "Apply(callee=" ++ text callee ++ ", args=" ++ Text.tupleText (texts args) ++ ")"
  | .foreign d => d.text

/-- The canonical texts of several expressions. -/
def texts : List Expr → List Text
  | [] => []
  | e :: es => text e :: texts es

end

mutual

/-- Every integer in the expression has a decimal text. -/
def decimalsFit : Expr → Bool
  | .num n => Text.decimalFits n
  | .str _ | .bool _ | .ident _ => true
  | .cond test yes no => decimalsFit test && decimalsFit yes && decimalsFit no
  | .lambda _ body => decimalsFit body
  | .apply callee args => decimalsFit callee && allDecimalsFit args
  | .foreign d => d.decimalsFit

/-- Every integer in the expressions has a decimal text. -/
def allDecimalsFit : List Expr → Bool
  | [] => true
  | e :: es => decimalsFit e && allDecimalsFit es

end

end Expr

end MiniLisp
