/-
  MiniLisp.Datum

  Surface data: the trees that program text is read into and that expressions
  are made from. Reading produces integers, texts, symbols and lists only. A
  caller that builds surface data itself can pass any of the other shapes;
  tuples are taken like lists, and the rest are refused, by name or by their
  written form, wherever an expression is wanted.
-/
import MiniLisp.Symbol
import MiniLisp.Text.Numeral
import MiniLisp.Text.Sequence

namespace MiniLisp

/-- Surface data. -/
inductive Datum where
  | int (n : Int)
  | str (s : Text)
  | sym (x : Symbol)
  | list (items : List Datum)
  | tuple (items : List Datum)
  | bool (b : Bool)
  | nothing
  /-- A real number, carried by the text it is written as. -/
  | real (digits : Text)
  | bytes (bs : List UInt8)
  /-- Named fields, in the order in which they were first given. -/
  | record (fields : List (Text × Datum))
deriving Repr, Inhabited

namespace Datum

/-- The name of a datum's shape. -/
def typeName : Datum → Text
  | .int _ => "int"
  | .str _ => "str"
  | .sym _ => "Symbol"
  | .list _ => "list"
  | .tuple _ => "tuple"
  | .bool _ => "bool"
  | .nothing => "NoneType"
  | .real _ => "float"
  | .bytes _ => "bytes"
  | .record _ => "dict"

/-- How truth values are written in surface data and canonical texts. -/
def boolText (b : Bool) : Text := if b then "True" else "False"

mutual

/-- The written form of a datum. -/
def text : Datum → Text
  | .int n => Text.decimal n
  | .str s => Text.quoted s
  | .sym x => x.text
  | .list items => Text.listText (texts items)
  | .tuple items => Text.tupleText (texts items)
  | .bool b => boolText b
  | .nothing => "None"
  | .real digits => digits
  | .bytes bs => Text.quotedBytes bs
  | .record fields => "\x7b" ++ Text.commas (fieldTexts fields) ++ "\x7d"

/-- The written forms of several data. -/
def texts : List Datum → List Text
  | [] => []
  | d :: ds => text d :: texts ds

/-- The written forms of named fields. -/
def fieldTexts : List (Text × Datum) → List Text
  | [] => []
  | (name, d) :: rest => (Text.quoted name ++ ": " ++ text d) :: fieldTexts rest

end

mutual

/-- Every integer in the datum has a decimal text. -/
def decimalsFit : Datum → Bool
  | .int n => Text.decimalFits n
  | .list items => allDecimalsFit items
  | .tuple items => allDecimalsFit items
  | .record fields => fieldDecimalsFit fields
  | _ => true

/-- Every integer in the data has a decimal text. -/
def allDecimalsFit : List Datum → Bool
  | [] => true
  | d :: ds => decimalsFit d && allDecimalsFit ds

/-- Every integer in the fields has a decimal text. -/
def fieldDecimalsFit : List (Text × Datum) → Bool
  | [] => true
  | (_, d) :: rest => decimalsFit d && fieldDecimalsFit rest

end

/-- The symbol `x` itself, and not a text of the same name. -/
def isSymbol (x : Symbol) : Datum → Bool
  | .sym y => y = x
  | _ => false

/-- A keyword may be given as a symbol or as a text. -/
def isKeyword (keyword : Text) : Datum → Bool
  | .sym x => x.name = keyword
  | .str s => s = keyword
  | _ => false

/-- Sets a field: one that is there keeps its place. -/
def setField (name : Text) (d : Datum) : List (Text × Datum) → List (Text × Datum)
  | [] => [(name, d)]
  | (n, e) :: rest => if n = name then (n, d) :: rest else (n, e) :: setField name d rest

/-- The record that results from setting fields one after the other. -/
def ofFields (fields : List (Text × Datum)) : Datum :=
  .record (fields.foldl (fun done (name, d) => setField name d done) [])

end Datum

end MiniLisp
