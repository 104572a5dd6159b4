/-
  MiniLisp.Expr.Parser

  Surface data to expressions. Integers, texts and symbols stand for
  themselves. A list (or tuple) is a conditional when its head is the keyword
  `if`, a function when it is made of a list of parameters, the keyword `=>`
  and a body, and an application otherwise. Keywords and parameters may be
  symbols or texts.

  As in reading, `depth` is the number of nested activations that may still be
  entered: one for a datum, one for the form that it is, and one for the
  arguments of an application.
-/
import MiniLisp.Expr
import MiniLisp.Fault

namespace MiniLisp

namespace Expr

/-- Takes the parameters of a function from left to right; `done` holds those taken so far. -/
def paramsFrom (done : List Symbol) : List Datum → Except Fault (List Symbol)
  | [] => .ok done
  | d :: ds =>
    let take (x : Symbol) :=
      if x ∈ done then .error (.repeatedParameter x) else paramsFrom (done ++ [x]) ds
    match d with
    | .sym x => take x
    | .str s => take ⟨s⟩
    | other =>
      if other.decimalsFit then .error (.badParameter other.text) else .error .longDecimal

/-- The parameters of a function: distinct names. -/
def params (ds : List Datum) : Except Fault (List Symbol) := paramsFrom [] ds

/-- The members of a datum that parameters can be taken from: those of a list or tuple, the
    characters of a text, the bytes of a byte string, the names of a record's fields. -/
def members (d : Datum) : Except Fault (List Datum) :=
  match d with
  | .list items | .tuple items => .ok items
  | .str s => .ok (s.toList.map fun c => .str (.singleton c))
  | .bytes bs => .ok (bs.map fun b => .int b.toNat)
  | .record fields => .ok (fields.map fun (name, _) => .str name)
  | other => .error (.noMembers other.typeName)

/-- The parameters given by one datum. -/
def paramsOf (d : Datum) : Except Fault (List Symbol) := do params (← members d)

/-- The items of a list or tuple. -/
def items? : Datum → Option (List Datum)
  | .list items | .tuple items => some items
  | _ => none

/-- The parameters and the body of a function: a list of parameters, the keyword `=>`, a body. -/
def functionForm? : List Datum → Option (List Datum × Datum)
  | [head, arrow, body] =>
    if arrow.isKeyword "=>" then (items? head).map fun ps => (ps, body) else none
  | _ => none

mutual

/-- The expression that a datum stands for. -/
def ofDatum : (depth : Nat) → Datum → Except Fault Expr
  | 0, _ => .error .tooDeep
  | depth + 1, d =>
    match d with
    | .bool b => .error (.truthValue b)
    | .int n => .ok (.num n)
    | .str s => .ok (.str s)
    | .sym x => .ok (.ident x)
    | .list items | .tuple items => ofForm depth items
    | other => .error (.unsupported other.typeName)

/-- The expression that the items of a list stand for. -/
def ofForm : (depth : Nat) → List Datum → Except Fault Expr
  | 0, _ => .error .tooDeep
  | _ + 1, [] => .error .emptyList
  | depth + 1, head :: rest =>
    if head.isKeyword "if" then
      match rest with
      | [test, yes, no] => do
        let test ← ofDatum depth test
        let yes ← ofDatum depth yes
        let no ← ofDatum depth no
        pure (.cond test yes no)
      | _ => .error (.conditionalParts rest.length)
    else
      match functionForm? (head :: rest) with
      | some (ps, body) => do
        let ps ← params ps
        let body ← ofDatum depth body
        pure (.lambda ps body)
      | none => do
        let callee ← ofDatum depth head
        let args ← ofArgs depth rest
        pure (.apply callee args)

/-- The arguments of an application, from left to right. -/
def ofArgs : (depth : Nat) → List Datum → Except Fault (List Expr)
  | 0, _ => .error .tooDeep
  | depth + 1, ds => ds.mapM (ofDatum depth)

end

/-- The expressions that several data stand for. -/
def ofData (depth : Nat) (ds : List Datum) : Except Fault (List Expr) := ds.mapM (ofDatum depth)

end Expr

end MiniLisp
