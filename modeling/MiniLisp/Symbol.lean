/-
  MiniLisp.Symbol

  Symbols: the bare names of surface data, and the keys of environments. Two
  symbols are the same when their names are.
-/
import MiniLisp.Text.Quoted
import MiniLisp.Text.Sequence

namespace MiniLisp

/-- A bare name. -/
structure Symbol where
  name : Text
deriving DecidableEq, Repr, Inhabited

/-- A symbol as diagnostics and canonical texts show it. -/
def Symbol.text (x : Symbol) : Text := "Symbol(" ++ Text.quoted x.name ++ ")"

/-- Names divided by single spaces. -/
def Symbol.spaced (xs : List Symbol) : Text := Text.divided " " (xs.map name)

end MiniLisp
