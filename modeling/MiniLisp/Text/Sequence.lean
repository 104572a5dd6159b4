/-
  MiniLisp.Text.Sequence

  Written forms of sequences whose members are already written: members with a
  mark between each two, and members divided by a comma and a space, in square
  brackets for a list and in round ones for a tuple, where a single member keeps
  a trailing comma. Lines are written with a line feed behind each.
-/
import MiniLisp.Text

namespace MiniLisp.Text

/-- The members, with a mark between each two. -/
def divided (mark : Text) : List Text → Text
  | [] => ""
  | [x] => x
  | x :: y :: rest => x ++ mark ++ divided mark (y :: rest)

/-- The members, divided by a comma and a space. -/
def commas (members : List Text) : Text := divided ", " members

/-- `[a, b]`. -/
def listText (members : List Text) : Text := "[" ++ commas members ++ "]"

/-- `()`, `(a,)`, `(a, b)`. -/
def tupleText : List Text → Text
  | [x] => "(" ++ x ++ ",)"
  | members => "(" ++ commas members ++ ")"

/-- The lines, each with a line feed behind it. -/
def asLines (lines : List Text) : Text := Text.join (lines.map (· ++ "\n"))

end MiniLisp.Text
