/-
  MiniLisp.Env

  Making, searching and showing environments. A name is looked up from the
  innermost frame outwards, so the nearest binding wins; binding a name twice
  in one frame keeps the place of the first binding and the value of the last.
-/
import MiniLisp.Value.Text

namespace MiniLisp

namespace Frame

/-- Binds a name: one that is bound already keeps its place. -/
def insert (x : Symbol) (v : Value) : Frame → Frame
  | [] => [(x, v)]
  | (y, w) :: rest => if y = x then (y, v) :: rest else (y, w) :: insert x v rest

/-- The frame that results from binding names one after the other. -/
def ofPairs (pairs : List (Symbol × Value)) : Frame :=
  pairs.foldl (fun f (x, v) => insert x v f) []

/-- The value of a name. -/
def find? (x : Symbol) : Frame → Option Value
  | [] => none
  | (y, v) :: rest => if y = x then some v else find? x rest

/-- Binding a name changes the value of that name only. -/
theorem find?_insert (x y : Symbol) (v : Value) (f : Frame) :
    find? y (insert x v f) = if x = y then some v else find? y f := by
  induction f with
  | nil => rfl
  | cons b rest ih =>
    obtain ⟨z, w⟩ := b
    by_cases hz : z = x
    · subst hz
      by_cases hy : z = y <;> simp [insert, find?, hy]
    · by_cases hy : z = y
      · subst hy
        simp [insert, find?, hz, Ne.symm hz]
      · simp [insert, find?, hz, hy, ih]

/-- The bindings of a frame as they are shown. -/
def bindingTexts (f : Frame) : List Text := f.map fun (x, v) => x.name ++ ": " ++ v.text

/-- A frame as it is shown. -/
def text (f : Frame) : Text := "\x7b" ++ Text.commas (bindingTexts f) ++ "\x7d"

/-- Every integer that the frame shows has a decimal text. -/
def decimalsFit (f : Frame) : Bool := f.all fun (_, v) => v.decimalsFit

end Frame

namespace Env

/-- A new innermost frame that binds the names to the values, in order. -/
def bind (names : List Symbol) (values : List Value) (env : Env) : Env :=
  Frame.ofPairs (names.zip values) :: env

/-- Binds as many names as there are values. -/
def extend (env : Env) (names : List Symbol) (values : List Value) : Except Fault Env :=
  if names.length = values.length then .ok (bind names values env)
  else .error (.frameArity values.length names.length)

/-- The nearest value of a name. -/
def find? (x : Symbol) : Env → Option Value
  | [] => none
  | f :: outer => (Frame.find? x f).or (find? x outer)

/-- How many frames further out the nearest binding of a name is. -/
def hops? (x : Symbol) : Env → Option Nat
  | [] => none
  | f :: outer => if (Frame.find? x f).isSome then some 0 else (hops? x outer).map (· + 1)

/-- The nearest value of a name, which must be bound. -/
def lookup (env : Env) (x : Symbol) : Except Fault Value :=
  match find? x env with
  | some v => .ok v
  | none => .error (.unbound x)

/-- The datum is a symbol, and one that is bound. -/
def contains (env : Env) : Datum → Bool
  | .sym x => (find? x env).isSome
  | _ => false

/-- The number of frames. -/
def depth (env : Env) : Nat := env.length

/-- The innermost frame, with a hint that there are others. -/
def innermostText : Env → Except Fault Text
  | [] => .ok "\x7b\x7d"
  | f :: outer =>
    if Frame.decimalsFit f then
      .ok (Frame.text f ++ if outer.isEmpty then "" else " -> ...")
    else .error .longDecimal

/-- The whole chain, innermost frame first, divided by arrows. -/
def chainText (env : Env) : Except Fault Text :=
  if env.all Frame.decimalsFit then
    .ok ("<Environment chain: " ++ Text.divided " -> " (env.map Frame.text) ++ ">")
  else .error .longDecimal

end Env

end MiniLisp
