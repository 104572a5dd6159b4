/-
  MiniLisp.Primitive.Apply

  What the built-in operations do with their arguments. A symbol that names no
  operation is refused before anything else. Otherwise the application is
  logged, then the number of arguments is checked, then their kinds.

  `println` is the only operation that prints, and `error` the only one that
  never has a result. `equal?` is the only one that needs room for nested
  activations: `depth` is the number of them that may still be entered.
-/
import MiniLisp.Run
import MiniLisp.Value.Text

namespace MiniLisp

namespace Primitive

/-- The two numbers that a numeric operation is applied to. -/
def numbers (p : Primitive) (args : List Value) : Except Fault (Int × Int) :=
  match args with
  | [a, b] =>
    match a, b with
    | .num m, .num n => .ok (m, n)
    | _, _ => .error (.operandKinds p a.kindName b.kindName)
  | _ => .error (.primitiveArity p args.length)

/-- The quotient of the magnitudes, with a sign if only one of the numbers has one. -/
def quotient (m n : Int) : Except Fault Int :=
  if n = 0 then .error .zeroDivision
  else
    let q : Int := (m.natAbs / n.natAbs : Nat)
    .ok (if m < 0 ↔ n < 0 then q else -q)

/-- A value as a part of a longer text: a text as it is, a number in decimal, and anything else as
    it is displayed. -/
def part : Value → Except Fault Text
  | .str s => .ok s
  | .num n => decimalText n
  | v => v.display

/-- The parts of a longer text, one after the other. -/
def joined (args : List Value) : Except Fault Text := do
  pure (Text.join (← args.mapM part))

/-- The result of an operation, whatever becomes of the line that it prints. -/
def compute (depth : Nat) (p : Primitive) (args : List Value) : Except Fault Value :=
  match p with
  | .add => do let (m, n) ← numbers p args; pure (.num (m + n))
  | .sub => do let (m, n) ← numbers p args; pure (.num (m - n))
  | .mul => do let (m, n) ← numbers p args; pure (.num (m * n))
  | .div => do let (m, n) ← numbers p args; pure (.num (← quotient m n))
  | .atMost => do let (m, n) ← numbers p args; pure (.bool (m ≤ n))
  | .same =>
    match args with
    | [a, b] => do
      let left ← a.canonical depth
      let right ← b.canonical depth
      pure (.bool (left = right))
    | _ => .error (.primitiveArity p args.length)
  | .println =>
    match args with
    | [.str _] => .ok (.bool true)
    | [v] => .error (.printKind v.kindName)
    | _ => .error (.primitiveArity p args.length)
  | .seq =>
    match args.getLast? with
    | some v => .ok v
    | none => .error (.primitiveArity p args.length)
  | .concat =>
    if args.isEmpty then .error (.primitiveArity p args.length)
    else do pure (.str (← joined args))
  | .raise =>
    match args with
    | [v] => do .error (.user (← v.display))
    | _ => .error (.primitiveArity p args.length)

/-- The line that an operation prints before it has its result. -/
def output (p : Primitive) (args : List Value) : List Event :=
  match p, args with
  | .println, [.str line] => [.printed line]
  | _, _ => []

end Primitive

namespace Machine

variable {m : Type → Type} [Machine m]

/-- Applies an operation to its arguments. -/
def operate (depth : Nat) (p : Primitive) (args : List Value) : m Value := do
  emit (.operated p args)
  (p.output args).forM emit
  ofExcept (p.compute depth args)

/-- Applies the operation that a symbol names. -/
def applySymbol (depth : Nat) (op : Symbol) (args : List Value) : m Value :=
  match Primitive.ofSymbol? op with
  | some p => operate depth p args
  | none => fail (.unknownPrimitive op)

end Machine

namespace Primitive

/-- The run of an operation on its arguments. -/
def apply (depth : Nat) (p : Primitive) (args : List Value) : Run Value :=
  Machine.operate depth p args

/-- The run of the operation that a symbol names. -/
def applySymbol (depth : Nat) (op : Symbol) (args : List Value) : Run Value :=
  Machine.applySymbol depth op args

/-- An operation is noted, then prints, and then has its result. -/
theorem apply_eq (depth : Nat) (p : Primitive) (args : List Value) :
    p.apply depth args = ⟨.operated p args :: p.output args, p.compute depth args⟩ := by
  have hprints : ∀ events : List Event, (events.forM Run.emit : Run PUnit) = ⟨events, .ok ()⟩ := by
    intro events
    induction events with
    | nil => rfl
    | cons e events ih => rw [List.forM, ih]; rfl
  show (do Run.emit (.operated p args); (p.output args).forM Run.emit; Run.ofExcept _) = _
  rw [hprints]
  show Run.mk ([_] ++ (p.output args ++ [])) _ = _
  rw [List.append_nil]
  rfl

theorem applySymbol_of_ofSymbol? {op : Symbol} {p : Primitive} (h : ofSymbol? op = some p)
    (depth : Nat) (args : List Value) : applySymbol depth op args = p.apply depth args := by
  rw [applySymbol, Machine.applySymbol, h]
  rfl

theorem applySymbol_of_unknown {op : Symbol} (h : ofSymbol? op = none) (depth : Nat)
    (args : List Value) : applySymbol depth op args = .fail (.unknownPrimitive op) := by
  rw [applySymbol, Machine.applySymbol, h]
  rfl

end Primitive

end MiniLisp
