/-
  MiniLisp.Machine

  What evaluation needs of the machine that it runs on. Besides computing, a
  program fails, and things happen that can be seen from outside: lines that it
  prints, closures that are made, applications with their arguments, and
  results; all but the printed lines leave a record in the log.

  Evaluation is written once, for every machine. What a machine makes of an
  event is its own affair: it may collect it, write it out, or refuse it.
-/
import MiniLisp.Fault
import MiniLisp.Value

namespace MiniLisp

namespace Record

-- A record shows its level, its source and its message.

/-- A closure is created; `shown` are its parameters. -/
def created (shown : Text) : Text :=
  "DEBUG aaqz.evaluation.evaluator: closure created: params=(" ++ shown ++ ")"

/-- A closure is applied; `shown` are its parameters. -/
def applied (shown : Text) : Text :=
  "DEBUG aaqz.evaluation.evaluator: applying closure: params=(" ++ shown ++ ")"

/-- A built-in operation is applied to `count` arguments. -/
def operated (p : Primitive) (count : Nat) : Text :=
  "DEBUG aaqz.builtin.primitives: primitive " ++ p.name ++ s!" applied to {count} argument(s)"

/-- A top-level form has a result. -/
def result (text : Text) : Text := "DEBUG aaqz.interpreter: top-level form evaluated to " ++ text

end Record

/-- Something that happens while a program runs. -/
inductive Event where
  /-- The program prints a line. -/
  | printed (line : Text)
  /-- A function becomes a closure. -/
  | created (params : List Symbol) (body : Expr) (env : Env)
  /-- The body of a closure is entered with arguments. -/
  | entered (params : List Symbol) (args : List Value)
  /-- A built-in operation is applied to arguments. -/
  | operated (p : Primitive) (args : List Value)
  /-- A top-level form has a result. -/
  | finished (result : Text)

namespace Event

/-- The line that an event prints. -/
def line? : Event → Option Text
  | .printed line => some line
  | .created _ _ _ | .entered _ _ | .operated _ _ | .finished _ => none

/-- The record that an event logs. -/
def record? : Event → Option Text
  | .printed _ => none
  | .created params _ _ => some (Record.created (Symbol.spaced params))
  | .entered params _ => some (Record.applied (Symbol.spaced params))
  | .operated p args => some (Record.operated p args.length)
  | .finished result => some (Record.result result)

end Event

/-- Computations that can fail and in which events take place. -/
class Machine (m : Type → Type) extends Monad m where
  /-- A result or a fault, and no event. -/
  ofExcept {α : Type} : Except Fault α → m α
  /-- An event takes place. -/
  emit : Event → m Unit

/-- Nothing but a fault. -/
@[inline] def Machine.fail {m : Type → Type} [Machine m] {α : Type} (fault : Fault) : m α :=
  ofExcept (.error fault)

end MiniLisp
