/-
  MiniLisp.Session

  Interpreting surface data and program texts, and sessions, which own an
  environment and a console. Each form is parsed and evaluated in the session's
  environment when its turn comes, so forms cannot affect one another but by
  what they print, and a form that does not parse stops the program only after
  the forms before it have run.
-/
import MiniLisp.Console
import MiniLisp.Datum.Reader
import MiniLisp.Eval
import MiniLisp.Expr.Parser

namespace MiniLisp

/-- The environment that programs start in: the built-in operations and the two truth values. -/
def topEnv : Env :=
  [Primitive.all.map (fun p => (p.symbol, Value.prim p.symbol)) ++
    [(⟨"true"⟩, .bool true), (⟨"false"⟩, .bool false)]]

namespace Machine

variable {m : Type → Type} [Machine m]

/-- The value of a form. -/
def interpret (depth : Nat) (env : Env) (form : Datum) : m Value := do
  let e ← ofExcept (Expr.ofDatum depth form)
  eval depth e env

/-- The value of a form, as it is displayed. -/
def report (depth : Nat) (env : Env) (form : Datum) : m Text := do
  let v ← interpret depth env form
  ofExcept v.display

/-- The displayed values of forms, one after the other. -/
def runForms (depth : Nat) (env : Env) (forms : List Datum) : m (List Text) :=
  forms.mapM fun form => do
    let result ← report depth env form
    emit (.finished result)
    pure result

/-- The displayed values of the forms of a program text, all of which is read first. -/
def runText [Host] (depth : Nat) (env : Env) (source : Text) : m (List Text) := do
  let forms ← ofExcept (read depth source)
  runForms depth env forms

end Machine

/-! ## Runs of programs -/

/-- The run of a form. -/
def interpret (depth : Nat) (form : Datum) : Run Value := Machine.interpret depth topEnv form

/-- The run of a form whose value is displayed. -/
def report (depth : Nat) (form : Datum) : Run Text := Machine.report depth topEnv form

/-- The run of forms, one after the other. -/
def runForms (depth : Nat) (forms : List Datum) : Run (List Text) :=
  Machine.runForms depth topEnv forms

theorem report_eq (depth : Nat) (form : Datum) :
    report depth form =
      (do
        let v ← interpret depth form
        Run.ofExcept v.display) := rfl

theorem runForms_eq (depth : Nat) (forms : List Datum) :
    runForms depth forms =
      forms.mapM (fun form => do
        let result ← report depth form
        Run.emit (.finished result)
        pure result) := rfl

variable [Host]

/-- The run of a program text. -/
def runText (depth : Nat) (source : Text) : Run (List Text) := Machine.runText depth topEnv source

theorem runText_eq (depth : Nat) (source : Text) :
    runText depth source =
      (do
        let forms ← Run.ofExcept (read depth source)
        runForms depth forms) := rfl

/-- The values of the forms of a program text in an environment; all of them are read and parsed
    first. -/
def evalText (depth : Nat) (env : Env) (source : Text) : Run (List Value) := do
  let forms ← Run.ofExcept (read depth source)
  let exprs ← Run.ofExcept (Expr.ofData depth forms)
  exprs.mapM fun e => eval depth e env

/-- Binds a name to the last value of a program text, in a new frame. A text without forms has
    nothing for its value. -/
def define (depth : Nat) (env : Env) (x : Symbol) (source : Text) : Run (Value × Env) := do
  let vs ← evalText depth env source
  let v := vs.getLastD (.foreign .nothing)
  pure (v, Env.bind [x] [v] env)

/-! ## Sessions -/

/-- A session: the environment that forms are evaluated in, and the console that they act on. -/
structure Session where
  env : Env
  console : Console

namespace Session

/-- A new session that prints to a sink. -/
def start (sink : Sink) : Session := ⟨topEnv, .start sink⟩

/-- The lines printed so far, and those that the sink was given with. -/
def lines (s : Session) : List Text := s.console.sink.lines

/-- Lets a computation act in a session. -/
def perform {α : Type} (s : Session) (act : Env → Acting α) : Except Fault α × Session :=
  match act s.env s.console with
  | .ok a console => (.ok a, { s with console })
  | .error fault console => (.error fault, { s with console })

/-- What can be asked of a session. -/
inductive Command where
  | runText (source : Text)
  | runForms (forms : List Datum)
  | report (form : Datum)
  | interpret (form : Datum)
  /-- Asks for the text printed so far. -/
  | output

/-- What a session answers. -/
inductive Answer where
  | results (texts : List Text)
  | result (text : Text)
  | value (v : Value)
  | output (text : Text)

/-- Carries out a command. -/
def step (depth : Nat) (s : Session) : Command → Except Fault Answer × Session
  | .runText source => s.perform fun env => .results <$> Machine.runText depth env source
  | .runForms forms => s.perform fun env => .results <$> Machine.runForms depth env forms
  | .report form => s.perform fun env => .result <$> Machine.report depth env form
  | .interpret form => s.perform fun env => .value <$> Machine.interpret depth env form
  | .output => (.ok (.output s.console.sink.output), s)

/-- Carries out commands one after the other, with the session after each. -/
def play (depth : Nat) (s : Session) : List Command → List (Except Fault Answer × Session)
  | [] => []
  | c :: cs =>
    let answered := s.step depth c
    answered :: answered.2.play depth cs

end Session

end MiniLisp
