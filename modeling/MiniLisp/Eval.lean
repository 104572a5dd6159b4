/-
  MiniLisp.Eval

  Evaluation: strict, from left to right, with lexical scope. A callee is
  evaluated before its arguments, and all of them before the application; a
  closure's body is evaluated in the environment that the closure was made in,
  extended by the arguments.

  `depth` is the number of nested activations that may still be entered. An
  expression takes one, and so do a list of arguments and an application, so
  each call of a closure from the body of another takes at least two. A program
  that needs more is stopped; one that does not is not affected by the bound.

  `Machine.eval` evaluates on any machine. `eval` is its trace, which says what
  happens and what the value is wherever no event is refused.
-/
import MiniLisp.Env
import MiniLisp.Primitive.Apply

namespace MiniLisp

namespace Machine

variable {m : Type → Type} [Machine m]

mutual

/-- The value of an expression. -/
def eval : (depth : Nat) → Expr → Env → m Value
  | 0, _, _ => fail .tooDeep
  | _ + 1, .num n, _ => pure (.num n)
  | _ + 1, .str s, _ => pure (.str s)
  | _ + 1, .bool b, _ => pure (.bool b)
  | _ + 1, .ident x, env => ofExcept (env.lookup x)
  | depth + 1, .cond test yes no, env => do
    match ← eval depth test env with
    | .bool true => eval depth yes env
    | .bool false => eval depth no env
    | _ => fail .condition
  | _ + 1, .lambda params body, env => do
    emit (.created params body env)
    pure (.closure params body env)
  | depth + 1, .apply callee args, env => do
    let f ← eval depth callee env
    let vs ← evalArgs depth args env
    apply depth f vs
  | _ + 1, .foreign d, _ =>
    if d.decimalsFit then fail (.notExpression d.text) else fail .longDecimal

/-- The values of arguments, from left to right. -/
def evalArgs : (depth : Nat) → List Expr → Env → m (List Value)
  | 0, _, _ => fail .tooDeep
  | depth + 1, args, env => args.mapM fun e => eval depth e env

/-- Applies a value to arguments. -/
def apply : (depth : Nat) → Value → List Value → m Value
  | 0, _, _ => fail .tooDeep
  | depth + 1, f, args =>
    match f with
    | .prim op => applySymbol depth op args
    | .closure params body env =>
      if params.length = args.length then do
        emit (.entered params args)
        let inner ← ofExcept (Env.extend env params args)
        eval depth body inner
      else fail (.callArity params.length args.length)
    | _ => fail .notFunction

end

end Machine

/-- The run of an expression. -/
def eval (depth : Nat) (e : Expr) (env : Env) : Run Value := Machine.eval depth e env

/-- The run of arguments. -/
def evalArgs (depth : Nat) (args : List Expr) (env : Env) : Run (List Value) :=
  Machine.evalArgs depth args env

/-- The run of an application. -/
def apply (depth : Nat) (f : Value) (args : List Value) : Run Value := Machine.apply depth f args

/-! ## Runs from the runs of parts -/

section Equations

variable (depth : Nat) (env : Env)

theorem eval_ident (x : Symbol) :
    eval (depth + 1) (.ident x) env = .ofExcept (env.lookup x) := rfl

theorem eval_apply (callee : Expr) (args : List Expr) :
    eval (depth + 1) (.apply callee args) env =
      (do
        let f ← eval depth callee env
        let vs ← evalArgs depth args env
        apply depth f vs) := rfl

theorem eval_foreign (d : Datum) :
    eval (depth + 1) (.foreign d) env =
      if d.decimalsFit then .fail (.notExpression d.text) else .fail .longDecimal := rfl

theorem evalArgs_succ (args : List Expr) :
    evalArgs (depth + 1) args env = args.mapM fun e => eval depth e env := rfl

theorem apply_prim (op : Symbol) (args : List Value) :
    apply (depth + 1) (.prim op) args = Primitive.applySymbol depth op args := rfl

theorem apply_closure (params : List Symbol) (body : Expr) (args : List Value) :
    apply (depth + 1) (.closure params body env) args =
      if params.length = args.length then do
        Run.emit (.entered params args)
        let inner ← Run.ofExcept (Env.extend env params args)
        eval depth body inner
      else .fail (.callArity params.length args.length) := rfl

end Equations

end MiniLisp
