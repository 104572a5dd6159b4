/-
  MiniLisp.Proofs.Eval.Invariant

  Properties that evaluation keeps.

  An `Activation` is one call of the evaluator. `Enters` says which activations
  it makes next, and with what depth; `Arises a v` says that the value `v` comes
  up anywhere below the activation `a`: as the result of an activation, in a
  frame of its environment, or in the environment of a closure that comes up.

  A `Discipline` is a property of expressions with their environments, of
  values, of events and of faults that each rule of evaluation keeps. Every
  such property holds of a whole run (`Discipline.keeps_eval`) and of all the
  activations in it (`Discipline.fit_of_reaches`). It asks of an environment
  only that what is looked up is good. An `Invariant` asks it of all that is
  bound, and then holds of all the values that arise too
  (`Invariant.good_of_arises`).
-/
import MiniLisp.Eval
import MiniLisp.Proofs.Outcome
import Mathlib.Logic.Relation

namespace MiniLisp

/-! ## Activations -/

/-- The evaluation of an expression in an environment, with `depth` nested activations left. -/
structure Activation where
  depth : Nat
  expr : Expr
  env : Env

namespace Activation

/-- What the activation does and how it ends. -/
def run (a : Activation) : Run Value := eval a.depth a.expr a.env

/-- The activations that an activation makes directly. -/
inductive Enters : Activation → Activation → Prop
  | test {depth : Nat} {test yes no : Expr} {env : Env} :
      Enters ⟨depth + 1, .cond test yes no, env⟩ ⟨depth, test, env⟩
  | yes {depth : Nat} {test yes no : Expr} {env : Env}
      (htest : (eval depth test env).outcome = .ok (.bool true)) :
      Enters ⟨depth + 1, .cond test yes no, env⟩ ⟨depth, yes, env⟩
  | no {depth : Nat} {test yes no : Expr} {env : Env}
      (htest : (eval depth test env).outcome = .ok (.bool false)) :
      Enters ⟨depth + 1, .cond test yes no, env⟩ ⟨depth, no, env⟩
  | callee {depth : Nat} {callee : Expr} {args : List Expr} {env : Env} :
      Enters ⟨depth + 1, .apply callee args, env⟩ ⟨depth, callee, env⟩
  /-- An argument is evaluated when the callee and the arguments before it have values. -/
  | arg {depth : Nat} {callee arg : Expr} {before after : List Expr} {env : Env} {f : Value}
      {vs : List Value} (hf : (eval (depth + 1) callee env).outcome = .ok f)
      (hvs : (evalArgs (depth + 1) before env).outcome = .ok vs) :
      Enters ⟨depth + 2, .apply callee (before ++ arg :: after), env⟩ ⟨depth, arg, env⟩
  /-- The body of a closure is evaluated with the parameters bound to the arguments. -/
  | body {depth : Nat} {callee : Expr} {args : List Expr} {env captured : Env}
      {params : List Symbol} {body : Expr} {vs : List Value}
      (hf : (eval (depth + 1) callee env).outcome = .ok (.closure params body captured))
      (hvs : (evalArgs (depth + 1) args env).outcome = .ok vs)
      (hlen : params.length = vs.length) :
      Enters ⟨depth + 2, .apply callee args, env⟩ ⟨depth, body, Env.bind params vs captured⟩

/-- One activation is made, directly or not, by the other. -/
def Reaches : Activation → Activation → Prop := Relation.ReflTransGen Enters

/-- The values that come up below an activation. -/
inductive Arises (a : Activation) : Value → Prop
  | result {b : Activation} {v : Value} (hb : a.Reaches b) (hv : b.run.outcome = .ok v) :
      Arises a v
  | bound {b : Activation} {f : Frame} {x : Symbol} {v : Value} (hb : a.Reaches b)
      (hf : f ∈ b.env) (hv : (x, v) ∈ f) : Arises a v
  | captured {params : List Symbol} {body : Expr} {env : Env} {f : Frame} {x : Symbol}
      {v : Value} (hc : Arises a (.closure params body env)) (hf : f ∈ env) (hv : (x, v) ∈ f) :
      Arises a v

end Activation

/-! ## Environments -/

namespace Frame

/-- Every bound value satisfies `good`. -/
def Holds (good : Value → Prop) (f : Frame) : Prop := ∀ b ∈ f, good b.2

theorem holds_insert {good : Value → Prop} {f : Frame} (hf : Holds good f) {x : Symbol} {v : Value}
    (hv : good v) : Holds good (insert x v f) := by
  induction f with
  | nil =>
    intro b hb
    rw [List.mem_singleton.mp hb]
    exact hv
  | cons b f ih =>
    obtain ⟨hb, hf⟩ := List.forall_mem_cons.mp hf
    rw [insert]
    split
    · exact List.forall_mem_cons.mpr ⟨hv, hf⟩
    · exact List.forall_mem_cons.mpr ⟨hb, ih hf⟩

theorem holds_ofPairs {good : Value → Prop} {pairs : List (Symbol × Value)}
    (h : ∀ p ∈ pairs, good p.2) : Holds good (ofPairs pairs) := by
  have hfold : ∀ f : Frame, Holds good f →
      Holds good (pairs.foldl (fun f p => insert p.1 p.2 f) f) := by
    induction pairs with
    | nil => exact fun f hf => hf
    | cons p pairs ih =>
      intro f hf
      obtain ⟨hp, hpairs⟩ := List.forall_mem_cons.mp h
      exact ih hpairs _ (holds_insert hf hp)
  exact hfold [] fun b hb => absurd hb List.not_mem_nil

theorem good_of_find? {good : Value → Prop} {f : Frame} (hf : Holds good f) {x : Symbol}
    {v : Value} (h : find? x f = some v) : good v := by
  induction f with
  | nil => cases h
  | cons b f ih =>
    obtain ⟨hb, hf⟩ := List.forall_mem_cons.mp hf
    rw [find?] at h
    split at h
    · cases h
      exact hb
    · exact ih hf h

end Frame

namespace Env

/-- Every value bound in a frame satisfies `good`. -/
def Holds (good : Value → Prop) (env : Env) : Prop := ∀ f ∈ env, Frame.Holds good f

theorem holds_bind {good : Value → Prop} {env : Env} (henv : Holds good env) (names : List Symbol)
    {values : List Value} (hvalues : ∀ v ∈ values, good v) :
    Holds good (bind names values env) := by
  refine List.forall_mem_cons.mpr ⟨Frame.holds_ofPairs ?_, henv⟩
  intro p hp
  exact hvalues p.2 (List.of_mem_zip hp).2

theorem good_of_find? {good : Value → Prop} {env : Env} (henv : Holds good env) {x : Symbol}
    {v : Value} (h : find? x env = some v) : good v := by
  induction env with
  | nil => cases h
  | cons f env ih =>
    obtain ⟨hf, henv⟩ := List.forall_mem_cons.mp henv
    rw [find?, Option.or_eq_some_iff] at h
    rcases h with h | ⟨-, h⟩
    · exact Frame.good_of_find? hf h
    · exact ih henv h

end Env

/-! ## Disciplines and invariants -/

/-- What the rules of evaluation keep: `fit` of an expression and the environment it is evaluated
    in, `good` of values, `noted` of events and `allowed` of faults. -/
structure Discipline where
  fit : Expr → Env → Prop
  good : Value → Prop
  noted : Event → Prop
  allowed : Fault → Prop
  num {n : Int} {env : Env} : fit (.num n) env → good (.num n)
  str {s : Text} {env : Env} : fit (.str s) env → good (.str s)
  bool {b : Bool} {env : Env} : fit (.bool b) env → good (.bool b)
  bound {x : Symbol} {env : Env} {v : Value} :
    fit (.ident x) env → env.find? x = some v → good v
  unbound {x : Symbol} {env : Env} :
    fit (.ident x) env → env.find? x = none → allowed (.unbound x)
  cond {test yes no : Expr} {env : Env} :
    fit (.cond test yes no) env → fit test env ∧ fit yes env ∧ fit no env
  lambda {params : List Symbol} {body : Expr} {env : Env} : fit (.lambda params body) env →
    noted (.created params body env) ∧ good (.closure params body env)
  apply {callee : Expr} {args : List Expr} {env : Env} :
    fit (.apply callee args) env → fit callee env ∧ ∀ e ∈ args, fit e env
  /-- Nothing but expressions is evaluated. -/
  not_foreign {d : Datum} {env : Env} : ¬fit (.foreign d) env
  enter {params : List Symbol} {body : Expr} {env : Env} {vs : List Value} :
    good (.closure params body env) → (∀ v ∈ vs, good v) → params.length = vs.length →
      noted (.entered params vs) ∧ fit body (Env.bind params vs env)
  prim {depth : Nat} {op : Symbol} {vs : List Value} : good (.prim op) → (∀ v ∈ vs, good v) →
    (Primitive.applySymbol depth op vs).Keeps noted good allowed
  tooDeep : allowed .tooDeep
  condition : allowed .condition
  notFunction : allowed .notFunction
  callArity (expected given : Nat) : allowed (.callArity expected given)

/-- A discipline under which everything that is bound is good, whether it is looked up or not. -/
structure Invariant extends Discipline where
  holds_env {e : Expr} {env : Env} : fit e env → Env.Holds good env
  holds_captured {params : List Symbol} {body : Expr} {env : Env} :
    good (.closure params body env) → Env.Holds good env
  bound h hx := Env.good_of_find? (holds_env h) hx

namespace Discipline

variable (D : Discipline)

/-- One activation keeps the discipline if those with less depth do. -/
theorem keeps_eval_succ {depth : Nat}
    (ihEval : ∀ e env, D.fit e env → (eval depth e env).Keeps D.noted D.good D.allowed)
    (ihArgs : ∀ es env, (∀ e ∈ es, D.fit e env) →
      (evalArgs depth es env).Keeps D.noted (fun vs => ∀ v ∈ vs, D.good v) D.allowed)
    (ihApply : ∀ f vs, D.good f → (∀ v ∈ vs, D.good v) →
      (MiniLisp.apply depth f vs).Keeps D.noted D.good D.allowed)
    {e : Expr} {env : Env} (h : D.fit e env) :
    (eval (depth + 1) e env).Keeps D.noted D.good D.allowed := by
  cases e with
  | num n => exact .pure (D.num h)
  | str s => exact .pure (D.str h)
  | bool b => exact .pure (D.bool h)
  | ident x =>
    refine .ofExcept ?_
    rw [Env.lookup]
    cases hx : env.find? x with
    | none => exact .error (D.unbound h hx)
    | some v => exact .ok (D.bound h hx)
  | cond test yes no =>
    obtain ⟨htest, hyes, hno⟩ := D.cond h
    refine (ihEval test env htest).bind ?_
    intro v _
    split
    · exact ihEval yes env hyes
    · exact ihEval no env hno
    · exact .fail D.condition
  | lambda params body =>
    obtain ⟨hnoted, hgood⟩ := D.lambda h
    exact (Run.Keeps.emit hnoted).bind fun _ _ => .pure hgood
  | apply callee args =>
    obtain ⟨hcallee, hargs⟩ := D.apply h
    refine (ihEval callee env hcallee).bind fun f hf => ?_
    refine (ihArgs args env hargs).bind fun vs hvs => ?_
    exact ihApply f vs hf hvs
  | foreign d => exact absurd h D.not_foreign

/-- Applying a good value to good arguments keeps the discipline if evaluation with less depth
    does. -/
theorem keeps_apply_succ {depth : Nat}
    (ihEval : ∀ e env, D.fit e env → (eval depth e env).Keeps D.noted D.good D.allowed)
    {f : Value} {vs : List Value} (hf : D.good f) (hvs : ∀ v ∈ vs, D.good v) :
    (MiniLisp.apply (depth + 1) f vs).Keeps D.noted D.good D.allowed := by
  cases f with
  | prim op => exact D.prim hf hvs
  | closure params body env =>
    rw [apply_closure]
    by_cases hlen : params.length = vs.length
    · obtain ⟨hnoted, hfit⟩ := D.enter hf hvs hlen
      -- The numbers agree, so extending the environment cannot fail.
      simp only [if_pos hlen, Env.extend]
      exact (Run.Keeps.emit hnoted).bind fun _ _ => ihEval body _ hfit
    · rw [if_neg hlen]
      exact .fail (D.callArity _ _)
  | num _ | str _ | bool _ | failure | foreign _ => exact .fail D.notFunction

/-- Evaluation, of one expression or of arguments, and application keep the discipline at every
    depth. -/
theorem keeps (depth : Nat) :
    (∀ e env, D.fit e env → (eval depth e env).Keeps D.noted D.good D.allowed) ∧
    (∀ es env, (∀ e ∈ es, D.fit e env) →
      (evalArgs depth es env).Keeps D.noted (fun vs => ∀ v ∈ vs, D.good v) D.allowed) ∧
    (∀ f vs, D.good f → (∀ v ∈ vs, D.good v) →
      (MiniLisp.apply depth f vs).Keeps D.noted D.good D.allowed) := by
  -- The three functions call one another with less depth only, so they go together.
  induction depth with
  | zero =>
    exact ⟨fun _ _ _ => .fail D.tooDeep, fun _ _ _ => .fail D.tooDeep,
      fun _ _ _ _ => .fail D.tooDeep⟩
  | succ depth ih =>
    obtain ⟨ihEval, ihArgs, ihApply⟩ := ih
    refine ⟨?_, ?_, ?_⟩
    · intro e env h
      exact D.keeps_eval_succ ihEval ihArgs ihApply h
    · intro es env h
      exact .mapM fun e he => ihEval e env (h e he)
    · intro f vs hf hvs
      exact D.keeps_apply_succ ihEval hf hvs

theorem keeps_eval (depth : Nat) {e : Expr} {env : Env} (h : D.fit e env) :
    (eval depth e env).Keeps D.noted D.good D.allowed := (D.keeps depth).1 e env h

theorem good_of_eval {depth : Nat} {e : Expr} {env : Env} {v : Value} (h : D.fit e env)
    (hv : (eval depth e env).outcome = .ok v) : D.good v :=
  (D.keeps_eval depth h).2.good_of_eq_ok hv

theorem good_of_evalArgs {depth : Nat} {es : List Expr} {env : Env} {vs : List Value}
    (h : ∀ e ∈ es, D.fit e env) (hvs : (evalArgs depth es env).outcome = .ok vs) :
    ∀ v ∈ vs, D.good v :=
  ((D.keeps depth).2.1 es env h).2.good_of_eq_ok hvs

/-! ## Everything below an activation -/

/-- An activation passes the discipline on to those that it makes. -/
theorem fit_of_enters {a b : Activation} (h : D.fit a.expr a.env) (hab : a.Enters b) :
    D.fit b.expr b.env := by
  cases hab with
  | test => exact (D.cond h).1
  | yes _ => exact (D.cond h).2.1
  | no _ => exact (D.cond h).2.2
  | callee => exact (D.apply h).1
  | arg _ _ => exact (D.apply h).2 _ (List.mem_append_right _ List.mem_cons_self)
  | body hf hvs hlen =>
    -- The closure and the arguments are results of activations that keep the discipline.
    have hclosure := D.good_of_eval (D.apply h).1 hf
    have hvalues := D.good_of_evalArgs (D.apply h).2 hvs
    exact (D.enter hclosure hvalues hlen).2

theorem fit_of_reaches {a b : Activation} (h : D.fit a.expr a.env) (hab : a.Reaches b) :
    D.fit b.expr b.env := by
  induction hab with
  | refl => exact h
  | tail _ hbc ih => exact D.fit_of_enters ih hbc

end Discipline

theorem Invariant.good_of_arises (I : Invariant) {a : Activation} {v : Value}
    (h : I.fit a.expr a.env) (hv : a.Arises v) : I.good v := by
  induction hv with
  | result hb hv => exact I.good_of_eval (I.fit_of_reaches h hb) hv
  | bound hb hf hv => exact I.holds_env (I.fit_of_reaches h hb) _ hf _ hv
  | captured _ hf hv ih => exact I.holds_captured ih _ hf _ hv

end MiniLisp
