/-
  MiniLisp.Proofs.Machine.Morphism

  What does not depend on the machine. A morphism takes the computations of one
  machine to those of another and keeps what computations are made of: results,
  sequence, faults and events.

  Evaluation is written in these terms alone, so a morphism keeps all of it: a
  built-in operation (`Hom.applySymbol`), the evaluation of an expression at every
  depth (`Hom.eval`), and whole programs (`Hom.runForms`, `Hom.runText`).
-/
import MiniLisp.Session

namespace MiniLisp.Machine

/-- A translation of the computations of one machine to those of another. -/
structure Hom (m n : Type → Type) [Machine m] [Machine n] where
  map {α : Type} : m α → n α
  pure {α : Type} (a : α) : map (Pure.pure a) = Pure.pure a
  bind {α β : Type} (x : m α) (f : α → m β) : map (x >>= f) = map x >>= fun a => map (f a)
  ofExcept {α : Type} (r : Except Fault α) : map (Machine.ofExcept r) = Machine.ofExcept r
  emit (e : Event) : map (Machine.emit e) = Machine.emit e

namespace Hom

variable {m n : Type → Type} [Machine m] [Machine n] (F : Hom m n) {α β : Type}

theorem fail (fault : Fault) : F.map (Machine.fail fault : m α) = Machine.fail fault :=
  F.ofExcept _

/-- A sequence is kept if its second part is. -/
theorem bind_eq {x : m α} {f : α → m β} {x' : n α} {f' : α → n β} (hx : F.map x = x')
    (hf : ∀ a, F.map (f a) = f' a) : F.map (x >>= f) = x' >>= f' := by
  rw [F.bind, hx, funext hf]

theorem forM {f : α → m PUnit} {f' : α → n PUnit} (h : ∀ a, F.map (f a) = f' a) (xs : List α) :
    F.map (xs.forM f) = xs.forM f' := by
  induction xs with
  | nil => exact F.pure _
  | cons x xs ih => exact F.bind_eq (h x) fun _ => ih

theorem mapM {f : α → m β} {f' : α → n β} (h : ∀ a, F.map (f a) = f' a) (xs : List α) :
    F.map (xs.mapM f) = xs.mapM f' := by
  -- The results so far are carried along.
  have hloop : ∀ done, F.map (List.mapM.loop f xs done) = List.mapM.loop f' xs done := by
    induction xs with
    | nil => exact fun done => F.pure _
    | cons x xs ih => exact fun done => F.bind_eq (h x) fun b => ih (b :: done)
  exact hloop []

/-! ## Built-in operations -/

theorem operate (depth : Nat) (p : Primitive) (args : List Value) :
    F.map (Machine.operate depth p args) = Machine.operate depth p args :=
  F.bind_eq (F.emit _) fun _ => F.bind_eq (F.forM F.emit _) fun _ => F.ofExcept _

theorem applySymbol (depth : Nat) (op : Symbol) (args : List Value) :
    F.map (Machine.applySymbol depth op args) = Machine.applySymbol depth op args := by
  unfold Machine.applySymbol
  split
  · exact F.operate depth _ args
  · exact F.fail _

/-! ## Evaluation -/

/-- Evaluation at this depth is kept, of expressions, of arguments and of applications. -/
structure KeepsEval (depth : Nat) : Prop where
  eval (e : Expr) (env : Env) : F.map (Machine.eval depth e env) = Machine.eval depth e env
  args (es : List Expr) (env : Env) :
    F.map (Machine.evalArgs depth es env) = Machine.evalArgs depth es env
  apply (f : Value) (vs : List Value) : F.map (Machine.apply depth f vs) = Machine.apply depth f vs

variable {F} {depth : Nat}

theorem KeepsEval.eval_succ (ih : F.KeepsEval depth) (e : Expr) (env : Env) :
    F.map (Machine.eval (depth + 1) e env) = Machine.eval (depth + 1) e env := by
  cases e with
  | num _ | str _ | bool _ => exact F.pure _
  | ident _ => exact F.ofExcept _
  | cond test yes no =>
    refine F.bind_eq (ih.eval test env) fun v => ?_
    cases v with
    | bool b =>
      cases b with
      | true => exact ih.eval yes env
      | false => exact ih.eval no env
    | num _ | str _ | prim _ | closure _ _ _ | failure | foreign _ => exact F.fail _
  | lambda params body => exact F.bind_eq (F.emit _) fun _ => F.pure _
  | apply callee args =>
    exact F.bind_eq (ih.eval callee env) fun f =>
      F.bind_eq (ih.args args env) fun vs => ih.apply f vs
  | foreign d =>
    rw [Machine.eval, Machine.eval]
    split
    · exact F.fail _
    · exact F.fail _

theorem KeepsEval.apply_succ (ih : F.KeepsEval depth) (f : Value) (vs : List Value) :
    F.map (Machine.apply (depth + 1) f vs) = Machine.apply (depth + 1) f vs := by
  cases f with
  | prim op => exact F.applySymbol depth op vs
  | closure params body env =>
    rw [Machine.apply, Machine.apply]
    split
    · exact F.bind_eq (F.emit _) fun _ =>
        F.bind_eq (F.ofExcept _) fun inner => ih.eval body inner
    · exact F.fail _
  | num _ | str _ | bool _ | failure | foreign _ => exact F.fail _

variable (F) (depth)

theorem keepsEval : F.KeepsEval depth := by
  induction depth with
  | zero => exact ⟨fun _ _ => F.fail _, fun _ _ => F.fail _, fun _ _ => F.fail _⟩
  | succ depth ih =>
    exact ⟨ih.eval_succ, fun es env => F.mapM (fun e => ih.eval e env) es, ih.apply_succ⟩

theorem eval (e : Expr) (env : Env) :
    F.map (Machine.eval depth e env) = Machine.eval depth e env :=
  (F.keepsEval depth).eval e env

/-! ## Programs -/

theorem interpret (env : Env) (form : Datum) :
    F.map (Machine.interpret depth env form) = Machine.interpret depth env form :=
  F.bind_eq (F.ofExcept _) fun e => F.eval depth e env

theorem report (env : Env) (form : Datum) :
    F.map (Machine.report depth env form) = Machine.report depth env form :=
  F.bind_eq (F.interpret depth env form) fun _ => F.ofExcept _

theorem runForms (env : Env) (forms : List Datum) :
    F.map (Machine.runForms depth env forms) = Machine.runForms depth env forms :=
  F.mapM (fun form => F.bind_eq (F.report depth env form) fun _ =>
    F.bind_eq (F.emit _) fun _ => F.pure _) forms

theorem runText [Host] (env : Env) (source : Text) :
    F.map (Machine.runText depth env source) = Machine.runText depth env source :=
  F.bind_eq (F.ofExcept _) fun forms => F.runForms depth env forms

end Hom

end MiniLisp.Machine
