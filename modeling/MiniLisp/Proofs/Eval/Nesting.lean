/-
  MiniLisp.Proofs.Eval.Nesting

  How deep an evaluation nests. `Settles run need a` says of a run at every depth
  that it prints nothing, that it has the result `a` where at least `need` nested
  activations are allowed, and that any smaller depth stops it.

  The needs add up along the evaluator's own recursion: what is done one after the
  other takes the greater of the two needs (`Settles.bind`), and entering an
  activation takes one more (`Settles.enter`). There is one rule for each kind of
  expression and of call, so the value of a program and the depth that it takes are
  found together.
-/
import MiniLisp.Proofs.Env.Names
import MiniLisp.Proofs.Eval.Application

namespace MiniLisp

open Run (bind_of_outcome_ok bind_of_outcome_error)

variable {α β : Type}

/-- At every depth the run prints nothing; it has the result where `need` nested activations are
    allowed, and is stopped where they are not. -/
def Settles (run : Nat → Run α) (need : Nat) (a : α) : Prop :=
  ∀ depth, (run depth).outcome = within need depth a ∧ (run depth).lines = []

namespace Settles

variable {run : Nat → Run α} {need need' : Nat} {a : α}

theorem of_eq (h : Settles run need a) (hneed : need = need') : Settles run need' a := hneed ▸ h

theorem pure (a : α) : Settles (fun _ => Pure.pure a) 0 a := fun _ => ⟨rfl, rfl⟩

/-- A run that enters an activation and goes on as another takes one activation more. -/
theorem enter {run' : Nat → Run α} (h : Settles run need a) (hzero : run' 0 = .fail .tooDeep)
    (hsucc : ∀ depth, run' (depth + 1) = run depth) : Settles run' (need + 1) a := by
  intro depth
  cases depth with
  | zero =>
    rw [hzero]
    exact ⟨rfl, rfl⟩
  | succ depth =>
    rw [hsucc, within_succ]
    exact h depth

/-- Something that happens without a printed line does not count. -/
theorem after_event {e : Event} (h : Settles run need a) (he : e.line? = none) :
    Settles (fun depth => Run.emit e >>= fun _ => run depth) need a := by
  intro depth
  obtain ⟨hends, hlines⟩ := h depth
  refine ⟨hends, ?_⟩
  show ([e] ++ (run depth).events).filterMap Event.line? = []
  rw [List.filterMap_append, List.filterMap_cons_none he]
  exact hlines

/-- What is done one after the other takes the greater of the two needs. -/
theorem bind {next : α → Nat → Run β} {b : β} (h : Settles run need a)
    (hnext : Settles (next a) need' b) :
    Settles (fun depth => run depth >>= fun x => next x depth) (max need need') b := by
  intro depth
  obtain ⟨hends, hlines⟩ := h depth
  obtain ⟨hends', hlines'⟩ := hnext depth
  dsimp only
  by_cases hneed : need ≤ depth
  · have hok : (run depth).outcome = .ok a := by rw [hends, within, if_pos hneed]
    rw [bind_of_outcome_ok hok]
    refine ⟨?_, ?_⟩
    · rw [hends', within, within]
      simp only [Nat.max_le, hneed, true_and]
    · show ((run depth).events ++ (next a depth).events).filterMap Event.line? = []
      rw [List.filterMap_append]
      exact List.append_eq_nil_iff.mpr ⟨hlines, hlines'⟩
  · have hfail : (run depth).outcome = .error .tooDeep := by rw [hends, within, if_neg hneed]
    have hmax : ¬max need need' ≤ depth := by omega
    rw [bind_of_outcome_error hfail, within, if_neg hmax]
    exact ⟨rfl, hlines⟩

theorem map (f : α → β) (h : Settles run need a) :
    Settles (fun depth => f <$> run depth) need (f a) := by
  have hbind : Settles (fun depth => run depth >>= fun x => Pure.pure (f x)) (max need 0) (f a) :=
    h.bind (.pure (f a))
  rwa [Nat.max_zero] at hbind

end Settles

/-! ## The rules of evaluation -/

section

variable {env : Env} {need need' need'' : Nat} {v : Value}

theorem settles_num (n : Int) (env : Env) : Settles (eval · (.num n) env) 1 (.num n) :=
  (Settles.pure (Value.num n)).enter rfl fun _ => rfl

theorem settles_ident {x : Symbol} (h : env.find? x = some v) :
    Settles (eval · (.ident x) env) 1 v := by
  refine (Settles.pure v).enter rfl fun depth => ?_
  rw [eval_ident, Env.lookup_eq_ok_iff.mpr h]
  rfl

theorem settles_lambda (params : List Symbol) (body : Expr) (env : Env) :
    Settles (eval · (.lambda params body) env) 1 (.closure params body env) :=
  ((Settles.pure (Value.closure params body env)).after_event rfl).enter rfl fun _ => rfl

/-- Of a conditional, the test and the branch that it picks are evaluated. -/
theorem settles_cond {test yes no : Expr} {b : Bool}
    (htest : Settles (eval · test env) need (.bool b))
    (hbranch : Settles (eval · (if b then yes else no) env) need' v) :
    Settles (eval · (.cond test yes no) env) (max need need' + 1) v := by
  cases b with
  | true => exact (htest.bind hbranch).enter rfl fun _ => rfl
  | false => exact (htest.bind hbranch).enter rfl fun _ => rfl

/-- The expressions have the values, one by one, and together take the greatest of their needs. -/
inductive SettlesAll (env : Env) : List Expr → Nat → List Value → Prop
  | nil : SettlesAll env [] 0 []
  | cons {e : Expr} {es : List Expr} {need need' : Nat} {v : Value} {vs : List Value}
      (h : Settles (eval · e env) need v) (hs : SettlesAll env es need' vs) :
      SettlesAll env (e :: es) (max need need') (v :: vs)

/-- Arguments take one activation more than the one of them that takes most. -/
theorem settles_evalArgs {es : List Expr} {vs : List Value} (h : SettlesAll env es need vs) :
    Settles (evalArgs · es env) (need + 1) vs := by
  have hvalues : Settles (fun depth => es.mapM fun e => eval depth e env) need vs := by
    induction h with
    | nil => exact .pure []
    | @cons e es need need' v vs h _ ih =>
      simp only [List.mapM_cons, bind_pure_comp]
      exact h.bind (ih.map (v :: ·))
  exact hvalues.enter rfl fun _ => rfl

/-- The callee, the arguments and the call take place one after the other. -/
theorem settles_apply {callee : Expr} {args : List Expr} {f : Value} {vs : List Value}
    (hcallee : Settles (eval · callee env) need f) (hargs : SettlesAll env args need' vs)
    (hcall : Settles (apply · f vs) need'' v) :
    Settles (eval · (.apply callee args) env) (max need (max (need' + 1) need'') + 1) v := by
  exact (hcallee.bind ((settles_evalArgs hargs).bind hcall)).enter rfl fun _ => rfl

/-- A built-in operation that needs no room nests no further. -/
theorem settles_apply_prim {p : Primitive} {vs : List Value}
    (h : ∀ depth, p.compute depth vs = .ok v) (hsilent : p.output vs = []) :
    Settles (apply · (.prim p.symbol) vs) 1 v := by
  refine ((Settles.pure v).after_event (e := .operated p vs) rfl).enter rfl fun depth => ?_
  rw [apply_prim, Primitive.applySymbol_symbol, Primitive.apply_eq, h, hsilent]
  rfl

/-- Calling a closure takes one activation more than its body does. -/
theorem settles_apply_closure {params : List Symbol} {body : Expr} {vs : List Value}
    (hlength : params.length = vs.length)
    (hbody : Settles (eval · body (Env.bind params vs env)) need v) :
    Settles (apply · (.closure params body env) vs) (need + 1) v := by
  refine (hbody.after_event (e := .entered params vs) rfl).enter rfl fun depth => ?_
  rw [apply_closure, if_pos hlength, Env.extend, if_pos hlength]
  rfl

/-- An operation, under its own name, on two expressions with numbers for their values. -/
theorem settles_operation (p : Primitive) {left right : Expr} {m n : Int}
    (hp : env.find? p.symbol = some (.prim p.symbol))
    (hleft : Settles (eval · left env) need (.num m))
    (hright : Settles (eval · right env) need' (.num n))
    (hv : ∀ depth, p.compute depth [.num m, .num n] = .ok v) :
    Settles (eval · (.apply (.ident p.symbol) [left, right]) env) (max need need' + 2) v := by
  have hsilent : p.output [.num m, .num n] = [] := by cases p <;> rfl
  have hcall : Settles (apply · (.prim p.symbol) [.num m, .num n]) 1 v :=
    settles_apply_prim hv hsilent
  exact (settles_apply (settles_ident hp) (.cons hleft (.cons hright .nil)) hcall).of_eq (by omega)

end

end MiniLisp
