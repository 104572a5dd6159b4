/-
  MiniLisp.Proofs.Eval.Agreement

  What a result depends on. Two values agree when they are equal, or closures of
  one function whose environments agree on the free identifiers of that function;
  two environments agree on a name when it has a value in neither, or agreeing
  values in both. Agreeing values cannot be told apart: they are displayed and
  compared as one.

  Evaluating an expression in two environments that agree on its free
  identifiers gives two runs that do the same, event by event, and that end
  alike: agreement is a `Simulation` (`agreement`). The step that has to keep it is
  the binding of parameters (`Env.AgreeOn.bind`).
-/
import MiniLisp.Proofs.Eval.Invariant
import MiniLisp.Proofs.Eval.Simulation
import MiniLisp.Proofs.Expr.Scope

namespace MiniLisp

/-! ## Values and environments that agree -/

/-- Induction on values, with a hypothesis for each value in the environment of a closure. -/
@[elab_as_elim]
theorem Value.induct {motive : Value → Prop} (num : ∀ n, motive (.num n))
    (str : ∀ s, motive (.str s)) (bool : ∀ b, motive (.bool b)) (prim : ∀ op, motive (.prim op))
    (closure : ∀ params body env, Env.Holds motive env → motive (.closure params body env))
    (failure : motive .failure) (foreign : ∀ d, motive (.foreign d)) (v : Value) : motive v :=
  @Value.rec motive (Env.Holds motive) (Frame.Holds motive) (fun b => motive b.2)
    num str bool prim closure failure foreign
    (fun _ hf => absurd hf List.not_mem_nil)
    (fun _ _ hf henv => List.forall_mem_cons.mpr ⟨hf, henv⟩)
    (fun _ hb => absurd hb List.not_mem_nil)
    (fun _ _ hb hf => List.forall_mem_cons.mpr ⟨hb, hf⟩)
    (fun _ _ hv => hv) v

/-- The values are equal, or closures of one function whose environments agree on what is free in
    the function. -/
inductive Value.Agree : Value → Value → Prop
  | num (n : Int) : Agree (.num n) (.num n)
  | str (s : Text) : Agree (.str s) (.str s)
  | bool (b : Bool) : Agree (.bool b) (.bool b)
  | prim (op : Symbol) : Agree (.prim op) (.prim op)
  | failure : Agree .failure .failure
  | foreign (d : Datum) : Agree (.foreign d) (.foreign d)
  | closure {params : List Symbol} {body : Expr} {env env' : Env}
      (h : ∀ x ∈ (Expr.lambda params body).free,
        Option.Rel Agree (Env.find? x env) (Env.find? x env')) :
      Agree (.closure params body env) (.closure params body env')

/-- Each of the names has no value in either environment, or agreeing values in both. -/
def Env.AgreeOn (names : List Symbol) (env env' : Env) : Prop :=
  ∀ x ∈ names, Option.Rel Value.Agree (env.find? x) (env'.find? x)

theorem Value.Agree.refl (v : Value) : v.Agree v := by
  induction v using Value.induct with
  | num n => exact .num n
  | str s => exact .str s
  | bool b => exact .bool b
  | prim op => exact .prim op
  | failure => exact .failure
  | foreign d => exact .foreign d
  | closure params body env henv =>
    refine .closure fun x _ => ?_
    cases hx : env.find? x with
    | none => exact .none
    | some w => exact .some (Env.good_of_find? henv hx)

theorem Env.agreeOn_of_find?_eq {names : List Symbol} {env env' : Env}
    (h : ∀ x ∈ names, env.find? x = env'.find? x) : Env.AgreeOn names env env' := by
  intro x hx
  rw [h x hx]
  cases env'.find? x with
  | none => exact .none
  | some v => exact .some (.refl v)

namespace Value.Agree

variable {v w : Value}

theorem like (h : v.Agree w) : v.Like w := by
  cases h with
  | num n => exact .num n
  | str s => exact .str s
  | bool b => exact .bool b
  | prim op => exact .prim op
  | failure => exact .failure
  | foreign d => exact .foreign d
  | closure _ => exact .closure _ _ _ _ _

theorem canonical_eq (h : v.Agree w) (depth : Nat) : v.canonical depth = w.canonical depth := by
  cases h with
  | num _ | str _ | bool _ | prim _ | failure | foreign _ => rfl
  | closure _ =>
    -- the text of a closure does not show its environment
    cases depth with
    | zero => rfl
    | succ _ => rfl

end Value.Agree

/-! ## Binding parameters -/

/-- Agreement on what is free in a function becomes agreement on what is free in its body. -/
theorem Env.AgreeOn.bind {params : List Symbol} {body : Expr} {env env' : Env}
    (h : AgreeOn (Expr.lambda params body).free env env') {vs ws : List Value}
    (hvs : List.Forall₂ Value.Agree vs ws) (hlength : params.length = vs.length) :
    AgreeOn body.free (Env.bind params vs env) (Env.bind params ws env') := by
  intro x hx
  -- A name that is not a parameter is free in the function too.
  exact Env.rel_bind hvs hlength fun hparams => h x (Expr.mem_free_lambda.mpr ⟨hx, hparams⟩)

/-! ## Two runs of one expression -/

/-- The events are of one kind, with agreeing values. -/
inductive Event.Agree : Event → Event → Prop
  | printed (line : Text) : Agree (.printed line) (.printed line)
  | created {params : List Symbol} {body : Expr} {env env' : Env}
      (h : (Value.closure params body env).Agree (.closure params body env')) :
      Agree (.created params body env) (.created params body env')
  | entered (params : List Symbol) {vs ws : List Value} (h : List.Forall₂ Value.Agree vs ws) :
      Agree (.entered params vs) (.entered params ws)
  | operated (p : Primitive) {vs ws : List Value} (h : List.Forall₂ Value.Agree vs ws) :
      Agree (.operated p vs) (.operated p ws)
  | finished (result : Text) : Agree (.finished result) (.finished result)

/-- One expression in environments that agree on what is free in it. -/
def agreement : Simulation where
  fits e env e' env' := e' = e ∧ Env.AgreeOn e.free env env'
  same := Value.Agree
  sameEvent := Event.Agree
  like h := h.like
  leaf {e e' env env'} depth h hleaf := by
    obtain ⟨rfl, h⟩ := h
    cases e' with
    | num n => exact .pure (.num n)
    | str s => exact .pure (.str s)
    | bool b => exact .pure (.bool b)
    | ident x => exact .ofExcept (Env.alike_lookup (h x (Expr.mem_free_ident.mpr rfl)))
    | foreign d =>
      rw [eval_foreign, eval_foreign]
      split
      · exact .fail _
      · exact .fail _
    | cond _ _ _ | lambda _ _ | apply _ _ => cases hleaf
  cond {test yes no e' env env'} h := by
    obtain ⟨rfl, h⟩ := h
    exact ⟨test, yes, no, rfl, ⟨rfl, fun x hx => h x (Expr.mem_free_cond.mpr (.inl hx))⟩,
      ⟨rfl, fun x hx => h x (Expr.mem_free_cond.mpr (.inr (.inl hx)))⟩,
      ⟨rfl, fun x hx => h x (Expr.mem_free_cond.mpr (.inr (.inr hx)))⟩⟩
  lambda {params body e' env env'} h := by
    -- The closures capture the environments, which agree on what is free in the function.
    obtain ⟨rfl, h⟩ := h
    exact ⟨body, rfl, .created (.closure h), .closure h⟩
  apply {callee e' args env env'} h := by
    obtain ⟨rfl, h⟩ := h
    refine ⟨callee, args, rfl, ⟨rfl, fun x hx => h x (Expr.mem_free_apply.mpr (.inl hx))⟩, ?_⟩
    exact List.forall₂_same.mpr fun e he =>
      ⟨rfl, fun x hx => h x (Expr.mem_free_apply.mpr (.inr ⟨e, he, hx⟩))⟩
  enter h hvs hlength := by
    cases h with
    | closure h => exact ⟨.entered _ hvs, rfl, Env.AgreeOn.bind h hvs hlength⟩
  prim _ hvs := Primitive.alike_applySymbol hvs (fun _ _ h => h.like) (fun v _ => .refl v)
    (fun _ _ _ h => h.canonical_eq _) .printed fun p => .operated p hvs

/-! ## What cannot be told apart -/

theorem Event.Agree.line?_eq {ev ev' : Event} (h : ev.Agree ev') : ev.line? = ev'.line? := by
  cases h <;> rfl

theorem Event.Agree.record?_eq {ev ev' : Event} (h : ev.Agree ev') : ev.record? = ev'.record? := by
  cases h with
  | printed _ | created _ | entered _ _ | finished _ => rfl
  | operated p h => rw [record?, record?, h.length_eq]

/-- The runs print the same lines, log the same records and end in the same fault or in agreeing
    values, which are displayed and compared as one. -/
structure Run.Indistinct (r r' : Run Value) : Prop where
  lines : r.lines = r'.lines
  records : r.records = r'.records
  ends : (∃ fault, r.outcome = .error fault ∧ r'.outcome = .error fault) ∨
    ∃ v w, r.outcome = .ok v ∧ r'.outcome = .ok w ∧ v.Agree w ∧ v.display = w.display ∧
      ∀ depth, v.canonical depth = w.canonical depth

theorem Run.Alike.indistinct {r r' : Run Value} (h : r.Alike Event.Agree Value.Agree r') :
    r.Indistinct r' := by
  obtain ⟨events, outcome⟩ := r
  obtain ⟨events', outcome'⟩ := r'
  obtain ⟨hevents, hends⟩ := h
  refine ⟨Run.filterMap_eq_of_forall₂ (fun _ _ h => h.line?_eq) hevents,
    Run.filterMap_eq_of_forall₂ (fun _ _ h => h.record?_eq) hevents, ?_⟩
  cases hends with
  | error fault => exact .inl ⟨fault, rfl, rfl⟩
  | ok hvw => exact .inr ⟨_, _, rfl, rfl, hvw, hvw.like.display_eq, hvw.canonical_eq⟩

/-- Lexical scope: a result depends on the values of the free identifiers only, and on those only
    as far as they agree. Other bindings, more frames and the bindings of a caller have no
    influence. -/
theorem eval_depends_on_free_identifiers (depth : Nat) (e : Expr) (env env' : Env) :
    (Env.AgreeOn e.free env env' → (eval depth e env).Indistinct (eval depth e env')) ∧
    ((∀ x ∈ e.free, env.find? x = env'.find? x) →
      (eval depth e env).Indistinct (eval depth e env')) := by
  have hagree : Env.AgreeOn e.free env env' → (eval depth e env).Indistinct (eval depth e env') :=
    fun h => ((agreement.alike depth).eval ⟨rfl, h⟩).indistinct
  exact ⟨hagree, fun h => hagree (Env.agreeOn_of_find?_eq h)⟩

/-- A function with a free identifier, called where that identifier has another value: neither the
    binding of the caller nor a frame more around the function shows. -/
theorem eval_depends_on_free_identifiers_call :
    let function (captured : Env) : Value :=
      .closure [⟨"x"⟩] (.apply (.ident ⟨"+"⟩) [.ident ⟨"x"⟩, .ident ⟨"y"⟩]) captured
    let plus : Symbol × Value := (⟨"+"⟩, .prim ⟨"+"⟩)
    let env : Env := [[(⟨"f"⟩, function [[(⟨"y"⟩, .num 1), plus]])]]
    let env' : Env := [[(⟨"y"⟩, .num 2)],
      [(⟨"f"⟩, function [[(⟨"z"⟩, .bool true)], [(⟨"y"⟩, .num 1)], [plus]])]]
    let e : Expr := .apply (.ident ⟨"f"⟩) [.num 10]
    Env.AgreeOn e.free env env' ∧ (eval 9 e env).outcome = .ok (.num 11) ∧
      (eval 9 e env).Indistinct (eval 9 e env') := by
  intro function plus env env' e
  have hfree : e.free = [⟨"f"⟩] := rfl
  have hcaptured : (Expr.lambda [⟨"x"⟩] (.apply (.ident ⟨"+"⟩) [.ident ⟨"x"⟩, .ident ⟨"y"⟩])).free =
      [⟨"+"⟩, ⟨"y"⟩] := by decide
  have hagree : Env.AgreeOn e.free env env' := by
    rw [hfree]
    refine List.forall_mem_singleton.mpr (.some (.closure ?_))
    rw [hcaptured]
    exact Env.agreeOn_of_find?_eq
      (List.forall_mem_cons.mpr ⟨rfl, List.forall_mem_singleton.mpr rfl⟩)
  exact ⟨hagree, rfl, (eval_depends_on_free_identifiers 9 e env env').1 hagree⟩

end MiniLisp
