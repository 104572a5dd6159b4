/-
  MiniLisp.Proofs.Session.Beta

  Calling a function and writing its body out. A function that is applied to
  literals does what its body does with the literals in the place of the
  parameters, except that `equal?` can tell the two apart: closures made on the
  way have other bodies.

  `Value.Instance v w` says that `w` is `v` with literals written in the place of
  some of the names that its functions have captured, and that `equal?` is not
  among the values within. It forms a `Simulation` (`instantiation`) between an
  expression in an environment that binds those names and the expression with the
  literals in an environment that need not bind them.
-/
import MiniLisp.Proofs.Eval.Depth
import MiniLisp.Proofs.Eval.Simulation
import MiniLisp.Proofs.Expr.Scope
import MiniLisp.Proofs.Expr.Substitution
import MiniLisp.Proofs.Session.TopLevel

namespace MiniLisp

/-! ## Values with literals written in -/

/-- The second value is the first with literals in the place of captured names. -/
inductive Value.Instance : Value → Value → Prop
  | num (n : Int) : Instance (.num n) (.num n)
  | str (s : Text) : Instance (.str s) (.str s)
  | bool (b : Bool) : Instance (.bool b) (.bool b)
  | failure : Instance .failure .failure
  | foreign (d : Datum) : Instance (.foreign d) (.foreign d)
  | prim {op : Symbol} (h : op ≠ Primitive.same.symbol) : Instance (.prim op) (.prim op)
  | closure {params : List Symbol} {body : Expr} {env env' : Env} (σ : Substitution)
      (hliterals : ∀ x ∈ (Expr.lambda params body).free, ∀ l, σ x = some l →
        Env.find? x env = some l.value)
      (hrest : ∀ x ∈ (Expr.lambda params body).free, σ x = none →
        Option.Rel Instance (Env.find? x env) (Env.find? x env')) :
      Instance (.closure params body env) (.closure params (body.subst (σ.without params)) env')

/-- Each of the names has the value of its literal in the first environment, if it has a literal,
    and otherwise corresponding values in both or none in either. -/
structure Env.InstanceOn (σ : Substitution) (names : List Symbol) (env env' : Env) : Prop where
  literals : ∀ x ∈ names, ∀ l, σ x = some l → env.find? x = some l.value
  rest : ∀ x ∈ names, σ x = none → Option.Rel Value.Instance (env.find? x) (env'.find? x)

theorem Value.Instance.like {v w : Value} (h : v.Instance w) : v.Like w := by
  cases h with
  | num n => exact .num n
  | str s => exact .str s
  | bool b => exact .bool b
  | failure => exact .failure
  | foreign d => exact .foreign d
  | prim _ => exact .prim _
  | closure _ _ _ => exact .closure _ _ _ _ _

theorem Literal.instance_value (l : Literal) : l.value.Instance l.value := by
  cases l with
  | num n => exact .num n
  | str s => exact .str s

/-- A literal stands for its value. -/
theorem Literal.eval_expr (l : Literal) (depth : Nat) (env : Env) :
    eval (depth + 1) l.expr env = pure l.value := by
  cases l with
  | num _ | str _ => rfl

/-! ## The steps of evaluation -/

namespace Env.InstanceOn

variable {σ : Substitution} {env env' : Env}

theorem mono {names names' : List Symbol} (h : InstanceOn σ names env env')
    (hsub : ∀ x ∈ names', x ∈ names) : InstanceOn σ names' env env' :=
  ⟨fun x hx => h.literals x (hsub x hx), fun x hx => h.rest x (hsub x hx)⟩

/-- Parameters hide the literals of their names. -/
theorem bind {params : List Symbol} {body : Expr}
    (h : InstanceOn σ (Expr.lambda params body).free env env') {vs ws : List Value}
    (hvs : List.Forall₂ Value.Instance vs ws) (hlength : params.length = vs.length) :
    InstanceOn (σ.without params) body.free (Env.bind params vs env) (Env.bind params ws env') where
  literals x hx l hl := by
    by_cases hparams : x ∈ params
    · rw [Substitution.without_of_mem hparams] at hl
      cases hl
    · rw [Substitution.without_of_not_mem hparams] at hl
      rw [Env.find?_bind_of_not_mem hparams]
      exact h.literals x (Expr.mem_free_lambda.mpr ⟨hx, hparams⟩) l hl
  rest x hx hnone := by
    refine Env.rel_bind hvs hlength fun hparams => ?_
    rw [Substitution.without_of_not_mem hparams] at hnone
    exact h.rest x (Expr.mem_free_lambda.mpr ⟨hx, hparams⟩) hnone

end Env.InstanceOn

/-- An identifier, or the literal in its place. -/
theorem alike_eval_ident {sameEvent : Event → Event → Prop} {σ : Substitution} {env env' : Env}
    {x : Symbol} (h : Env.InstanceOn σ (Expr.ident x).free env env') (depth : Nat) :
    (eval (depth + 1) (.ident x) env).Alike sameEvent Value.Instance
      (eval (depth + 1) ((Expr.ident x).subst σ) env') := by
  have hx : x ∈ (Expr.ident x).free := Expr.mem_free_ident.mpr rfl
  rw [Expr.subst]
  cases hσ : σ x with
  | none => exact .ofExcept (Env.alike_lookup (h.rest x hx hσ))
  | some l =>
    have hlookup : env.lookup x = .ok l.value := by rw [Env.lookup, h.literals x hx l hσ]
    rw [eval_ident, hlookup, Option.elim_some, l.eval_expr]
    exact .pure l.instance_value

/-- An expression where some names are bound to the values of literals, and the expression with
    those literals written in. -/
def instantiation : Simulation where
  fits e env e' env' := ∃ σ, e' = e.subst σ ∧ Env.InstanceOn σ e.free env env'
  same := Value.Instance
  sameEvent ev ev' := ev.line? = ev'.line?
  like h := h.like
  leaf {e e' env env'} depth h hleaf := by
    obtain ⟨σ, rfl, h⟩ := h
    cases e with
    | num n => exact .pure (.num n)
    | str s => exact .pure (.str s)
    | bool b => exact .pure (.bool b)
    | ident x => exact alike_eval_ident h depth
    | foreign d =>
      rw [Expr.subst, eval_foreign, eval_foreign]
      split
      · exact .fail _
      · exact .fail _
    | cond _ _ _ | lambda _ _ | apply _ _ => cases hleaf
  cond h := by
    obtain ⟨σ, rfl, h⟩ := h
    exact ⟨_, _, _, rfl, ⟨σ, rfl, h.mono fun x hx => Expr.mem_free_cond.mpr (.inl hx)⟩,
      ⟨σ, rfl, h.mono fun x hx => Expr.mem_free_cond.mpr (.inr (.inl hx))⟩,
      ⟨σ, rfl, h.mono fun x hx => Expr.mem_free_cond.mpr (.inr (.inr hx))⟩⟩
  lambda h := by
    obtain ⟨σ, rfl, h⟩ := h
    exact ⟨_, rfl, rfl, .closure σ h.literals h.rest⟩
  apply {callee e' args env env'} h := by
    obtain ⟨σ, rfl, h⟩ := h
    refine ⟨_, _, rfl, ⟨σ, rfl, h.mono fun x hx => Expr.mem_free_apply.mpr (.inl hx)⟩, ?_⟩
    rw [Expr.substAll_eq_map, List.forall₂_map_right_iff]
    exact List.forall₂_same.mpr fun e he =>
      ⟨σ, rfl, h.mono fun x hx => Expr.mem_free_apply.mpr (.inr ⟨e, he, hx⟩)⟩
  enter h hvs hlength := by
    cases h with
    | closure σ hliterals hrest =>
      exact ⟨rfl, _, rfl, Env.InstanceOn.bind ⟨hliterals, hrest⟩ hvs hlength⟩
  prim h hvs := by
    -- `equal?` is not among the values, and no other operation looks into closures.
    cases h with
    | prim hop =>
      exact Primitive.alike_applySymbol hvs (fun _ _ h => h.like)
        (Value.of_isScalar .num .str .bool) (fun heq => absurd heq hop) (fun _ => rfl)
        fun _ => rfl

/-! ## A function and its literals -/

theorem evalArgs_literals (depth : Nat) (ls : List Literal) (env : Env) :
    evalArgs (depth + 2) (ls.map Literal.expr) env = pure (ls.map Literal.value) := by
  rw [evalArgs_succ]
  induction ls with
  | nil => rfl
  | cons l ls ih =>
    rw [List.map_cons, List.mapM_cons, l.eval_expr, pure_bind, ih, pure_bind, List.map_cons]

/-- Applying a function to as many literals as it has parameters makes a closure and enters it; the
    rest is the run of its body. -/
theorem eval_redex (depth : Nat) {params : List Symbol} {ls : List Literal} (body : Expr)
    (env : Env) (hlength : params.length = ls.length) :
    let vs := ls.map Literal.value
    let r := eval (depth + 1) body (Env.bind params vs env)
    eval (depth + 3) (.apply (.lambda params body) (ls.map Literal.expr)) env =
      ⟨.created params body env :: .entered params vs :: r.events, r.outcome⟩ := by
  intro vs r
  have hvs : params.length = vs.length := by rw [List.length_map, hlength]
  have hlambda : eval (depth + 2) (.lambda params body) env =
      ⟨[.created params body env], .ok (.closure params body env)⟩ := rfl
  have hcall : apply (depth + 2) (.closure params body env) vs =
      ⟨.entered params vs :: r.events, r.outcome⟩ := by
    rw [apply_closure, if_pos hvs, Env.extend, if_pos hvs]
    rfl
  rw [eval_apply, hlambda, Run.bind_ok, evalArgs_literals, pure_bind, hcall]
  rfl

/-- The frame of the parameters binds the names that have literals, to their values. -/
theorem find?_zip_literals (x : Symbol) (params : List Symbol) (ls : List Literal) :
    Frame.find? x (params.zip (ls.map Literal.value)) =
      (Substitution.ofParams params ls x).map Literal.value := by
  induction params generalizing ls with
  | nil => rfl
  | cons y params ih =>
    cases ls with
    | nil => rfl
    | cons l ls =>
      simp only [List.map_cons, List.zip_cons_cons, Frame.find?, Substitution.ofParams]
      split
      · rfl
      · exact ih ls

/-- The body of a function within the new frame, and with the literals at the top level. -/
theorem instanceOn_topEnv {params : List Symbol} {ls : List Literal} {body : Expr}
    (hparams : params.Nodup) (hlength : params.length = ls.length)
    (hequal : Primitive.same.symbol ∉ (Expr.lambda params body).free) :
    Env.InstanceOn (.ofParams params ls) body.free
      (Env.bind params (ls.map Literal.value) topEnv) topEnv where
  literals x _ l hl := by
    have hnames : (params.zip (ls.map Literal.value)).map Prod.fst = params :=
      List.map_fst_zip (Nat.le_of_eq (by rw [List.length_map, hlength]))
    rw [Env.bind, Frame.ofPairs_of_nodup (by rwa [hnames]), Env.find?, find?_zip_literals, hl]
    rfl
  rest x hx hnone := by
    have hnot : x ∉ params := fun h => Substitution.ofParams_ne_none hlength h hnone
    rw [Env.find?_bind_of_not_mem hnot]
    cases htop : topEnv.find? x with
    | none => exact .none
    | some v =>
      -- The top level binds `equal?` to itself only, and `equal?` is not free in the function.
      rcases find?_topEnv_cases htop with rfl | ⟨b, rfl⟩
      · refine .some (.prim ?_)
        rintro rfl
        exact hequal (Expr.mem_free_lambda.mpr ⟨hx, hnot⟩)
      · exact .some (.bool b)

/-! ## The two runs -/

/-- The runs print the same lines, and end in the same fault or in values that are displayed as
    one. -/
def Run.ReportsAlike (r r' : Run Value) : Prop :=
  r.lines = r'.lines ∧ MiniLisp.Alike (fun v w => v.display = w.display) r.outcome r'.outcome

theorem reportsAlike_of_alike {r r' : Run Value}
    (h : r.Alike instantiation.sameEvent instantiation.same r') : r.ReportsAlike r' :=
  ⟨Run.filterMap_eq_of_forall₂ (fun _ _ h => h) h.1, h.2.mono fun _ _ hvw => hvw.like.display_eq⟩

/-- Two activations more are what the call takes, at any depth. -/
theorem reportsAlike_redex {params : List Symbol} {ls : List Literal} {body : Expr}
    (hparams : params.Nodup) (hlength : params.length = ls.length)
    (hequal : Primitive.same.symbol ∉ (Expr.lambda params body).free) (depth : Nat) :
    (eval (depth + 2) (.apply (.lambda params body) (ls.map Literal.expr)) topEnv).ReportsAlike
      (eval depth (body.subst (.ofParams params ls)) topEnv) := by
  cases depth with
  | zero =>
    -- With no activation left for the body, both runs stop before they print anything.
    cases ls with
    | nil =>
      obtain rfl : params = [] := List.eq_nil_of_length_eq_zero hlength
      exact ⟨rfl, .error .tooDeep⟩
    | cons l ls => exact ⟨rfl, .error .tooDeep⟩
  | succ depth =>
    have hruns := (instantiation.alike (depth + 1)).eval
      ⟨_, rfl, instanceOn_topEnv hparams hlength hequal⟩
    obtain ⟨hlines, hends⟩ := reportsAlike_of_alike hruns
    rw [eval_redex depth body topEnv hlength]
    exact ⟨hlines, hends⟩

/-- Applying a function to literals at the top level is reported like its body with the literals
    in the place of the parameters: the same lines are printed, and the end is the same fault or a
    value that is displayed in the same way. The call takes two activations more, and any depths
    that are enough for the two give the same. The function may not use `equal?`, which compares
    functions by their texts. -/
theorem call_with_literals_as_substitution {params : List Symbol} {ls : List Literal} {body : Expr}
    (hparams : params.Nodup) (hlength : params.length = ls.length)
    (hequal : Primitive.same.symbol ∉ (Expr.lambda params body).free) :
    let redex : Expr := .apply (.lambda params body) (ls.map Literal.expr)
    let reduct : Expr := body.subst (.ofParams params ls)
    (∀ depth, (eval (depth + 2) redex topEnv).ReportsAlike (eval depth reduct topEnv)) ∧
    (∀ n m, (eval n redex topEnv).outcome ≠ .error .tooDeep →
      (eval m reduct topEnv).outcome ≠ .error .tooDeep →
      (eval n redex topEnv).ReportsAlike (eval m reduct topEnv)) := by
  intro redex reduct
  have hstep := reportsAlike_redex hparams hlength hequal
  refine ⟨hstep, ?_⟩
  intro n m hn hm
  match n with
  | 0 => exact absurd rfl hn
  | 1 => exact absurd rfl hn
  | depth + 2 =>
    have hreports := hstep depth
    -- The call is enough for its body, so the two depths for the body come to the same.
    have hdepth : (eval depth reduct topEnv).outcome ≠ .error .tooDeep :=
      fun h => hn (hreports.2.error_left h)
    rw [← eval_eq_of_ne_tooDeep hdepth hm]
    exact hreports

/-- A parameter that a function within rebinds, and one that a closure captures: the literal of the
    first is not put under the inner function, and the closures have different bodies. -/
theorem call_with_literals_as_substitution_shadowed :
    let x : Symbol := ⟨"x"⟩
    let y : Symbol := ⟨"y"⟩
    let join (e : Expr) : Expr := .apply (.ident ⟨"++"⟩) [.ident x, e]
    let inner (e : Expr) : Expr := .lambda [x] (.apply (.ident ⟨"seq"⟩)
      [.apply (.ident ⟨"println"⟩) [join e], .lambda [] e])
    let body : Expr := .apply (inner (.ident y)) [.ident x]
    let redex : Expr := .apply (.lambda [x, y] body) [.str "a", .str "b"]
    let reduct : Expr := .apply (inner (.str "b")) [.str "a"]
    [x, y].Nodup ∧ Primitive.same.symbol ∉ (Expr.lambda [x, y] body).free ∧
      body.subst (.ofParams [x, y] [.str "a", .str "b"]) = reduct ∧
      (eval 20 redex topEnv).lines = ["ab"] ∧
      (eval 20 redex topEnv).ReportsAlike (eval 15 reduct topEnv) := by
  intro x y join inner body redex reduct
  have hparams : [x, y].Nodup := by decide
  have hequal : Primitive.same.symbol ∉ (Expr.lambda [x, y] body).free := by decide
  have hlaw := @call_with_literals_as_substitution [x, y] [.str "a", .str "b"] body hparams rfl
    hequal
  have hredex : (eval 20 redex topEnv).outcome ≠ .error .tooDeep := by
    intro h
    cases h
  have hreduct : (eval 15 reduct topEnv).outcome ≠ .error .tooDeep := by
    intro h
    cases h
  exact ⟨hparams, hequal, rfl, rfl, hlaw.2 20 15 hredex hreduct⟩

end MiniLisp
