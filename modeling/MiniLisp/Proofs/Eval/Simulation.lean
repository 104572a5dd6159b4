/-
  MiniLisp.Proofs.Eval.Simulation

  Two runs side by side, step for step. A `Simulation` relates expressions with
  their environments, values and events of one run to those of another, in a way
  that each rule of evaluation keeps; then the two runs go through related events
  and end alike (`Simulation.alike`).

  Values that are related must at least be `Like` each other: equal, or two
  closures with the same parameters. That much makes them displayed as one, and
  all that the built-in operations do is the same on both sides
  (`Primitive.alike_applySymbol`), but for `seq`, which hands an argument on, and
  `equal?`, which looks into closures.
-/
import MiniLisp.Eval
import MiniLisp.Proofs.Env.Names
import MiniLisp.Proofs.Primitive.Result

namespace MiniLisp

variable {same : Value → Value → Prop}

/-! ## Values of one kind -/

/-- The values are equal, or closures with the same parameters. -/
inductive Value.Like : Value → Value → Prop
  | num (n : Int) : Like (.num n) (.num n)
  | str (s : Text) : Like (.str s) (.str s)
  | bool (b : Bool) : Like (.bool b) (.bool b)
  | prim (op : Symbol) : Like (.prim op) (.prim op)
  | failure : Like .failure .failure
  | foreign (d : Datum) : Like (.foreign d) (.foreign d)
  | closure (params : List Symbol) (body body' : Expr) (env env' : Env) :
      Like (.closure params body env) (.closure params body' env')

namespace Value.Like

variable {v w : Value}

theorem display_eq (h : v.Like w) : v.display = w.display := by
  cases h <;> rfl

theorem part_eq (h : v.Like w) : Primitive.part v = Primitive.part w := by
  cases h <;> rfl

end Value.Like

/-! ## Built-in operations on such values -/

namespace Primitive

variable {vs ws : List Value}

theorem numbers_eq_of_like (p : Primitive) (h : List.Forall₂ Value.Like vs ws) :
    numbers p vs = numbers p ws := by
  match h with
  | .nil => rfl
  | .cons _ .nil => rfl
  | .cons hv (.cons hw .nil) =>
    -- The two operands are numbers on both sides or on neither, and their kinds are the same.
    cases hv <;> cases hw <;> rfl
  | .cons _ (.cons _ (.cons _ hrest)) =>
    simp only [numbers, List.length_cons, hrest.length_eq]

theorem joined_eq_of_like (h : List.Forall₂ Value.Like vs ws) : joined vs = joined ws := by
  have hparts : vs.mapM part = ws.mapM part := by
    induction h with
    | nil => rfl
    | cons hv _ ih => rw [List.mapM_cons, List.mapM_cons, hv.part_eq, ih]
  rw [joined, joined, hparts]

/-- But for `seq`, an operation has the same result on arguments that are like each other, and,
    if it is `equal?`, have the same canonical texts. -/
theorem compute_eq_of_like {depth : Nat} {p : Primitive} (hp : p ≠ .seq)
    (h : List.Forall₂ Value.Like vs ws) (hcanonical : p = .same →
      List.Forall₂ (fun v w => v.canonical depth = w.canonical depth) vs ws) :
    compute depth p vs = compute depth p ws := by
  have hlength : vs.length = ws.length := h.length_eq
  have hnumbers := numbers_eq_of_like p h
  cases p with
  | add | sub | mul | div | atMost => simp only [compute, hnumbers]
  | same =>
    match hcanonical rfl with
    | .nil => rfl
    | .cons _ .nil => rfl
    | .cons hv (.cons hw .nil) => simp only [compute, hv, hw]
    | .cons _ (.cons _ (.cons _ _)) => simp only [compute, hlength]
  | println =>
    match h with
    | .nil => rfl
    | .cons hv .nil => cases hv <;> rfl
    | .cons _ (.cons _ _) => simp only [compute, hlength]
  | seq => exact absurd rfl hp
  | concat =>
    have hempty : vs.isEmpty = ws.isEmpty := by cases h <;> rfl
    simp only [compute, hempty, hlength, joined_eq_of_like h]
  | raise =>
    match h with
    | .nil => rfl
    | .cons hv .nil => simp only [compute, hv.display_eq]
    | .cons _ (.cons _ _) => simp only [compute, hlength]

/-- `seq` gives out its last argument, on both sides. -/
theorem alike_compute_seq (depth : Nat) (h : List.Forall₂ same vs ws) :
    Alike same (compute depth .seq vs) (compute depth .seq ws) := by
  have hlast : Option.Rel same vs.getLast? ws.getLast? := by
    rw [← List.head?_reverse, ← List.head?_reverse]
    have hreverse := List.rel_reverse h
    generalize vs.reverse = xs, ws.reverse = ys at hreverse
    cases hreverse with
    | nil => exact .none
    | cons hv _ => exact .some hv
  unfold compute
  dsimp only
  rw [h.length_eq]
  generalize vs.getLast? = last, ws.getLast? = last' at hlast
  cases hlast with
  | none => exact .error _
  | some hv => exact .ok hv

/-- But for `seq`, an operation has nothing but scalars for results. -/
theorem ends_compute_isScalar (depth : Nat) {p : Primitive} (hp : p ≠ .seq)
    (args : List Value) :
    Ends (fun v => v.isScalar = true) (fun _ => True) (compute depth p args) := by
  refine ends_compute_by depth p (fun _ h => h) (fun h => absurd h hp) (fun _ _ => trivial) trivial
    trivial ?_
  intro v _
  cases v.display with
  | ok _ => exact .ok trivial
  | error _ => exact .error trivial

theorem output_eq_of_like (p : Primitive) (h : List.Forall₂ Value.Like vs ws) :
    output p vs = output p ws := by
  cases p with
  | println =>
    match h with
    | .nil => rfl
    | .cons hv .nil => cases hv <;> rfl
    | .cons _ (.cons _ _) => simp only [output]
  | add | sub | mul | div | atMost | same | seq | concat | raise => rfl

/-- An operation does the same on related arguments, and ends alike. -/
theorem alike_applySymbol {sameEvent : Event → Event → Prop} {depth : Nat} {op : Symbol}
    (h : List.Forall₂ same vs ws) (hlike : ∀ v w, same v w → v.Like w)
    (hscalars : ∀ v : Value, v.isScalar = true → same v v)
    (hcanonical : op = Primitive.same.symbol →
      ∀ v w, same v w → v.canonical depth = w.canonical depth)
    (hprinted : ∀ line, sameEvent (.printed line) (.printed line))
    (hoperated : ∀ p, sameEvent (.operated p vs) (.operated p ws)) :
    (applySymbol depth op vs).Alike sameEvent same (applySymbol depth op ws) := by
  have hlikes : List.Forall₂ Value.Like vs ws := h.imp hlike
  cases hp : ofSymbol? op with
  | none =>
    rw [applySymbol_of_unknown hp, applySymbol_of_unknown hp]
    exact .fail _
  | some p =>
    rw [applySymbol_of_ofSymbol? hp, applySymbol_of_ofSymbol? hp, apply_eq, apply_eq]
    have houtput : List.Forall₂ sameEvent (output p vs) (output p ws) := by
      rw [output_eq_of_like p hlikes]
      unfold output
      split
      · exact .cons (hprinted _) .nil
      · exact .nil
    refine ⟨.cons (hoperated p) houtput, ?_⟩
    by_cases hseq : p = .seq
    · subst hseq
      exact alike_compute_seq depth h
    · have htexts : p = .same →
          List.Forall₂ (fun v w => v.canonical depth = w.canonical depth) vs ws := by
        rintro rfl
        exact h.imp (hcanonical (symbol_of_ofSymbol? hp).symm)
      have heq : compute depth p vs = compute depth p ws := compute_eq_of_like hseq hlikes htexts
      rw [heq]
      exact .of_ends (ends_compute_isScalar depth hseq ws) hscalars

end Primitive

/-! ## Related environments -/

/-- Of two options the first that is there, on both sides. -/
theorem rel_or {a b c d : Option Value} (hab : Option.Rel same a b)
    (hcd : a = none → Option.Rel same c d) : Option.Rel same (a.or c) (b.or d) := by
  cases hab with
  | none => exact hcd rfl
  | some h => exact .some h

theorem Frame.rel_insert {f f' : Frame} (hf : ∀ y, Option.Rel same (find? y f) (find? y f'))
    {v w : Value} (h : same v w) (x y : Symbol) :
    Option.Rel same (find? y (insert x v f)) (find? y (insert x w f')) := by
  rw [find?_insert, find?_insert]
  split
  · exact .some h
  · exact hf y

theorem Frame.rel_ofPairs {vs ws : List Value} (h : List.Forall₂ same vs ws)
    (params : List Symbol) (y : Symbol) :
    Option.Rel same (find? y (ofPairs (params.zip vs))) (find? y (ofPairs (params.zip ws))) := by
  have hfold : ∀ f f' : Frame, (∀ y, Option.Rel same (find? y f) (find? y f')) →
      Option.Rel same
        (find? y ((params.zip vs).foldl (fun f p => insert p.1 p.2 f) f))
        (find? y ((params.zip ws).foldl (fun f p => insert p.1 p.2 f) f')) := by
    induction h generalizing params with
    | nil =>
      intro f f' hf
      rw [List.zip_nil_right]
      exact hf y
    | cons hv _ ih =>
      intro f f' hf
      cases params with
      | nil => exact hf y
      | cons x params => exact ih params _ _ (rel_insert hf hv x)
  exact hfold [] [] fun _ => .none

/-- A parameter has related values in the two new frames; any other name is looked up behind
    them. -/
theorem Env.rel_bind {params : List Symbol} {vs ws : List Value} {env env' : Env} {x : Symbol}
    (hvs : List.Forall₂ same vs ws) (hlength : params.length = vs.length)
    (h : x ∉ params → Option.Rel same (env.find? x) (env'.find? x)) :
    Option.Rel same ((Env.bind params vs env).find? x) ((Env.bind params ws env').find? x) := by
  have hzip : (params.zip vs).map Prod.fst = params := List.map_fst_zip (Nat.le_of_eq hlength)
  have hnames : Frame.find? x (Frame.ofPairs (params.zip vs)) = none ↔ x ∉ params := by
    rw [Frame.find?_eq_none_iff, Frame.mem_names_ofPairs, hzip]
  exact rel_or (Frame.rel_ofPairs hvs params x) fun hnone => h (hnames.mp hnone)

theorem Env.alike_lookup {env env' : Env} {x : Symbol}
    (h : Option.Rel same (env.find? x) (env'.find? x)) :
    Alike same (env.lookup x) (env'.lookup x) := by
  rw [lookup, lookup]
  generalize env.find? x = v, env'.find? x = w at h
  cases h with
  | none => exact .error _
  | some h => exact .ok h

/-! ## Simulations -/

/-- An expression that is evaluated without evaluating another. -/
def Expr.isLeaf : Expr → Bool
  | .num _ | .str _ | .bool _ | .ident _ | .foreign _ => true
  | .cond _ _ _ | .lambda _ _ | .apply _ _ => false

/-- What the rules of evaluation keep of two runs: `fits` of two expressions with their
    environments, `same` of values and `sameEvent` of events. -/
structure Simulation where
  fits : Expr → Env → Expr → Env → Prop
  same : Value → Value → Prop
  sameEvent : Event → Event → Prop
  like {v w : Value} : same v w → v.Like w
  leaf {e e' : Expr} {env env' : Env} (depth : Nat) : fits e env e' env' → e.isLeaf = true →
    (eval (depth + 1) e env).Alike sameEvent same (eval (depth + 1) e' env')
  cond {test yes no e' : Expr} {env env' : Env} : fits (.cond test yes no) env e' env' →
    ∃ test' yes' no', e' = .cond test' yes' no' ∧ fits test env test' env' ∧
      fits yes env yes' env' ∧ fits no env no' env'
  lambda {params : List Symbol} {body e' : Expr} {env env' : Env} :
    fits (.lambda params body) env e' env' →
    ∃ body', e' = .lambda params body' ∧
      sameEvent (.created params body env) (.created params body' env') ∧
      same (.closure params body env) (.closure params body' env')
  apply {callee e' : Expr} {args : List Expr} {env env' : Env} :
    fits (.apply callee args) env e' env' →
    ∃ callee' args', e' = .apply callee' args' ∧ fits callee env callee' env' ∧
      List.Forall₂ (fun e e' => fits e env e' env') args args'
  enter {params : List Symbol} {body body' : Expr} {env env' : Env} {vs ws : List Value} :
    same (.closure params body env) (.closure params body' env') → List.Forall₂ same vs ws →
    params.length = vs.length → sameEvent (.entered params vs) (.entered params ws) ∧
      fits body (Env.bind params vs env) body' (Env.bind params ws env')
  prim {depth : Nat} {op : Symbol} {vs ws : List Value} : same (.prim op) (.prim op) →
    List.Forall₂ same vs ws →
    (Primitive.applySymbol depth op vs).Alike sameEvent same (Primitive.applySymbol depth op ws)

namespace Simulation

/-- Related expressions, arguments and applications run alike at this depth. -/
structure RunsAlike (S : Simulation) (depth : Nat) : Prop where
  eval {e e' : Expr} {env env' : Env} : S.fits e env e' env' →
    (MiniLisp.eval depth e env).Alike S.sameEvent S.same (MiniLisp.eval depth e' env')
  args {es es' : List Expr} {env env' : Env} :
    List.Forall₂ (fun e e' => S.fits e env e' env') es es' →
    (evalArgs depth es env).Alike S.sameEvent (List.Forall₂ S.same) (evalArgs depth es' env')
  apply {f g : Value} {vs ws : List Value} : S.same f g → List.Forall₂ S.same vs ws →
    (MiniLisp.apply depth f vs).Alike S.sameEvent S.same (MiniLisp.apply depth g ws)

variable {S : Simulation} {depth : Nat}

theorem RunsAlike.eval_succ (ih : S.RunsAlike depth) {e e' : Expr} {env env' : Env}
    (h : S.fits e env e' env') :
    (MiniLisp.eval (depth + 1) e env).Alike S.sameEvent S.same
      (MiniLisp.eval (depth + 1) e' env') := by
  cases e with
  | num _ | str _ | bool _ | ident _ | foreign _ => exact S.leaf depth h rfl
  | cond test yes no =>
    obtain ⟨test', yes', no', rfl, htest, hyes, hno⟩ := S.cond h
    refine (ih.eval htest).bind fun v w hvw => ?_
    -- The two tests are like each other, so both are the same truth value or neither is one.
    cases S.like hvw with
    | bool b =>
      cases b with
      | true => exact ih.eval hyes
      | false => exact ih.eval hno
    | num _ | str _ | prim _ | failure | foreign _ | closure _ _ _ _ _ => exact .fail .condition
  | lambda params body =>
    obtain ⟨body', rfl, hcreated, hclosure⟩ := S.lambda h
    exact (Run.Alike.emit hcreated).bind fun _ _ _ => .pure hclosure
  | apply callee args =>
    obtain ⟨callee', args', rfl, hcallee, hargs⟩ := S.apply h
    refine (ih.eval hcallee).bind fun f g hfg => ?_
    refine (ih.args hargs).bind fun vs ws hvs => ?_
    exact ih.apply hfg hvs

theorem RunsAlike.apply_succ (ih : S.RunsAlike depth) {f g : Value} {vs ws : List Value}
    (hfg : S.same f g) (hvs : List.Forall₂ S.same vs ws) :
    (MiniLisp.apply (depth + 1) f vs).Alike S.sameEvent S.same
      (MiniLisp.apply (depth + 1) g ws) := by
  have hlengths : vs.length = ws.length := hvs.length_eq
  cases S.like hfg with
  | prim op => exact S.prim hfg hvs
  | closure params body body' env env' =>
    rw [apply_closure, apply_closure, ← hlengths]
    by_cases hlength : params.length = vs.length
    · obtain ⟨hentered, hbody⟩ := S.enter hfg hvs hlength
      simp only [if_pos hlength, Env.extend, ← hlengths]
      exact (Run.Alike.emit hentered).bind fun _ _ _ => ih.eval hbody
    · rw [if_neg hlength, if_neg hlength]
      exact .fail _
  | num _ | str _ | bool _ | failure | foreign _ => exact .fail .notFunction

/-- What is related runs alike at every depth. -/
theorem alike (S : Simulation) (depth : Nat) : S.RunsAlike depth := by
  induction depth with
  | zero => exact ⟨fun _ => .fail .tooDeep, fun _ => .fail .tooDeep, fun _ _ => .fail .tooDeep⟩
  | succ depth ih =>
    exact ⟨ih.eval_succ, fun h => .mapM (h.imp fun _ _ he => ih.eval he), ih.apply_succ⟩

end Simulation

end MiniLisp
