/-
  MiniLisp.Proofs.Eval.Depth

  The bound on nesting cuts runs off and does nothing else. `Run.Cut r r'` says
  that `r` is `r'`, or was stopped by the bound after a first part of the events
  of `r'`. It is carried through `bind` and `mapM`, because nothing that follows
  a stopped run takes place; so a run at some depth is a cut of the run at any
  greater depth (`cutsOff_of_le`). `Shortens` says the same of computations
  without events, such as making the texts that `equal?` compares.
-/
import MiniLisp.Eval

namespace MiniLisp

variable {α β : Type}

namespace Run

/-- The first run is the second one, or stopped at the bound on nesting on the way. -/
inductive Cut : Run α → Run α → Prop
  | whole (r : Run α) : Cut r r
  | stopped {events : List Event} {r : Run α} (h : events <+: r.events) :
      Cut ⟨events, .error .tooDeep⟩ r

/-- What happened in a run has happened, whatever follows. -/
theorem events_prefix_bind (r : Run α) (next : α → Run β) : r.events <+: (r >>= next).events := by
  rcases r with ⟨events, fault | a⟩
  · exact List.prefix_refl events
  · exact List.prefix_append events (next a).events

namespace Cut

theorem tooDeep (r : Run α) : Cut (.fail .tooDeep) r := .stopped List.nil_prefix

theorem bind {r r' : Run α} {next next' : α → Run β} (h : r.Cut r')
    (hnext : ∀ a, (next a).Cut (next' a)) : (r >>= next).Cut (r' >>= next') := by
  cases h with
  | stopped h => exact .stopped (h.trans (events_prefix_bind _ next'))
  | whole =>
    rcases r with ⟨events, fault | a⟩
    · exact .whole _
    · have hmore := hnext a
      rw [bind_ok, bind_ok]
      generalize next a = more, next' a = more' at hmore
      cases hmore with
      | whole => exact .whole _
      | stopped h => exact .stopped ((List.prefix_append_right_inj events).mpr h)

theorem mapM {γ : Type} {f f' : γ → Run α} {xs : List γ} (h : ∀ x, (f x).Cut (f' x)) :
    (xs.mapM f).Cut (xs.mapM f') := by
  induction xs with
  | nil =>
    rw [List.mapM_nil, List.mapM_nil]
    exact .whole _
  | cons x xs ih =>
    rw [List.mapM_cons, List.mapM_cons]
    exact (h x).bind fun y => ih.bind fun ys => .whole _

variable {r r' : Run α}

/-- A run that ended by itself is the same at the greater depth. -/
theorem eq_of_ne_tooDeep (h : r.Cut r') (hends : r.outcome ≠ .error .tooDeep) : r' = r := by
  cases h with
  | whole => rfl
  | stopped _ => exact absurd rfl hends

theorem events_prefix (h : r.Cut r') : r.events <+: r'.events := by
  cases h with
  | whole => exact List.prefix_refl _
  | stopped h => exact h

end Cut

end Run

/-! ## Computations without events -/

/-- The first computation ends as the second does, unless it stops at the bound on nesting. -/
def Shortens (r r' : Except Fault α) : Prop := r = .error .tooDeep ∨ r = r'

namespace Shortens

theorem refl (r : Except Fault α) : Shortens r r := .inr rfl

theorem bind {r r' : Except Fault α} {f f' : α → Except Fault β} (h : Shortens r r')
    (hf : ∀ a, Shortens (f a) (f' a)) : Shortens (r >>= f) (r' >>= f') := by
  rcases h with rfl | rfl
  · exact .inl rfl
  · cases r with
    | error fault => exact .inr rfl
    | ok a => exact hf a

theorem mapM {f f' : α → Except Fault β} (h : ∀ x, Shortens (f x) (f' x)) (xs : List α) :
    Shortens (xs.mapM f) (xs.mapM f') := by
  induction xs with
  | nil =>
    rw [List.mapM_nil, List.mapM_nil]
    exact .refl _
  | cons x xs ih =>
    rw [List.mapM_cons, List.mapM_cons]
    exact (h x).bind fun y => ih.bind fun ys => .refl _

/-- As a run without events. -/
theorem cut {r r' : Except Fault α} (h : Shortens r r') :
    (Run.ofExcept r).Cut (Run.ofExcept r') := by
  rcases h with rfl | rfl
  · exact .tooDeep _
  · exact .whole _

end Shortens

/-! ## Built-in operations at two depths -/

theorem shortens_canonical_expr {n m : Nat} (h : n ≤ m) (e : Expr) :
    Shortens (e.canonical n) (e.canonical m) := by
  induction n generalizing m e with
  | zero => exact .inl rfl
  | succ n ih =>
    obtain ⟨m, rfl⟩ : ∃ k, m = k + 1 := ⟨m - 1, by omega⟩
    have hparts (e : Expr) : Shortens (e.canonical n) (e.canonical m) := ih (by omega) e
    cases e with
    | num _ | str _ | bool _ | ident _ | foreign _ => exact .refl _
    | cond test yes no =>
      exact (hparts test).bind fun _ => (hparts yes).bind fun _ => (hparts no).bind fun _ => .refl _
    | lambda params body => exact (hparts body).bind fun _ => .refl _
    | apply callee args =>
      exact (hparts callee).bind fun _ => (Shortens.mapM hparts args).bind fun _ => .refl _

theorem shortens_canonical {n m : Nat} (h : n ≤ m) (v : Value) :
    Shortens (v.canonical n) (v.canonical m) := by
  cases n with
  | zero => exact .inl rfl
  | succ n =>
    obtain ⟨m, rfl⟩ : ∃ k, m = k + 1 := ⟨m - 1, by omega⟩
    cases v with
    | num _ | str _ | bool _ | prim _ | failure | foreign _ => exact .refl _
    | closure params body env =>
      exact (shortens_canonical_expr (Nat.le_of_succ_le_succ h) body).bind fun _ => .refl _

namespace Primitive

/-- Only `equal?` looks at the bound. -/
theorem shortens_compute {n m : Nat} (h : n ≤ m) (p : Primitive) (args : List Value) :
    Shortens (p.compute n args) (p.compute m args) := by
  cases p with
  | same =>
    unfold compute
    dsimp only
    split
    · exact (shortens_canonical h _).bind fun _ => (shortens_canonical h _).bind fun _ => .refl _
    · exact .refl _
  | add | sub | mul | div | atMost | println | seq | concat | raise => exact .refl _

theorem cut_applySymbol {n m : Nat} (h : n ≤ m) (op : Symbol) (args : List Value) :
    (applySymbol n op args).Cut (applySymbol m op args) := by
  cases hp : ofSymbol? op with
  | none =>
    rw [applySymbol_of_unknown hp, applySymbol_of_unknown hp]
    exact .whole _
  | some p =>
    rw [applySymbol_of_ofSymbol? hp, applySymbol_of_ofSymbol? hp, apply_eq, apply_eq]
    obtain hdeep | hsame := shortens_compute h p args
    · rw [hdeep]
      exact .stopped (List.prefix_refl _)
    · rw [hsame]
      exact .whole _

end Primitive

/-! ## Evaluation at two depths -/

/-- Expressions, arguments and applications at depth `n` are cuts of those at depth `m`. -/
structure CutsOff (n m : Nat) : Prop where
  eval (e : Expr) (env : Env) : (eval n e env).Cut (eval m e env)
  args (es : List Expr) (env : Env) : (evalArgs n es env).Cut (evalArgs m es env)
  apply (f : Value) (vs : List Value) : (apply n f vs).Cut (apply m f vs)

theorem CutsOff.eval_succ {n m : Nat} (h : CutsOff n m) (e : Expr) (env : Env) :
    (MiniLisp.eval (n + 1) e env).Cut (MiniLisp.eval (m + 1) e env) := by
  cases e with
  | num _ | str _ | bool _ | ident _ | lambda _ _ | foreign _ => exact .whole _
  | cond test yes no =>
    refine (h.eval test env).bind fun v => ?_
    split
    · exact h.eval yes env
    · exact h.eval no env
    · exact .whole _
  | apply callee args =>
    exact (h.eval callee env).bind fun f => (h.args args env).bind fun vs => h.apply f vs

theorem CutsOff.apply_succ {n m : Nat} (h : CutsOff n m) (hle : n ≤ m) (f : Value)
    (vs : List Value) :
    (MiniLisp.apply (n + 1) f vs).Cut (MiniLisp.apply (m + 1) f vs) := by
  cases f with
  | closure params body env =>
    rw [apply_closure, apply_closure]
    split
    · -- The body is all that nests further.
      exact (Run.Cut.whole _).bind fun _ => (Run.Cut.whole _).bind fun inner => h.eval body inner
    · exact .whole _
  | prim op => exact Primitive.cut_applySymbol hle op vs
  | num _ | str _ | bool _ | failure | foreign _ => exact .whole _

/-- A greater depth goes on where a smaller one stops. -/
theorem cutsOff_of_le {n m : Nat} (h : n ≤ m) : CutsOff n m := by
  induction n generalizing m with
  | zero => exact ⟨fun _ _ => .tooDeep _, fun _ _ => .tooDeep _, fun _ _ => .tooDeep _⟩
  | succ n ih =>
    obtain ⟨m, rfl⟩ : ∃ k, m = k + 1 := ⟨m - 1, by omega⟩
    have hle : n ≤ m := Nat.le_of_succ_le_succ h
    have hcuts : CutsOff n m := ih hle
    exact ⟨hcuts.eval_succ, fun es env => .mapM fun e => hcuts.eval e env, hcuts.apply_succ hle⟩

/-- Any two depths that are enough give the same run. -/
theorem eval_eq_of_ne_tooDeep {n m : Nat} {e : Expr} {env : Env}
    (hn : (eval n e env).outcome ≠ .error .tooDeep)
    (hm : (eval m e env).outcome ≠ .error .tooDeep) : eval n e env = eval m e env := by
  rcases Nat.le_total n m with h | h
  · exact (((cutsOff_of_le h).eval e env).eq_of_ne_tooDeep hn).symm
  · exact ((cutsOff_of_le h).eval e env).eq_of_ne_tooDeep hm

/-- Allowing more nesting changes nothing about a run that ends by itself, in a value or in any
    fault but that of nesting too deep: it does the same, prints the same lines and ends in the
    same way. A run that is stopped has printed a first part of the lines that are printed when
    more nesting is allowed. -/
theorem depth_only_cuts_off {n m : Nat} (h : n ≤ m) (e : Expr) (env : Env) :
    ((eval n e env).outcome ≠ .error .tooDeep →
      (eval m e env).outcome = (eval n e env).outcome ∧
      (eval m e env).lines = (eval n e env).lines ∧
      (eval m e env).events = (eval n e env).events) ∧
    ((eval n e env).outcome = .error .tooDeep →
      (eval n e env).lines <+: (eval m e env).lines ∧
      (eval n e env).events <+: (eval m e env).events) := by
  have hcut : (eval n e env).Cut (eval m e env) := (cutsOff_of_le h).eval e env
  refine ⟨?_, ?_⟩
  · intro hends
    rw [hcut.eq_of_ne_tooDeep hends]
    exact ⟨rfl, rfl, rfl⟩
  · intro _
    exact ⟨hcut.events_prefix.filterMap _, hcut.events_prefix⟩

/-- A function that prints a line and calls itself without end is cut off later when more nesting
    is allowed; one that stops at a division by zero after it printed is not affected. -/
theorem depth_only_cuts_off_loop :
    let print : Expr := .apply (.ident ⟨"println"⟩) [.str "a"]
    let loop : Expr := .lambda [⟨"f"⟩]
      (.apply (.ident ⟨"seq"⟩) [print, .apply (.ident ⟨"f"⟩) [.ident ⟨"f"⟩]])
    let e : Expr := .apply loop [loop]
    let e' : Expr := .apply (.ident ⟨"seq"⟩) [print, .apply (.ident ⟨"/"⟩) [.num 1, .num 0]]
    let env : Env := [[(⟨"println"⟩, .prim ⟨"println"⟩), (⟨"seq"⟩, .prim ⟨"seq"⟩),
      (⟨"/"⟩, .prim ⟨"/"⟩)]]
    (eval 9 e env).outcome = .error .tooDeep ∧ (eval 9 e env).lines = [Text.ofString "a"] ∧
      (eval 20 e env).lines = List.replicate 4 (Text.ofString "a") ∧
      (eval 9 e env).lines <+: (eval 20 e env).lines ∧
      (eval 9 e' env).outcome = .error .zeroDivision ∧
      (eval 20 e' env).outcome = .error .zeroDivision ∧
      (eval 20 e' env).lines = [Text.ofString "a"] := by
  intro print loop e e' env
  have hle : 9 ≤ 20 := by decide
  have hstopped : (eval 9 e env).outcome = .error .tooDeep := rfl
  have hprefix := (depth_only_cuts_off hle e env).2 hstopped
  have hdivision : (eval 9 e' env).outcome = .error .zeroDivision := rfl
  have hends : (eval 9 e' env).outcome ≠ .error .tooDeep := by
    rw [hdivision]
    simp
  have hsame := (depth_only_cuts_off hle e' env).1 hends
  exact ⟨hstopped, rfl, rfl, hprefix.1, hdivision, hsame.1.trans hdivision, hsame.2.1⟩

end MiniLisp
