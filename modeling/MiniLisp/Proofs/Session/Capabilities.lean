/-
  MiniLisp.Proofs.Session.Capabilities

  Built-in operations are capabilities: a program can use only those that it
  names by free identifiers. An operation may be handed on through parameters,
  closures and captured frames, and under other names, but it comes in through
  the top-level environment, and what a program takes from there it takes by a
  free identifier.

  `Value.Granted program v` says that the operations within `v` are named so.
  The top-level frame holds all operations, so not all that is bound in an
  environment is granted: only the frames before it are asked to be. What is
  looked up is granted all the same (`Expr.Places.granted_bound`), because a name
  that the frames before the top level do not bind is free in the program. That
  makes a `Discipline` (`capabilities`).
-/
import MiniLisp.Proofs.Session.Scoping

namespace MiniLisp

open MiniLisp.Expr (ofDatum)

/-! ## What a run brings up -/

/-- The values that a run brings up: the results of its activations, and what is bound in frames
    before the outermost one, which is there from the start. -/
inductive Activation.Produces (a : Activation) : Value → Prop
  | result {b : Activation} {v : Value} (hb : a.Reaches b) (hv : b.run.outcome = .ok v) :
      Produces a v
  | bound {b : Activation} {f : Frame} {x : Symbol} {v : Value} (hb : a.Reaches b)
      (hf : f ∈ b.env.dropLast) (hv : (x, v) ∈ f) : Produces a v
  | captured {params : List Symbol} {body : Expr} {env : Env} {f : Frame} {x : Symbol}
      {v : Value} (hc : Produces a (.closure params body env)) (hf : f ∈ env.dropLast)
      (hv : (x, v) ∈ f) : Produces a v

/-! ## Granted values -/

/-- Values whose operations are free identifiers of the program, also those in frames that
    closures have captured. -/
inductive Value.Granted (program : Expr) : Value → Prop
  | num (n : Int) : Granted program (.num n)
  | str (s : Text) : Granted program (.str s)
  | bool (b : Bool) : Granted program (.bool b)
  | prim {op : Symbol} (h : op ∈ program.free) : Granted program (.prim op)
  | closure {params : List Symbol} {body : Expr} {env : Env}
      (hplace : program.Places (.lambda params body) env)
      (henv : ∀ f ∈ env.dropLast, ∀ b ∈ f, Granted program b.2) :
      Granted program (.closure params body env)

/-- The operation that takes place is a free identifier of the program, and so are those among
    the values that the event has to do with. -/
def Event.Granted (program : Expr) : Event → Prop
  | .printed _ => Primitive.println.symbol ∈ program.free
  | .operated p args => p.symbol ∈ program.free ∧ ∀ v ∈ args, v.Granted program
  | .created params body env => (Value.closure params body env).Granted program
  | .entered _ args => ∀ v ∈ args, v.Granted program
  | .finished _ => True

/-- If the fault is that of an operation, then the operation is a free identifier of the
    program. -/
def Fault.Granted (program : Expr) (fault : Fault) : Prop :=
  ∀ p, fault.operation? = some p → p.symbol ∈ program.free

section

variable {program : Expr} {env : Env}

theorem Fault.granted_of_operation? {fault : Fault} (h : fault.operation? = none) :
    fault.Granted program := by
  intro p hp
  rw [h] at hp
  cases hp

theorem Event.Granted.values {ev : Event} (h : ev.Granted program) :
    ∀ v ∈ ev.values, v.Granted program := by
  cases ev with
  | printed _ | finished _ => exact fun v hv => absurd hv List.not_mem_nil
  | created params body env => exact List.forall_mem_singleton.mpr h
  | entered _ args => exact h
  | operated _ args => exact h.2

/-- Whatever an identifier stands for is granted: it was bound by a function, or the identifier is
    free and stands for the operation of its own name. -/
theorem Expr.Places.granted_bound {x : Symbol} {v : Value} (h : program.Places (.ident x) env)
    (henv : Env.Holds (Value.Granted program) env.dropLast) (hx : env.find? x = some v) :
    v.Granted program := by
  obtain ⟨frames, rfl, hplace⟩ := h
  have hframes : (frames ++ topEnv).dropLast = frames := List.dropLast_concat
  rw [hframes] at henv
  rw [Env.find?_append, Option.or_eq_some_iff] at hx
  rcases hx with hx | ⟨hnone, hx⟩
  · exact Env.good_of_find? henv hx
  · have hscopes : ∀ ps ∈ frames.map Frame.names, x ∉ ps :=
      List.forall_mem_map.mpr (Env.find?_eq_none_iff.mp hnone)
    have hfree : x ∈ program.free := Expr.mem_free_iff.mpr ⟨_, hplace, hscopes⟩
    rcases find?_topEnv_cases hx with rfl | ⟨b, rfl⟩
    · exact .prim hfree
    · exact .bool b

/-- Binding granted arguments adds a granted frame. -/
theorem Expr.Places.holds_bind {params : List Symbol} {body : Expr} {vs : List Value}
    (hplace : program.Places (.lambda params body) env)
    (henv : Env.Holds (Value.Granted program) env.dropLast) (hvs : ∀ v ∈ vs, v.Granted program) :
    Env.Holds (Value.Granted program) (Env.bind params vs env).dropLast := by
  obtain ⟨frames, rfl, -⟩ := hplace
  have hne : frames ++ topEnv ≠ [] := List.append_ne_nil_of_right_ne_nil frames (by decide)
  rw [Env.bind, List.dropLast_cons_of_ne_nil hne]
  exact Env.holds_bind henv params hvs

/-! ## Built-in operations -/

/-- A granted operation on granted arguments does, gives out and stops at nothing else. -/
theorem keeps_applySymbol_granted {depth : Nat} {op : Symbol} {args : List Value}
    (hop : op ∈ program.free) (hargs : ∀ v ∈ args, v.Granted program) :
    (Primitive.applySymbol depth op args).Keeps (Event.Granted program) (Value.Granted program)
      (Fault.Granted program) := by
  refine Primitive.keeps_applySymbol_of ?_ (Fault.granted_of_operation? rfl)
  rintro p rfl
  refine Primitive.keeps_apply_by ⟨hop, hargs⟩ ?_ ?_
  · rintro rfl line
    exact hop
  · have hdisplay (v : Value) : Ends (fun _ => True) (Fault.Granted program) v.display :=
      Primitive.ends_display_of (Fault.granted_of_operation? rfl)
        (fun _ => Fault.granted_of_operation? rfl) v
    refine Primitive.ends_compute_by depth p (Value.of_isScalar .num .str .bool) (fun _ => hargs) ?_
      (Fault.granted_of_operation? rfl) (Fault.granted_of_operation? rfl) fun v _ => hdisplay v
    intro fault hfault q hq
    obtain rfl : p = q := Option.some.inj (hfault.symm.trans hq)
    exact hop

end

/-! ## Whole runs -/

/-- Evaluating the parts of a canonical program with granted values. -/
def capabilities {program : Expr} (hprogram : program.Canonical) : Discipline where
  fit e env := program.Places e env ∧ Env.Holds (Value.Granted program) env.dropLast
  good := Value.Granted program
  noted := Event.Granted program
  allowed := Fault.Granted program
  num _ := .num _
  str _ := .str _
  bool _ := .bool _
  bound h hx := h.1.granted_bound h.2 hx
  unbound _ _ := Fault.granted_of_operation? rfl
  cond h := by
    obtain ⟨htest, hyes, hno⟩ := h.1.cond
    exact ⟨⟨htest, h.2⟩, ⟨hyes, h.2⟩, ⟨hno, h.2⟩⟩
  lambda h := ⟨.closure h.1 h.2, .closure h.1 h.2⟩
  apply h := by
    obtain ⟨hcallee, hargs⟩ := h.1.apply
    exact ⟨⟨hcallee, h.2⟩, fun e he => ⟨hargs e he, h.2⟩⟩
  not_foreign h := by
    obtain ⟨frames, -, hplace⟩ := h.1
    cases hprogram.of_occurs hplace
  enter h hvs hlength := by
    cases h with
    | closure hplace henv =>
      exact ⟨hvs, hplace.body hprogram hlength, hplace.holds_bind henv hvs⟩
  prim h hvs := by
    cases h with
    | prim hop => exact keeps_applySymbol_granted hop hvs
  tooDeep := Fault.granted_of_operation? rfl
  condition := Fault.granted_of_operation? rfl
  notFunction := Fault.granted_of_operation? rfl
  callArity _ _ := Fault.granted_of_operation? rfl

/-- The program starts with no frame before the top level. -/
theorem capabilities_fit_topEnv {e : Expr} (he : e.Canonical) : (capabilities he).fit e topEnv :=
  ⟨⟨[], rfl, .whole⟩, fun _ hf => absurd hf List.not_mem_nil⟩

theorem granted_of_produces {program : Expr} (hprogram : program.Canonical) {a : Activation}
    {v : Value} (h : (capabilities hprogram).fit a.expr a.env) (hv : a.Produces v) :
    v.Granted program := by
  have hfit {b : Activation} (hb : a.Reaches b) : (capabilities hprogram).fit b.expr b.env :=
    (capabilities hprogram).fit_of_reaches h hb
  induction hv with
  | result hb hv => exact (capabilities hprogram).good_of_eval (hfit hb) hv
  | bound hb hf hv => exact (hfit hb).2 _ hf _ hv
  | captured _ hf hv ih =>
    cases ih with
    | closure _ henv => exact henv _ hf _ hv

/-- Nothing is printed where `println` is not granted. -/
theorem line?_eq_none_of_granted {program : Expr} {ev : Event} (h : ev.Granted program)
    (hprintln : Primitive.println.symbol ∉ program.free) : ev.line? = none := by
  cases ev with
  | printed line => exact absurd h hprintln
  | created _ _ _ | entered _ _ | operated _ _ | finished _ => rfl

theorem Fault.Granted.of_kind_user {program : Expr} {fault : Fault} (h : fault.Granted program)
    (hkind : fault.kind = .user) : Primitive.raise.symbol ∈ program.free := by
  cases fault with
  | user text => exact h .raise rfl
  | _ => cases hkind

theorem Fault.Granted.of_kind_zeroDivision {program : Expr} {fault : Fault}
    (h : fault.Granted program) (hkind : fault.kind = .zeroDivision) :
    Primitive.div.symbol ∈ program.free := by
  cases fault with
  | zeroDivision => exact h .div rfl
  | _ => cases hkind

/-- Every operation that a run applies, and every operation among the values that it brings up or
    that its events have to do with, is a free identifier of the program, under whatever names it
    was handed on. So a program in which `println` is not free prints nothing, one in which `error`
    is not free does not report a failure of its own, and one in which `/` is not free does not
    divide by zero, no matter how it ends. -/
theorem operations_are_free_identifiers {depth : Nat} {form : Datum} {e : Expr}
    (hparse : ofDatum depth form = .ok e) (limit : Nat) :
    (∀ p args, .operated p args ∈ (eval limit e topEnv).events → p.symbol ∈ e.free) ∧
    (∀ op, (Activation.Produces ⟨limit, e, topEnv⟩ (.prim op) ∨
        ∃ ev ∈ (eval limit e topEnv).events, .prim op ∈ ev.values) → op ∈ e.free) ∧
    (Primitive.println.symbol ∉ e.free → (eval limit e topEnv).lines = []) ∧
    (Primitive.raise.symbol ∉ e.free →
      ∀ fault, (eval limit e topEnv).outcome = .error fault → fault.kind ≠ .user) ∧
    (Primitive.div.symbol ∉ e.free →
      ∀ fault, (eval limit e topEnv).outcome = .error fault → fault.kind ≠ .zeroDivision) := by
  have he := canonical_of_ofDatum hparse
  have hfit := capabilities_fit_topEnv he
  obtain ⟨hevents, hends⟩ := (capabilities he).keeps_eval limit hfit
  refine ⟨?_, ?_, ?_, ?_, ?_⟩
  · intro p args hev
    exact (hevents _ hev).1
  · intro op hop
    have hgranted : (Value.prim op).Granted e := by
      rcases hop with hproduces | ⟨ev, hev, hop⟩
      · exact granted_of_produces he hfit hproduces
      · exact Event.Granted.values (hevents ev hev) _ hop
    cases hgranted with
    | prim hfree => exact hfree
  · intro hprintln
    exact List.filterMap_eq_nil_iff.mpr fun ev hev =>
      line?_eq_none_of_granted (hevents ev hev) hprintln
  · intro hraise fault hfault hkind
    exact hraise (Fault.Granted.of_kind_user (hends.allowed_of_eq_error hfault) hkind)
  · intro hdiv fault hfault hkind
    exact hdiv (Fault.Granted.of_kind_zeroDivision (hends.allowed_of_eq_error hfault) hkind)

/-- `println` handed on under another name, by a program that prints and then fails; and a program
    without `println` and `error` that divides by zero under another name. -/
theorem operations_are_free_identifiers_renamed :
    let e : Expr := .apply
      (.lambda [⟨"p"⟩] (.apply (.ident ⟨"p"⟩) [.apply (.ident ⟨"p"⟩) [.str "a"]]))
      [.ident ⟨"println"⟩]
    let e' : Expr := .apply
      (.lambda [⟨"f"⟩] (.apply (.ident ⟨"f"⟩) [.num 1, .num 0])) [.ident ⟨"/"⟩]
    .operated .println [.str "a"] ∈ (eval 9 e topEnv).events ∧
      Activation.Produces ⟨9, e, topEnv⟩ (.prim ⟨"println"⟩) ∧ ⟨"println"⟩ ∈ e.free ∧
      (eval 9 e topEnv).outcome = .error (.printKind "Bool") ∧
      (eval 9 e' topEnv).outcome = .error .zeroDivision ∧ Primitive.div.symbol ∈ e'.free ∧
      Primitive.println.symbol ∉ e'.free ∧ (eval 9 e' topEnv).lines = [] := by
  intro e e'
  let d : Datum := .list [.list [.list [.sym ⟨"p"⟩], .sym ⟨"=>"⟩,
    .list [.sym ⟨"p"⟩, .list [.sym ⟨"p"⟩, .str "a"]]], .sym ⟨"println"⟩]
  let d' : Datum := .list [.list [.list [.sym ⟨"f"⟩], .sym ⟨"=>"⟩,
    .list [.sym ⟨"f"⟩, .int 1, .int 0]], .sym ⟨"/"⟩]
  have hparse : ofDatum 12 d = .ok e := rfl
  have hparse' : ofDatum 9 d' = .ok e' := rfl
  have hoperated : .operated .println [.str "a"] ∈ (eval 9 e topEnv).events :=
    List.mem_cons_of_mem _ (List.mem_cons_of_mem _ List.mem_cons_self)
  -- The argument is the first activation that has the operation for its result.
  have hargument : Activation.Reaches ⟨9, e, topEnv⟩ ⟨7, .ident ⟨"println"⟩, topEnv⟩ :=
    .single (@Activation.Enters.arg 7 _ _ [] [] topEnv _ [] rfl rfl)
  have hproduces : Activation.Produces ⟨9, e, topEnv⟩ (.prim ⟨"println"⟩) :=
    .result hargument rfl
  have hdivision : (eval 9 e' topEnv).outcome = .error .zeroDivision := rfl
  have hprintln : Primitive.println.symbol ∉ e'.free := by decide
  obtain ⟨-, hvalues, -⟩ := operations_are_free_identifiers hparse 9
  obtain ⟨-, -, hlines, -, -⟩ := operations_are_free_identifiers hparse' 9
  refine ⟨hoperated, hproduces, hvalues _ (.inl hproduces), rfl, hdivision, by decide, hprintln,
    hlines hprintln⟩

end MiniLisp
