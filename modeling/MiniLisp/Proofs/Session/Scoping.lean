/-
  MiniLisp.Proofs.Session.Scoping

  Lexical scope, seen from the program text. Whatever is evaluated in the course
  of a run is a part of the program, and where the part stands tells the shape of
  its environment: one frame for each function around it, the innermost first,
  which binds just the parameters of that function, and behind them the
  top-level frame. How often and from where functions are called does not show.

  `Expr.Places program e env` states this of a part and an environment, and
  `Value.Placed` of the functions in values. They form an `Invariant`
  (`placement`) of every program that came out of the parser; that parameters
  are distinct is what makes the names of a frame the parameters, in their order.

  Two results are read off the invariant: which names can be without a value in
  a run, and what the environment of a closure looks like.
-/
import MiniLisp.Proofs.Expr.Scope
import MiniLisp.Proofs.Parser.Unparse
import MiniLisp.Proofs.Primitive.Result
import MiniLisp.Proofs.Session.TopLevel

namespace MiniLisp

open MiniLisp.Expr (ofDatum)

/-! ## Parts of canonical programs -/

/-- A part of a canonical expression is canonical. -/
theorem Expr.Canonical.of_occurs {program e : Expr} {scopes : List (List Symbol)}
    (hprogram : program.Canonical) (h : program.Occurs scopes e) : e.Canonical := by
  induction h with
  | whole => exact hprogram
  | test _ ih => cases ih with | cond htest _ _ => exact htest
  | yes _ ih => cases ih with | cond _ hyes _ => exact hyes
  | no _ ih => cases ih with | cond _ _ hno => exact hno
  | body _ ih => cases ih with | lambda _ hbody => exact hbody
  | callee _ ih => cases ih with | apply hcallee _ _ _ => exact hcallee
  | arg _ harg ih => cases ih with | apply _ hargs _ _ => exact hargs _ harg

/-! ## Places and environments -/

/-- The expression stands in the program, and the environment has a frame for each function around
    it, before the top-level frame. -/
def Expr.Places (program e : Expr) (env : Env) : Prop :=
  ∃ frames : List Frame, env = frames ++ topEnv ∧ program.Occurs (frames.map Frame.names) e

/-- Values whose functions stand in the program, each with an environment of the shape of its
    place. -/
inductive Value.Placed (program : Expr) : Value → Prop
  | num (n : Int) : Placed program (.num n)
  | str (s : Text) : Placed program (.str s)
  | bool (b : Bool) : Placed program (.bool b)
  | prim (op : Symbol) : Placed program (.prim op)
  | closure {params : List Symbol} {body : Expr} {env : Env}
      (hplace : program.Places (.lambda params body) env)
      (henv : ∀ f ∈ env, ∀ b ∈ f, Placed program b.2) : Placed program (.closure params body env)

/-- The values that an event has to do with. -/
def Event.values : Event → List Value
  | .printed _ | .finished _ => []
  | .created params body env => [.closure params body env]
  | .entered _ args | .operated _ args => args

/-- A name without a value stands in the program at a place where it is not bound, neither by a
    function nor at the top level. -/
def Fault.Scoped (program : Expr) (fault : Fault) : Prop :=
  fault.kind = .name → ∃ x scopes, fault = .unbound x ∧ program.Occurs scopes (.ident x) ∧
    (∀ ps ∈ scopes, x ∉ ps) ∧ x ∉ topNames

section

variable {program : Expr} {env : Env}

theorem Fault.scoped_of_kind {fault : Fault} (h : fault.kind ≠ .name) : fault.Scoped program :=
  fun hname => absurd hname h

theorem Expr.Places.cond {test yes no : Expr} (h : program.Places (.cond test yes no) env) :
    program.Places test env ∧ program.Places yes env ∧ program.Places no env := by
  obtain ⟨frames, rfl, hplace⟩ := h
  exact ⟨⟨frames, rfl, hplace.test⟩, ⟨frames, rfl, hplace.yes⟩, ⟨frames, rfl, hplace.no⟩⟩

theorem Expr.Places.apply {callee : Expr} {args : List Expr}
    (h : program.Places (.apply callee args) env) :
    program.Places callee env ∧ ∀ e ∈ args, program.Places e env := by
  obtain ⟨frames, rfl, hplace⟩ := h
  exact ⟨⟨frames, rfl, hplace.callee⟩, fun e he => ⟨frames, rfl, hplace.arg he⟩⟩

/-- Binding the parameters adds the frame of the function to those of the functions around it. -/
theorem Expr.Places.body (hprogram : program.Canonical) {params : List Symbol} {body : Expr}
    {vs : List Value} (h : program.Places (.lambda params body) env)
    (hlength : params.length = vs.length) : program.Places body (Env.bind params vs env) := by
  obtain ⟨frames, rfl, hplace⟩ := h
  have hnodup : params.Nodup := by
    cases hprogram.of_occurs hplace with
    | lambda hnames _ => exact hnames
  have hnames : Frame.names (Frame.ofPairs (params.zip vs)) = params :=
    Frame.names_ofPairs_zip hnodup hlength
  refine ⟨Frame.ofPairs (params.zip vs) :: frames, rfl, ?_⟩
  rw [List.map_cons, hnames]
  exact hplace.body

/-- An identifier that has no value in the environment of its place is bound by no function
    around it. -/
theorem Expr.Places.scoped_unbound {x : Symbol} (h : program.Places (.ident x) env)
    (hx : env.find? x = none) : (Fault.unbound x).Scoped program := by
  obtain ⟨frames, rfl, hplace⟩ := h
  obtain ⟨hframes, htop⟩ := Env.find?_append_eq_none_iff.mp hx
  intro _
  exact ⟨x, frames.map Frame.names, rfl, hplace, List.forall_mem_map.mpr hframes,
    find?_topEnv_eq_none_iff.mp htop⟩

theorem keeps_applySymbol_placed (depth : Nat) (op : Symbol) {args : List Value}
    (h : ∀ v ∈ args, v.Placed program) :
    (Primitive.applySymbol depth op args).Keeps (fun ev => ∀ v ∈ ev.values, v.Placed program)
      (Value.Placed program) (Fault.Scoped program) := by
  refine Primitive.keeps_applySymbol_of (fun p _ => ?_)
    (Fault.scoped_of_kind (by simp [Fault.kind]))
  refine Primitive.keeps_apply_of h (fun _ v hv => absurd hv List.not_mem_nil) ?_
  have hdisplay (v : Value) : Ends (fun _ => True) (Fault.Scoped program) v.display :=
    Primitive.ends_display_of (Fault.scoped_of_kind (by decide))
      (fun _ => Fault.scoped_of_kind (by simp [Fault.kind])) v
  refine Primitive.ends_compute_of depth p (Value.of_isScalar .num .str .bool) h ?_
    fun v _ => hdisplay v
  intro fault hfault
  refine Fault.scoped_of_kind fun hname => ?_
  cases fault <;> simp [Fault.isOfOperation, Fault.kind] at hfault hname

end

/-- Evaluating the parts of a canonical program in environments of the shapes of their places. -/
def placement {program : Expr} (hprogram : program.Canonical) : Invariant where
  fit e env := program.Places e env ∧ Env.Holds (Value.Placed program) env
  good := Value.Placed program
  noted ev := ∀ v ∈ ev.values, v.Placed program
  allowed := Fault.Scoped program
  holds_env h := h.2
  holds_captured h := by
    cases h with
    | closure _ henv => exact henv
  num _ := .num _
  str _ := .str _
  bool _ := .bool _
  unbound h hx := h.1.scoped_unbound hx
  cond h := by
    obtain ⟨htest, hyes, hno⟩ := h.1.cond
    exact ⟨⟨htest, h.2⟩, ⟨hyes, h.2⟩, ⟨hno, h.2⟩⟩
  lambda h := ⟨List.forall_mem_singleton.mpr (.closure h.1 h.2), .closure h.1 h.2⟩
  apply h := by
    obtain ⟨hcallee, hargs⟩ := h.1.apply
    exact ⟨⟨hcallee, h.2⟩, fun e he => ⟨hargs e he, h.2⟩⟩
  not_foreign h := by
    -- No part of a canonical program is a foreign datum.
    obtain ⟨frames, -, hplace⟩ := h.1
    cases hprogram.of_occurs hplace
  enter h hvs hlength := by
    cases h with
    | closure hplace henv =>
      exact ⟨hvs, hplace.body hprogram hlength, Env.holds_bind henv _ hvs⟩
  prim _ hvs := keeps_applySymbol_placed _ _ hvs
  tooDeep := Fault.scoped_of_kind (by decide)
  condition := Fault.scoped_of_kind (by decide)
  notFunction := Fault.scoped_of_kind (by decide)
  callArity _ _ := Fault.scoped_of_kind (by simp [Fault.kind])

theorem canonical_of_ofDatum {depth : Nat} {form : Datum} {e : Expr}
    (h : ofDatum depth form = .ok e) : e.Canonical :=
  canonical_of_standsFor (ofDatum_eq_ok_iff.mp h).1

/-- The whole program stands within no function and starts in the top-level environment. -/
theorem placement_fit_topEnv {e : Expr} (he : e.Canonical) : (placement he).fit e topEnv :=
  ⟨⟨[], rfl, .whole⟩, holds_topEnv_of (fun p => .prim p.symbol) .bool⟩

/-! ## Names without a value -/

/-- Wherever a run stops at a name without a value, the name is a free identifier of the program
    and no top-level name. So a program whose free identifiers are all top-level names does not
    stop at a name, however deep it nests and however long it runs. -/
theorem unbound_identifier_is_free {depth : Nat} {form : Datum} {e : Expr}
    (hparse : ofDatum depth form = .ok e) (limit : Nat) :
    (∀ b fault, Activation.Reaches ⟨limit, e, topEnv⟩ b → b.run.outcome = .error fault →
      fault.kind = .name →
      ∃ x scopes, fault = .unbound x ∧ fault.words = "unbound identifier: " ++ x.name ∧
        e.Occurs scopes (.ident x) ∧ (∀ ps ∈ scopes, x ∉ ps) ∧ x ∉ topNames) ∧
    ((∀ x ∈ e.free, x ∈ topNames) →
      ∀ b fault, Activation.Reaches ⟨limit, e, topEnv⟩ b → b.run.outcome = .error fault →
        fault.kind ≠ .name) := by
  have he := canonical_of_ofDatum hparse
  have hscoped : ∀ b fault, Activation.Reaches ⟨limit, e, topEnv⟩ b →
      b.run.outcome = .error fault → fault.Scoped e := by
    intro b fault hb hfault
    have hfit := (placement he).fit_of_reaches (placement_fit_topEnv he) hb
    exact ((placement he).keeps_eval b.depth hfit).2.allowed_of_eq_error hfault
  refine ⟨?_, ?_⟩
  · intro b fault hb hfault hname
    obtain ⟨x, scopes, rfl, hplace, hscopes, htop⟩ := hscoped b fault hb hfault hname
    exact ⟨x, scopes, rfl, rfl, hplace, hscopes, htop⟩
  · intro hfree b fault hb hfault hname
    obtain ⟨x, scopes, -, hplace, hscopes, htop⟩ := hscoped b fault hb hfault hname
    exact htop (hfree x (Expr.mem_free_iff.mpr ⟨scopes, hplace, hscopes⟩))

/-- A function that escapes from the one around it, with a name that nothing binds, and a program
    without such names that stops for another reason. -/
theorem unbound_identifier_is_free_escaped :
    let e : Expr := .apply (.apply (.lambda [⟨"x"⟩] (.lambda [] (.ident ⟨"y"⟩))) [.num 1]) []
    let e' : Expr :=
      .apply (.lambda [⟨"x"⟩] (.apply (.ident ⟨"+"⟩) [.ident ⟨"x"⟩, .ident ⟨"true"⟩]))
      [.num 1]
    (eval 9 e topEnv).outcome = .error (.unbound ⟨"y"⟩) ∧
      (∃ x scopes, Fault.unbound ⟨"y"⟩ = .unbound x ∧ e.Occurs scopes (.ident x) ∧
        (∀ ps ∈ scopes, x ∉ ps) ∧ x ∉ topNames) ∧
      (∀ x ∈ e'.free, x ∈ topNames) ∧
      ∃ fault, (eval 9 e' topEnv).outcome = .error fault ∧ fault.kind ≠ .name := by
  intro e e'
  let d : Datum := .list [.list [.list [.list [.sym ⟨"x"⟩], .sym ⟨"=>"⟩,
    .list [.list [], .sym ⟨"=>"⟩, .sym ⟨"y"⟩]], .int 1]]
  let d' : Datum := .list [.list [.list [.sym ⟨"x"⟩], .sym ⟨"=>"⟩,
    .list [.sym ⟨"+"⟩, .sym ⟨"x"⟩, .sym ⟨"true"⟩]], .int 1]
  have hparse : ofDatum 9 d = .ok e := rfl
  have hparse' : ofDatum 9 d' = .ok e' := rfl
  have hfree : ∀ x ∈ e'.free, x ∈ topNames := by decide
  obtain ⟨x, scopes, hfault, -, hplace⟩ :=
    (unbound_identifier_is_free hparse 9).1 ⟨9, e, topEnv⟩ (.unbound ⟨"y"⟩) .refl rfl rfl
  exact ⟨rfl, ⟨x, scopes, hfault, hplace⟩, hfree, _, rfl,
    (unbound_identifier_is_free hparse' 9).2 hfree ⟨9, e', topEnv⟩ _ .refl rfl⟩

/-! ## Environments of closures -/

/-- Every closure that comes up in a run of a program, as a result, as an argument or in a frame,
    is a function that stands in the program. Its environment has a frame for each function around
    that place, innermost first, with the parameters of the function for its names, and then the
    top-level frame; so its depth is told by the place and not by the calls that led there. -/
theorem captured_env_of_enclosing_functions {depth : Nat} {form : Datum} {e : Expr}
    (hparse : ofDatum depth form = .ok e) (limit : Nat) {params : List Symbol} {body : Expr}
    {env : Env} (h : Activation.Arises ⟨limit, e, topEnv⟩ (.closure params body env) ∨
      ∃ ev ∈ (eval limit e topEnv).events, .closure params body env ∈ ev.values) :
    ∃ scopes frames, e.Occurs scopes (.lambda params body) ∧ env = frames ++ topEnv ∧
      frames.map Frame.names = scopes ∧ env.depth = 1 + scopes.length := by
  have he := canonical_of_ofDatum hparse
  have hplaced : (Value.closure params body env).Placed e := by
    rcases h with harises | ⟨ev, hev, hv⟩
    · exact (placement he).good_of_arises (placement_fit_topEnv he) harises
    · exact ((placement he).keeps_eval limit (placement_fit_topEnv he)).1 ev hev _ hv
  cases hplaced with
  | closure hplace _ =>
    obtain ⟨frames, rfl, hplace⟩ := hplace
    refine ⟨frames.map Frame.names, frames, hplace, rfl, rfl, ?_⟩
    have htop : topEnv.length = 1 := rfl
    rw [Env.depth, List.length_append, htop, List.length_map, Nat.add_comm]

/-- A function that is applied to itself and makes a closure: the frame of its parameter is there
    once. -/
theorem captured_env_self_applied :
    let self : Symbol := ⟨"self"⟩
    let e : Expr := .apply (.lambda [⟨"f"⟩] (.apply (.ident ⟨"f"⟩) [.ident ⟨"f"⟩]))
      [.lambda [self] (.lambda [] (.ident self))]
    let env : Env := [(self, .closure [self] (.lambda [] (.ident self)) topEnv)] :: topEnv
    Activation.Arises ⟨9, e, topEnv⟩ (.closure [] (.ident self) env) ∧
      ∃ scopes frames, e.Occurs scopes (.lambda [] (.ident self)) ∧ env = frames ++ topEnv ∧
        frames.map Frame.names = scopes ∧ env.depth = 1 + scopes.length := by
  intro self e env
  let d : Datum := .list [.list [.list [.sym ⟨"f"⟩], .sym ⟨"=>"⟩, .list [.sym ⟨"f"⟩, .sym ⟨"f"⟩]],
    .list [.list [.sym self], .sym ⟨"=>"⟩, .list [.list [], .sym ⟨"=>"⟩, .sym self]]]
  have hparse : ofDatum 9 d = .ok e := rfl
  have harises : Activation.Arises ⟨9, e, topEnv⟩ (.closure [] (.ident self) env) :=
    .result .refl rfl
  exact ⟨harises, captured_env_of_enclosing_functions hparse 9 (.inl harises)⟩

end MiniLisp
