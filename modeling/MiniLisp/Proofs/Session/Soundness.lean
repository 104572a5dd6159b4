/-
  MiniLisp.Proofs.Session.Soundness

  What can happen when a program text is run.

  `Fault.OfText` singles out the faults that a text can stop at: those of the
  language and the limit on digits, without the branches that only data, tokens
  and values built by hand can reach, and the bound on nesting. Reading and
  parsing a text end in no other fault (`ends_read`, `ends_parsing`).

  `Value.WellFormed` describes the values of programs: numbers, texts, truth
  values, registered operations, and closures whose body came out of the parser
  and whose environment holds such values. Evaluation keeps to these values and
  faults: they form an `Invariant` (`programInvariant`). What it asks of the
  built-in operations follows from how these can end (`ends_compute`).
-/
import MiniLisp.Proofs.Machine.Console
import MiniLisp.Proofs.Parser.Grammar
import MiniLisp.Proofs.Primitive.Result
import MiniLisp.Proofs.Reader.RoundTrip
import MiniLisp.Proofs.Session.TopLevel
import MiniLisp.Proofs.Token.Partition

namespace MiniLisp

/-! ## The faults of texts -/

/-- The classes of faults that programs given as text can run into, the bound on nesting aside. -/
def FaultKind.isOfText : FaultKind → Bool
  | .form | .name | .operand | .arity | .zeroDivision | .user | .digits => true
  | .unknownPrimitive | .unprintable | .foreign | .bracket | .fixed | .depth | .encoding => false

/-- Causes in these classes that no text gives: a character that starts no token, and data, tokens
    or frames built by hand. -/
def Fault.isByHand : Fault → Bool
  | .lexing (.unexpectedCharacter _ _) | .unknownToken _ _ | .truthValue _ | .unsupported _
  | .frameArity _ _ => true
  | _ => false

/-- A fault that a text can stop at. -/
def Fault.OfText (fault : Fault) : Prop :=
  fault = .tooDeep ∨ fault.kind.isOfText = true ∧ fault.isByHand = false

/-- The computation ends, if in a fault, then in one that a text can stop at. -/
abbrev EndsOfText {α : Type} (r : Except Fault α) : Prop := Ends (fun _ => True) Fault.OfText r

theorem ends_fault {α : Type} {good : α → Prop} {fault : Fault}
    (hkind : fault.kind.isOfText = true) (hhand : fault.isByHand = false) :
    Ends good Fault.OfText (.error fault) :=
  .error (.inr ⟨hkind, hhand⟩)

theorem ends_tooDeep {α : Type} {good : α → Prop} : Ends good Fault.OfText (.error .tooDeep) :=
  .error (.inl rfl)

/-! ## Reading -/

/-- Reading a text does not meet a character that starts no token, nor a token that is no lexeme, so
    every opener is a bracket and every kind of token is known. -/
theorem ends_read [Host] (depth : Nat) (source : Text) : EndsOfText (read depth source) := by
  cases hread : read depth source with
  | ok ds => exact .ok trivial
  | error fault =>
    cases readFault_of_read hread with
    | lexing h =>
      have hparts := partition_lex source
      rw [h] at hparts
      obtain ⟨front, rest, -, rfl, -⟩ := hparts.exists_unclosed
      exact ends_fault rfl rfl
    | unmatched _ | mismatched _ _ | strayCloser _ => exact ends_fault rfl rfl
    -- The two faults that no text gives: its openers are brackets and its kinds are known.
    | noBracket h hnone =>
      cases isLexeme_of_mem_lex h with
      | opener b =>
        rw [Bracket.ofOpener?_opener] at hnone
        cases hnone
    | unknownToken h => cases isLexeme_of_mem_lex h
    | word _ hfault =>
      obtain ⟨digits, rfl⟩ := TokenStream.eq_longNumeral_of_ofWord hfault
      exact ends_fault rfl rfl
    | string h hfault =>
      obtain ⟨cause, rfl⟩ :=
        TokenStream.eq_badLiteral_of_ofLiteral ((isLexeme_of_mem_lex h).isPlain rfl) hfault
      exact ends_fault rfl rfl
    | tooDeep => exact ends_tooDeep

/-! ## Parsing -/

open MiniLisp.Expr (items? functionForm? params paramsFrom ofDatum ofForm ofArgs)

theorem ends_paramsFrom (done : List Symbol) (ds : List Datum) :
    EndsOfText (paramsFrom done ds) := by
  induction ds generalizing done with
  | nil => exact .ok trivial
  | cons d ds ih =>
    have htake (x : Symbol) : EndsOfText (if x ∈ done then .error (.repeatedParameter x)
        else paramsFrom (done ++ [x]) ds) :=
      Ends.ite (ends_fault rfl rfl) (ih _)
    cases d with
    | sym x => exact htake x
    | str s => exact htake ⟨s⟩
    | int _ | list _ | tuple _ | bool _ | nothing | real _ | bytes _ | record _ =>
      simp only [paramsFrom]
      exact Ends.ite (ends_fault rfl rfl) (ends_fault rfl rfl)

/-- One activation on a form of readable data, if those with less depth end well. -/
theorem ends_ofForm_succ {depth : Nat}
    (ihDatum : ∀ d : Datum, d.Readable → EndsOfText (ofDatum depth d))
    (ihArgs : ∀ ds : List Datum, (∀ d ∈ ds, d.Readable) → EndsOfText (ofArgs depth ds))
    {items : List Datum} (h : ∀ d ∈ items, d.Readable) :
    EndsOfText (ofForm (depth + 1) items) := by
  cases items with
  | nil => exact ends_fault rfl rfl
  | cons head rest =>
    obtain ⟨hhead, hrest⟩ := List.forall_mem_cons.mp h
    cases hif : head.isKeyword "if" with
    | true =>
      by_cases hparts : rest.length = 3
      · obtain ⟨test, yes, no, rfl⟩ := List.length_eq_three.mp hparts
        simp only [List.forall_mem_cons] at hrest
        obtain ⟨htest, hyes, hno, -⟩ := hrest
        rw [ofForm_cond depth hif]
        exact (ihDatum test htest).bind fun _ _ => (ihDatum yes hyes).bind fun _ _ =>
          (ihDatum no hno).bind fun _ _ => .ok trivial
      · rw [ofForm_conditionalParts depth hif hparts]
        exact ends_fault rfl rfl
    | false =>
      cases hform : functionForm? (head :: rest) with
      | some form =>
        obtain ⟨ps, body⟩ := form
        obtain ⟨_, arrow, hitems, -, -⟩ := functionForm?_eq_some_iff.mp hform
        have hbody : body.Readable := h body (by rw [hitems]; simp)
        rw [ofForm_lambda depth hif hform]
        exact (ends_paramsFrom [] ps).bind fun _ _ =>
          (ihDatum body hbody).bind fun _ _ => .ok trivial
      | none =>
        rw [ofForm_apply depth hif hform]
        exact (ihDatum head hhead).bind fun _ _ =>
          (ihArgs rest hrest).bind fun _ _ => .ok trivial

/-- Parsing what can be read ends, if in a fault, then in one of texts, at every depth. -/
theorem ends_parsing (depth : Nat) :
    (∀ d : Datum, d.Readable → EndsOfText (ofDatum depth d)) ∧
    (∀ items : List Datum, (∀ d ∈ items, d.Readable) → EndsOfText (ofForm depth items)) ∧
    (∀ ds : List Datum, (∀ d ∈ ds, d.Readable) → EndsOfText (ofArgs depth ds)) := by
  induction depth with
  | zero =>
    exact ⟨fun _ _ => ends_tooDeep, fun _ _ => ends_tooDeep, fun _ _ => ends_tooDeep⟩
  | succ depth ih =>
    obtain ⟨ihDatum, ihForm, ihArgs⟩ := ih
    refine ⟨?_, ?_, ?_⟩
    · intro d hd
      -- Only truth values and other foreign shapes are refused outright, and none is readable.
      cases hd with
      | int _ | str _ | sym _ _ _ => exact .ok trivial
      | list hitems => exact ihForm _ hitems
    · intro items hitems
      exact ends_ofForm_succ ihDatum ihArgs hitems
    · intro ds hds
      exact (Ends.mapM fun d hd => ihDatum d (hds d hd)).mono (fun _ _ => trivial) fun _ h => h

/-! ## Parsed expressions -/

/-- The expression came out of the parser. -/
def Expr.Parsed (e : Expr) : Prop := ∃ depth form, ofDatum depth form = .ok e

theorem Expr.parsed_iff {e : Expr} : e.Parsed ↔ ∃ d, StandsFor d e := by
  constructor
  · rintro ⟨depth, d, h⟩
    exact ⟨d, (ofDatum_eq_ok_iff.mp h).1⟩
  · rintro ⟨d, h⟩
    exact ⟨e.nesting, d, ofDatum_eq_ok_iff.mpr ⟨h, Nat.le_refl _⟩⟩

theorem Expr.Parsed.cond {test yes no : Expr} (h : (Expr.cond test yes no).Parsed) :
    test.Parsed ∧ yes.Parsed ∧ no.Parsed := by
  obtain ⟨d, h⟩ := parsed_iff.mp h
  cases h with
  | cond _ _ htest hyes hno =>
    exact ⟨parsed_iff.mpr ⟨_, htest⟩, parsed_iff.mpr ⟨_, hyes⟩, parsed_iff.mpr ⟨_, hno⟩⟩

theorem Expr.Parsed.body {params : List Symbol} {body : Expr}
    (h : (Expr.lambda params body).Parsed) : body.Parsed := by
  obtain ⟨d, h⟩ := parsed_iff.mp h
  cases h with
  | lambda _ _ _ _ hbody => exact parsed_iff.mpr ⟨_, hbody⟩

theorem Expr.Parsed.apply {callee : Expr} {args : List Expr} (h : (Expr.apply callee args).Parsed) :
    callee.Parsed ∧ ∀ e ∈ args, e.Parsed := by
  obtain ⟨d, h⟩ := parsed_iff.mp h
  cases h with
  | apply _ _ _ hhead hargs =>
    refine ⟨parsed_iff.mpr ⟨_, hhead⟩, List.forall_mem_map.mpr fun p hp => ?_⟩
    exact parsed_iff.mpr ⟨_, hargs p hp⟩

theorem Expr.not_parsed_foreign {d : Datum} : ¬(Expr.foreign d).Parsed := by
  intro h
  obtain ⟨_, h⟩ := parsed_iff.mp h
  cases h

/-! ## Well-formed values -/

/-- The values of programs. -/
inductive Value.WellFormed : Value → Prop
  | num (n : Int) : WellFormed (.num n)
  | str (s : Text) : WellFormed (.str s)
  | bool (b : Bool) : WellFormed (.bool b)
  /-- A registered operation. -/
  | prim (p : Primitive) : WellFormed (.prim p.symbol)
  /-- A closure with a parsed body and an environment of such values. -/
  | closure {params : List Symbol} {body : Expr} {env : Env} (hbody : body.Parsed)
      (henv : ∀ f ∈ env, ∀ b ∈ f, WellFormed b.2) : WellFormed (.closure params body env)

/-- The event has to do with well-formed values only. -/
def Event.WellFormed : Event → Prop
  | .printed _ | .finished _ => True
  | .created params body env => (Value.closure params body env).WellFormed
  | .entered _ args | .operated _ args => ∀ v ∈ args, v.WellFormed

theorem holds_topEnv : Env.Holds Value.WellFormed topEnv := holds_topEnv_of .prim .bool

/-! ## Built-in operations -/

theorem ends_display {v : Value} (h : v.WellFormed) : EndsOfText v.display := by
  cases h with
  | num n =>
    rw [Value.display]
    exact Ends.ite (.ok trivial) (ends_fault rfl rfl)
  | str _ | bool _ | prim _ | closure _ _ => exact .ok trivial

namespace Primitive

/-- An operation on well-formed values has a well-formed result, or fails as texts can. -/
theorem ends_compute (depth : Nat) (p : Primitive) {args : List Value}
    (h : ∀ v ∈ args, v.WellFormed) :
    Ends Value.WellFormed Fault.OfText (compute depth p args) := by
  refine ends_compute_of depth p (Value.of_isScalar .num .str .bool) h ?_
    fun v hv => ends_display (h v hv)
  intro fault hfault
  cases fault <;> simp [Fault.isOfOperation] at hfault
  case tooDeep => exact .inl rfl
  all_goals exact .inr ⟨rfl, rfl⟩

/-- Applying a registered operation keeps to well-formed values. -/
theorem keeps_applySymbol {depth : Nat} {op : Symbol} {args : List Value}
    (hop : (Value.prim op).WellFormed)
    (h : ∀ v ∈ args, v.WellFormed) :
    (applySymbol depth op args).Keeps Event.WellFormed Value.WellFormed Fault.OfText := by
  cases hop with
  | prim p =>
    rw [applySymbol_symbol]
    exact keeps_apply_of h (fun _ => trivial) (ends_compute depth p h)

end Primitive

/-! ## Evaluation -/

/-- Evaluating parsed expressions where only well-formed values are bound. -/
def programInvariant : Invariant where
  fit e env := e.Parsed ∧ Env.Holds Value.WellFormed env
  good := Value.WellFormed
  noted := Event.WellFormed
  allowed := Fault.OfText
  holds_env h := h.2
  holds_captured h := by
    cases h with
    | closure _ henv => exact henv
  num _ := .num _
  str _ := .str _
  bool _ := .bool _
  unbound _ _ := .inr ⟨rfl, rfl⟩
  cond h := by
    obtain ⟨htest, hyes, hno⟩ := h.1.cond
    exact ⟨⟨htest, h.2⟩, ⟨hyes, h.2⟩, ⟨hno, h.2⟩⟩
  lambda h := ⟨.closure h.1.body h.2, .closure h.1.body h.2⟩
  apply h := by
    obtain ⟨hcallee, hargs⟩ := h.1.apply
    exact ⟨⟨hcallee, h.2⟩, fun e he => ⟨hargs e he, h.2⟩⟩
  not_foreign h := Expr.not_parsed_foreign h.1
  enter h hvs _ := by
    cases h with
    | closure hbody henv => exact ⟨hvs, hbody, Env.holds_bind henv _ hvs⟩
  prim := Primitive.keeps_applySymbol
  tooDeep := .inl rfl
  condition := .inr ⟨rfl, rfl⟩
  notFunction := .inr ⟨rfl, rfl⟩
  callArity _ _ := .inr ⟨rfl, rfl⟩

/-- A parsed form in the top-level environment satisfies the invariant. -/
theorem fit_topEnv {depth : Nat} {form : Datum} {e : Expr} (h : ofDatum depth form = .ok e) :
    programInvariant.fit e topEnv :=
  ⟨⟨depth, form, h⟩, holds_topEnv⟩

/-! ## Whole texts -/

theorem keeps_interpret (depth : Nat) {form : Datum} (h : form.Readable) :
    (interpret depth form).Keeps Event.WellFormed Value.WellFormed Fault.OfText := by
  have hparse : Ends (fun e => ofDatum depth form = .ok e) Fault.OfText (ofDatum depth form) := by
    cases hform : ofDatum depth form with
    | ok e => exact .ok rfl
    | error fault => exact .error (((ends_parsing depth).1 form h).allowed_of_eq_error hform)
  exact (Run.Keeps.ofExcept hparse).bind fun e he =>
    programInvariant.keeps_eval depth (fit_topEnv he)

theorem keeps_report (depth : Nat) {form : Datum} (h : form.Readable) :
    (report depth form).Keeps Event.WellFormed (fun _ => True) Fault.OfText :=
  (keeps_interpret depth h).bind fun _ hv => .ofExcept (ends_display hv)

theorem keeps_runForms (depth : Nat) {forms : List Datum} (h : ∀ d ∈ forms, d.Readable) :
    (runForms depth forms).Keeps Event.WellFormed (fun _ => True) Fault.OfText := by
  have hforms : (runForms depth forms).Keeps Event.WellFormed
      (fun texts => ∀ t ∈ texts, True) Fault.OfText :=
    .mapM fun form hform => (keeps_report depth (h form hform)).bind fun _ _ =>
      (Run.Keeps.emit trivial).bind fun _ _ => .pure trivial
  exact ⟨hforms.1, hforms.2.mono (fun _ _ => trivial) fun _ h => h⟩

theorem keeps_runText [Host] (depth : Nat) (source : Text) :
    (runText depth source).Keeps Event.WellFormed (fun _ => True) Fault.OfText := by
  have hread : Ends (fun forms : List Datum => ∀ d ∈ forms, d.Readable) Fault.OfText
      (read depth source) := by
    cases hforms : read depth source with
    | ok forms => exact .ok (readable_of_read hforms)
    | error fault => exact .error ((ends_read depth source).allowed_of_eq_error hforms)
  exact (Run.Keeps.ofExcept hread).bind fun forms hforms => keeps_runForms depth hforms

end MiniLisp
