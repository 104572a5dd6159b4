/-
  MiniLisp.Proofs.Machine.Console

  What a console makes of a run. A sink can refuse a line, and then the program is
  stopped where it prints that line. `Run.admitted` is the trace of a run that is
  stopped so; it depends on what the sink refuses, and not on what the sink holds.

  `Run.act` lets a run act on a console: the console gets the events of the
  admitted run, its sink the lines and its log the records. That is a morphism of
  machines (`Acting.ofRun`), so to evaluate on a console is to let the trace of the
  evaluation act on it. Where nothing is refused, the admitted run is the whole run
  (`Run.admitted_eq_self`); otherwise it ends before the first line that is refused
  (`Run.admitted_cases`).
-/
import MiniLisp.Proofs.Machine.Morphism

namespace MiniLisp

variable {α β : Type} (refusal? : Text → Option Text)

/-! ## Runs up to the first line that is refused -/

/-- Why an event is refused, if it is: only lines are. -/
def Event.refusedBy? (e : Event) : Option Text := e.line?.bind refusal?

/-- The events up to the first that is refused; the fault is then the refusal. -/
def Run.admittedFrom (outcome : Except Fault α) : List Event → Run α
  | [] => ⟨[], outcome⟩
  | e :: events =>
    match e.refusedBy? refusal? with
    | none => Run.emit e >>= fun _ => admittedFrom outcome events
    | some words => .fail (.unencodable words)

/-- The run as far as a sink that refuses such lines lets it come. -/
def Run.admitted (r : Run α) : Run α := admittedFrom refusal? r.outcome r.events

namespace Run

section

variable {refusal?}

theorem admittedFrom_cons {outcome : Except Fault α} {e : Event} {events : List Event}
    (h : e.refusedBy? refusal? = none) :
    admittedFrom refusal? outcome (e :: events) =
      ⟨e :: (admittedFrom refusal? outcome events).events,
        (admittedFrom refusal? outcome events).outcome⟩ := by
  rw [admittedFrom, h]
  rfl

theorem admittedFrom_refused {outcome : Except Fault α} {e : Event} {events : List Event}
    {words : Text} (h : e.refusedBy? refusal? = some words) :
    admittedFrom refusal? outcome (e :: events) = .fail (.unencodable words) := by
  rw [admittedFrom, h]

/-- A run all of whose lines are taken is admitted as it is. -/
theorem admitted_eq_self {r : Run α} (h : ∀ line ∈ r.lines, refusal? line = none) :
    r.admitted refusal? = r := by
  obtain ⟨events, outcome⟩ := r
  have htaken : ∀ e ∈ events, e.refusedBy? refusal? = none := by
    intro e he
    cases hline : e.line? with
    | none => rw [Event.refusedBy?, hline]; rfl
    | some line =>
      rw [Event.refusedBy?, hline]
      exact h line (List.mem_filterMap.mpr ⟨e, he, hline⟩)
  rw [admitted]
  clear h
  induction events with
  | nil => rfl
  | cons e events ih =>
    obtain ⟨he, hevents⟩ := List.forall_mem_cons.mp htaken
    rw [admittedFrom_cons he, ih hevents]

theorem lines_cons (e : Event) (events : List Event) (outcome : Except Fault α) :
    (Run.mk (e :: events) outcome).lines = e.line?.toList ++ (Run.mk events outcome).lines := by
  cases hline : e.line? with
  | none => exact List.filterMap_cons_none hline
  | some line => exact List.filterMap_cons_some hline

/-- Every line is taken, or the run ends before the first that is not. -/
theorem admitted_cases (refusal? : Text → Option Text) (r : Run α) :
    ((∀ line ∈ r.lines, refusal? line = none) ∧ r.admitted refusal? = r) ∨
      ∃ before line rest words, r.lines = before ++ line :: rest ∧
        (∀ taken ∈ before, refusal? taken = none) ∧ refusal? line = some words ∧
        (r.admitted refusal?).lines = before ∧
        (r.admitted refusal?).outcome = .error (.unencodable words) := by
  obtain ⟨events, outcome⟩ := r
  -- On the events; those that print nothing are passed over.
  induction events with
  | nil => exact .inl ⟨nofun, rfl⟩
  | cons e events ih =>
    cases hwords : e.refusedBy? refusal? with
    | some words =>
      obtain ⟨line, hline, hrefused⟩ := Option.bind_eq_some_iff.mp hwords
      have hadmitted : (Run.mk (e :: events) outcome).admitted refusal? =
          .fail (.unencodable words) := admittedFrom_refused hwords
      rw [hadmitted, lines_cons, hline]
      exact .inr ⟨[], line, _, words, rfl, nofun, hrefused, rfl, rfl⟩
    | none =>
      have htaken : ∀ line ∈ e.line?.toList, refusal? line = none := by
        intro line hline
        rwa [Event.refusedBy?, Option.mem_toList.mp hline] at hwords
      have hadmitted : (Run.mk (e :: events) outcome).admitted refusal? =
          ⟨e :: ((Run.mk events outcome).admitted refusal?).events,
            ((Run.mk events outcome).admitted refusal?).outcome⟩ := admittedFrom_cons hwords
      rw [hadmitted, lines_cons]
      rcases ih with ⟨hall, hwhole⟩ | ⟨before, line, rest, words, hsplit, hbefore, hrefused, hends⟩
      · rw [hwhole]
        exact .inl ⟨List.forall_mem_append.mpr ⟨htaken, hall⟩, rfl⟩
      · refine .inr ⟨e.line?.toList ++ before, line, rest, words, ?_,
          List.forall_mem_append.mpr ⟨htaken, hbefore⟩, hrefused, ?_, hends.2⟩
        · rw [hsplit, List.append_assoc]
        · rw [lines_cons]
          exact congrArg (e.line?.toList ++ ·) hends.1

end

theorem admitted_pure (a : α) : (pure a : Run α).admitted refusal? = pure a := rfl

/-- Behind a line that is refused nothing is done. -/
theorem admitted_bind (r : Run α) (next : α → Run β) :
    (r >>= next).admitted refusal? =
      r.admitted refusal? >>= fun a => (next a).admitted refusal? := by
  obtain ⟨events, outcome⟩ := r
  -- On the events of the first run: as long as they are taken, both sides start with the same one.
  induction events with
  | nil =>
    cases outcome with
    | error fault => rfl
    | ok a => rfl
  | cons e events ih =>
    have hcons : Run.mk (e :: events) outcome >>= next =
        ⟨e :: (Run.mk events outcome >>= next).events,
          (Run.mk events outcome >>= next).outcome⟩ := by
      cases outcome <;> rfl
    rw [hcons]
    cases hwords : e.refusedBy? refusal? with
    | some words =>
      rw [admitted, admitted, admittedFrom_refused hwords, admittedFrom_refused hwords]
      rfl
    | none =>
      have hfirst : (Run.mk (e :: events) outcome).admitted refusal? =
          Run.emit e >>= fun _ => (Run.mk events outcome).admitted refusal? := by
        rw [admitted, admittedFrom_cons hwords]
        rfl
      rw [hfirst, bind_assoc, ← ih, admitted, admittedFrom_cons hwords]
      rfl

end Run

/-! ## Consoles -/

/-- The console when the events have taken place and none was refused. -/
def Console.after (c : Console) (events : List Event) : Console :=
  { sink := { c.sink with lines := c.sink.lines ++ events.filterMap Event.line? }
    log := c.log ++ events.filterMap Event.record? }

namespace Console

variable (c : Console)

@[simp] theorem after_nil : c.after [] = c := by
  obtain ⟨⟨refusal?, lines⟩, log⟩ := c
  simp [after]

theorem after_of_line?_eq_none {e : Event} (h : e.line? = none) :
    c.after [e] = { c with log := c.log ++ e.record?.toList } := by
  have hlines : [e].filterMap Event.line? = [] := by simp [h]
  have hrecords : [e].filterMap Event.record? = e.record?.toList := by
    cases hrecord : e.record? <;> simp [hrecord]
  rw [after, hlines, hrecords, List.append_nil]

theorem after_printed (line : Text) :
    c.after [.printed line] =
      { c with sink := { c.sink with lines := c.sink.lines ++ [line] } } := by
  have hrecords : [Event.printed line].filterMap Event.record? = [] := rfl
  rw [after, hrecords, List.append_nil]
  rfl

/-- Events that print nothing leave the sink as it is. -/
theorem sink_after_of_silent {events : List Event} (h : events.filterMap Event.line? = []) :
    (c.after events).sink = c.sink := by
  rw [after, h, List.append_nil]

theorem after_append (events more : List Event) :
    c.after (events ++ more) = (c.after events).after more := by
  simp [after, List.append_assoc]

end Console

/-- Lets a run act on a console, as far as the sink admits it. -/
def Run.act (r : Run α) : Acting α := fun c =>
  Acting.ofExcept (r.admitted c.sink.refusal?).outcome
    (c.after (r.admitted c.sink.refusal?).events)

namespace Acting

theorem act_pure (a : α) : (pure a : Run α).act = pure a := by
  funext c
  show EStateM.Result.ok a (c.after []) = .ok a c
  rw [c.after_nil]

theorem act_ofExcept (r : Except Fault α) : (Run.ofExcept r).act = Acting.ofExcept r := by
  funext c
  show Acting.ofExcept r (c.after []) = Acting.ofExcept r c
  rw [c.after_nil]

theorem act_bind (r : Run α) (next : α → Run β) :
    (r >>= next).act = r.act >>= fun a => (next a).act := by
  funext c
  show Acting.ofExcept _ _ = EStateM.bind r.act _ c
  rw [EStateM.bind, Run.act, Run.admitted_bind]
  -- The second run acts on the console that the first leaves, whose sink refuses the same lines.
  obtain ⟨events, fault | a⟩ := r.admitted c.sink.refusal?
  · rfl
  · rw [Run.bind_ok, c.after_append]
    rfl

theorem act_printed (line : Text) :
    (Run.emit (.printed line)).act = Acting.emit (.printed line) := by
  funext c
  unfold Acting.emit
  dsimp only [Event.line?]
  unfold Sink.println
  cases hwords : c.sink.refusal? line with
  | none =>
    have hadmitted :
        (Run.emit (.printed line)).admitted c.sink.refusal? = Run.emit (.printed line) :=
      Run.admittedFrom_cons hwords
    rw [Run.act, hadmitted]
    exact congrArg (EStateM.Result.ok ()) (c.after_printed line)
  | some words =>
    have hadmitted : (Run.emit (.printed line)).admitted c.sink.refusal? =
        .fail (.unencodable words) :=
      Run.admittedFrom_refused hwords
    rw [Run.act, hadmitted]
    exact congrArg (EStateM.Result.error _) c.after_nil

theorem act_emit (e : Event) : (Run.emit e).act = Acting.emit e := by
  cases e with
  | printed line => exact act_printed line
  | created _ _ _ | entered _ _ | operated _ _ | finished _ =>
    funext c
    exact congrArg (EStateM.Result.ok ()) (c.after_of_line?_eq_none rfl)

/-- Acting on a console keeps what computations are made of. -/
def ofRun : Machine.Hom Run (EStateM Fault Console) where
  map := Run.act
  pure := act_pure
  bind := act_bind
  ofExcept := act_ofExcept
  emit := act_emit

theorem applySymbol_eq (depth : Nat) (op : Symbol) (args : List Value) :
    (Machine.applySymbol depth op args : Acting Value) =
      (Primitive.applySymbol depth op args).act :=
  (ofRun.applySymbol depth op args).symm

end Acting

/-! ## Sessions -/

namespace Session

/-- Only the result is changed by a function of the result. -/
theorem perform_map (s : Session) (f : α → β) (act : Env → Acting α) :
    s.perform (fun env => f <$> act env) = ((s.perform act).1.map f, (s.perform act).2) := by
  have hmap : (f <$> act s.env) s.console = EStateM.map f (act s.env) s.console := rfl
  rw [perform, perform, hmap, EStateM.map]
  cases act s.env s.console with
  | ok a console => rfl
  | error fault console => rfl

/-- The session gets the events of the admitted run, and its environment stays as it is. -/
theorem perform_act (s : Session) {act : Env → Acting α} {r : Run α}
    (h : act s.env = r.act) :
    s.perform act = ((r.admitted s.console.sink.refusal?).outcome,
      { s with console := s.console.after (r.admitted s.console.sink.refusal?).events }) := by
  rw [perform, h, Run.act]
  cases (r.admitted s.console.sink.refusal?).outcome with
  | error fault => rfl
  | ok a => rfl

theorem perform_act_map (s : Session) (f : α → β) {act : Env → Acting α} {r : Run α}
    (h : act s.env = r.act) :
    s.perform (fun env => f <$> act env) = ((r.admitted s.console.sink.refusal?).outcome.map f,
      { s with console := s.console.after (r.admitted s.console.sink.refusal?).events }) := by
  rw [perform_map, s.perform_act h]

/-- To evaluate a form in a session of the top-level environment is to let its run act there. -/
theorem step_interpret [Host] (depth : Nat) {s : Session} (hs : s.env = topEnv) (form : Datum) :
    s.step depth (.interpret form) =
      (((interpret depth form).admitted s.console.sink.refusal?).outcome.map .value,
        { s with console :=
          s.console.after ((interpret depth form).admitted s.console.sink.refusal?).events }) := by
  rw [step]
  refine s.perform_act_map Answer.value ?_
  rw [hs]
  exact (Acting.ofRun.interpret depth topEnv form).symm

/-- To run a text in a session of the top-level environment is to let its run act there. -/
theorem step_runText [Host] (depth : Nat) {s : Session} (hs : s.env = topEnv) (source : Text) :
    s.step depth (.runText source) =
      (((runText depth source).admitted s.console.sink.refusal?).outcome.map .results,
        { s with console :=
          s.console.after ((runText depth source).admitted s.console.sink.refusal?).events }) := by
  rw [step]
  refine s.perform_act_map Answer.results ?_
  rw [hs]
  exact (Acting.ofRun.runText depth topEnv source).symm

/-- A text that cannot be read leaves the session as it is. -/
theorem step_runText_error [Host] (depth : Nat) (s : Session) {source : Text} {fault : Fault}
    (h : read depth source = .error fault) :
    s.step depth (.runText source) = (.error fault, s) := by
  have hrun : (fun env => Machine.runText depth env source : Env → Acting (List Text)) =
      fun _ => Acting.ofExcept (.error fault) := by
    funext env
    rw [Machine.runText, h]
    rfl
  rw [step, perform_map, hrun]
  rfl

end Session

end MiniLisp
