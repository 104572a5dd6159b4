/-
  MiniLisp.Proofs.Session.Isolation

  Commands of a session do not affect one another. Evaluation on a console is the
  trace of the evaluation, let act on the console as far as the sink admits it; the
  trace does not depend on the console, and what is admitted depends on what the
  sink refuses but not on what it holds. So a step answers as it does in the
  session anew, and adds to the session what it prints and logs there
  (`step_eq`), whether it fails or not. By induction on the commands before it,
  every step of a session is taken in a session that holds what each of them
  prints by itself (`play_at`).

  Running forms is a `mapM`, so running two lists of forms one behind the other
  is running the first and then, if that has results, the second, in the session
  that the first one leaves (`step_runForms_append`).
-/
import MiniLisp.Proofs.Machine.Console

namespace MiniLisp.Session

/-! ## Performing -/

section

variable {α β : Type} {s t : Session} {act : Env → Acting α}

theorem exists_of_perform_map {f : α → β} {r : Except Fault β}
    (h : s.perform (fun env => f <$> act env) = (r, t)) :
    ∃ r', s.perform act = (r', t) ∧ r'.map f = r := by
  rw [perform_map] at h
  cases h
  exact ⟨_, rfl, rfl⟩

/-- What follows a result is performed in the session that is left, and behind a fault nothing
    is. -/
theorem perform_bind (s : Session) (act : Env → Acting α) (next : α → Env → Acting β) :
    s.perform (fun env => act env >>= fun a => next a env) =
      match s.perform act with
      | (.ok a, t) => t.perform (next a)
      | (.error fault, t) => (.error fault, t) := by
  have hbind : (act s.env >>= fun a => next a s.env) s.console =
      EStateM.bind (act s.env) (fun a => next a s.env) s.console := rfl
  rw [perform, perform, hbind, EStateM.bind]
  cases act s.env s.console with
  | ok a console => rfl
  | error fault console => rfl

end

/-! ## One step -/

/-- The session before anything was printed or logged. For one that was started, this is a start
    with an empty sink that refuses the same lines. -/
def anew (s : Session) : Session := ⟨s.env, .start ⟨s.console.sink.refusal?, []⟩⟩

/-- What acts the same on every machine has the result that it has in the session anew, and adds to
    the session what it prints and logs there. -/
theorem perform_eq_anew {α β : Type} (s : Session) (f : α → β) (act : Env → Acting α) {r : Run α}
    (h : r.act = act s.env) :
    s.perform (fun env => f <$> act env) =
      ((s.anew.perform fun env => f <$> act env).1,
        { s with console :=
            { sink :=
                { s.console.sink with
                  lines := s.lines ++ (s.anew.perform fun env => f <$> act env).2.lines }
              log :=
                s.console.log ++
                  (s.anew.perform fun env => f <$> act env).2.console.log } }) := by
  rw [s.perform_act_map f h.symm, s.anew.perform_act_map f h.symm]
  rfl

section

variable [Host]

/-- The session with what commands print and log, each in the session anew, behind what it holds. -/
def after (depth : Nat) (s : Session) (cs : List Command) : Session where
  env := s.env
  console :=
    { sink :=
        { s.console.sink with
          lines := s.lines ++ cs.flatMap fun c => (s.anew.step depth c).2.lines }
      log := s.console.log ++ cs.flatMap fun c => (s.anew.step depth c).2.console.log }

theorem after_nil (depth : Nat) (s : Session) : s.after depth [] = s := by
  simp [after, lines]

theorem after_append (depth : Nat) (s : Session) (cs cs' : List Command) :
    s.after depth (cs ++ cs') = (s.after depth cs).after depth cs' := by
  simp [after, lines, anew]

/-- A step that does not ask for the output answers as it does in the session anew, and adds to the
    session what it does there. -/
theorem step_eq (depth : Nat) (s : Session) {c : Command} (hc : c ≠ .output) :
    s.step depth c = ((s.anew.step depth c).1, s.after depth [c]) := by
  rw [after, List.flatMap_singleton, List.flatMap_singleton]
  cases c with
  | runText source =>
    exact s.perform_eq_anew Answer.results (fun env => Machine.runText depth env source)
      (Acting.ofRun.runText depth s.env source)
  | runForms forms =>
    exact s.perform_eq_anew Answer.results (fun env => Machine.runForms depth env forms)
      (Acting.ofRun.runForms depth s.env forms)
  | report form =>
    exact s.perform_eq_anew Answer.result (fun env => Machine.report depth env form)
      (Acting.ofRun.report depth s.env form)
  | interpret form =>
    exact s.perform_eq_anew Answer.value (fun env => Machine.interpret depth env form)
      (Acting.ofRun.interpret depth s.env form)
  | output => exact absurd rfl hc

theorem step_leaves (depth : Nat) (s : Session) (c : Command) :
    (s.step depth c).2 = s.after depth [c] := by
  by_cases hc : c = .output
  · subst hc
    simp [after, lines, step, anew, Console.start]
  · rw [step_eq depth s hc]

/-! ## Many steps -/

/-- Every step is taken in a session that holds what the steps before it do by themselves. -/
theorem play_at (depth : Nat) (s : Session) (before : List Command) (c : Command)
    (rest : List Command) :
    (s.play depth (before ++ c :: rest))[before.length]? =
      some ((s.after depth before).step depth c) := by
  induction before generalizing s with
  | nil =>
    rw [after_nil]
    rfl
  | cons b before ih =>
    -- What a command does in the session anew is the same before and behind the step of `b`.
    have hafter : s.after depth (b :: before) = (s.step depth b).2.after depth before := by
      rw [step_leaves, ← after_append]
      rfl
    rw [hafter]
    exact ih (s.step depth b).2

/-! ## Forms one behind the other -/

/-- The results of forms that run behind others, which have the results `xs`. -/
def Answer.behind (xs : List Text) : Answer → Answer
  | .results ys => .results (xs ++ ys)
  | .result text => .result text
  | .value v => .value v
  | .output text => .output text

theorem step_runForms_append (depth : Nat) (s : Session) (fs gs : List Datum) :
    s.step depth (.runForms (fs ++ gs)) = s.perform (fun env =>
      Machine.runForms depth env fs >>= fun xs =>
        (fun ys => .results (xs ++ ys)) <$> Machine.runForms depth env gs) := by
  unfold step Machine.runForms
  -- `mapM` over an append is two of them in a row; the rest brings the results to the end.
  simp only [List.mapM_append, map_bind, bind_pure_comp, Functor.map_map]

/-- Forms that run behind forms that fail are not run. -/
theorem step_runForms_append_error (depth : Nat) {s t : Session} {fs : List Datum} {fault : Fault}
    (h : s.step depth (.runForms fs) = (.error fault, t)) (gs : List Datum) :
    s.step depth (.runForms (fs ++ gs)) = (.error fault, t) := by
  rw [step_runForms_append]
  rw [step] at h
  obtain ⟨outcome, hfirst, hfault⟩ := exists_of_perform_map h
  cases outcome with
  | ok xs => cases hfault
  | error fault =>
    cases hfault
    rw [perform_bind, hfirst]

/-- Forms that run behind forms with results run in the session that those leave. -/
theorem step_runForms_append_ok (depth : Nat) {s t : Session} {fs : List Datum} {xs : List Text}
    (h : s.step depth (.runForms fs) = (.ok (.results xs), t)) (gs : List Datum) :
    s.step depth (.runForms (fs ++ gs)) =
      ((t.step depth (.runForms gs)).1.map (Answer.behind xs),
        (t.step depth (.runForms gs)).2) := by
  rw [step] at h
  obtain ⟨outcome, hfirst, hxs⟩ := exists_of_perform_map h
  cases outcome with
  | error fault => cases hxs
  | ok xs =>
    cases hxs
    rw [step_runForms_append, perform_bind, hfirst]
    dsimp only
    rw [perform_map, step, perform_map]
    cases (t.perform fun env => Machine.runForms depth env gs).1 with
    | error fault => rfl
    | ok ys => rfl

end

/-! ## Sessions -/

/-- Whatever was printed before and whatever commands came before it, and whatever the sink
    refuses, a command has the answer that it has in the session anew. The session keeps its
    environment, and its sink holds the lines that were there, then those that each of the commands
    before prints by itself, then those of the command. Forms that run behind others run as they do
    in the session that those leave, with the results of both, or not at all if one of those fails;
    and a text that cannot be read prints nothing. -/
theorem steps_are_isolated [Host] (depth : Nat) (s : Session) :
    (∀ before c rest, c ≠ .output →
      (s.play depth (before ++ c :: rest))[before.length]? =
        some ((s.anew.step depth c).1, s.after depth (before ++ [c]))) ∧
    (∀ before rest,
      (s.play depth (before ++ .output :: rest))[before.length]? =
        some (.ok (.output (Text.asLines (s.after depth before).lines)),
          s.after depth before)) ∧
    (∀ cs, (s.after depth cs).env = s.env ∧ (s.after depth cs).lines =
      s.lines ++ cs.flatMap fun c => (s.anew.step depth c).2.lines) ∧
    (∀ fs gs fault t, s.step depth (.runForms fs) = (.error fault, t) →
      s.step depth (.runForms (fs ++ gs)) = (.error fault, t)) ∧
    (∀ fs gs xs t, s.step depth (.runForms fs) = (.ok (.results xs), t) →
      s.step depth (.runForms (fs ++ gs)) =
        ((t.step depth (.runForms gs)).1.map (Answer.behind xs),
          (t.step depth (.runForms gs)).2)) ∧
    (∀ source fault, read depth source = .error fault →
      s.step depth (.runText source) = (.error fault, s)) := by
  refine ⟨?_, ?_, fun cs => ⟨rfl, rfl⟩, ?_, ?_, ?_⟩
  · intro before c rest hc
    rw [play_at, step_eq depth _ hc, after_append]
    rfl
  · intro before rest
    rw [play_at]
    rfl
  · intro fs gs fault t h
    exact step_runForms_append_error depth h gs
  · intro fs gs xs t h
    exact step_runForms_append_ok depth h gs
  · intro source fault h
    exact step_runText_error depth s h

/-- A form that prints and one that fails, then a line that standard output refuses, in a session in
    which something was printed before. The lines before stay, and what runs afterwards is not
    affected. -/
theorem steps_are_isolated_after_failure :
    letI := Host.bare
    let s := start ⟨Sink.utf8Refusal?, ["z"]⟩
    let fs : List Datum :=
      [.list [.sym ⟨"println"⟩, .str "a"], .list [.sym ⟨"/"⟩, .int 1, .int 0], .int 3]
    let refused : Datum := .list [.sym ⟨"println"⟩, .str ⟨[.surrogate 0]⟩]
    let commands : List Command :=
      [.runForms fs, .report refused, .report (.sym ⟨"true"⟩), .output]
    let lines : List Text := ["z", "a"]
    let seen (n : Nat) := (s.play 9 commands)[n]?.map fun answered => (answered.1, answered.2.lines)
    seen 0 = some (.error .zeroDivision, lines) ∧
      seen 1 = some (.error (.unencodable (Text.EncodeFault.message ⟨0, .surrogate 0, 1⟩)), lines) ∧
      seen 2 = some (.ok (.result "true"), lines) ∧
      seen 3 = some (.ok (.output "z\na\n"), lines) := by
  let _ := Host.bare
  intro s fs refused commands lines seen
  obtain ⟨hanswer, houtput, -⟩ := steps_are_isolated 9 s
  refine ⟨?_, ?_, ?_, ?_⟩
  · exact congrArg (Option.map _)
      (hanswer [] (.runForms fs) [.report refused, .report (.sym ⟨"true"⟩), .output] (by simp))
  · exact congrArg (Option.map _)
      (hanswer [.runForms fs] (.report refused) [.report (.sym ⟨"true"⟩), .output] (by simp))
  · exact congrArg (Option.map _)
      (hanswer [.runForms fs, .report refused] (.report (.sym ⟨"true"⟩)) [.output] (by simp))
  · exact congrArg (Option.map _)
      (houtput [.runForms fs, .report refused, .report (.sym ⟨"true"⟩)] [])

end MiniLisp.Session
