/-
  MiniLisp.Proofs.CommandLine.Course

  What becomes of the forms of a program, said without a loop over them: some are
  completed, each with the lines that it prints and a result, and then the forms
  are at their end or one of them fails (`Course`). Every list of forms has one
  course (`exists_course`, `Course.unique`).

  A session collects the results and the command line prints them, in a loop of
  its own. Both loops are read off the course (`Course.runForms_eq`,
  `showForms_of_course`): they end alike, and their lines differ by the results.
  What a console makes of the loop is told by its run (`act_showText`).
-/
import MiniLisp.CommandLine
import MiniLisp.Proofs.Machine.Console
import MiniLisp.Proofs.Outcome

namespace MiniLisp

/-- What a form with a result leaves: the lines that it printed, and the result. -/
structure Completed where
  lines : List Text
  result : Text

/-- What becomes of forms that are run one after the other: those completed, the lines that a form
    printed before it failed, and the end. -/
inductive Course (depth : Nat) :
    List Datum → List Completed → List Text → Except Fault Unit → Prop
  | finished : Course depth [] [] [] (.ok ())
  | failed {form : Datum} {rest : List Datum} {fault : Fault}
      (h : (report depth form).outcome = .error fault) :
      Course depth (form :: rest) [] (report depth form).lines (.error fault)
  | completed {form : Datum} {rest : List Datum} {result : Text} {cs : List Completed}
      {broken : List Text} {ending : Except Fault Unit}
      (h : (report depth form).outcome = .ok result) (hrest : Course depth rest cs broken ending) :
      Course depth (form :: rest) (⟨(report depth form).lines, result⟩ :: cs) broken ending

variable {depth : Nat} {form : Datum} {forms : List Datum} {cs : List Completed}
  {broken : List Text} {ending : Except Fault Unit} {result : Text} {fault : Fault}

theorem exists_course (depth : Nat) (forms : List Datum) :
    ∃ cs broken ending, Course depth forms cs broken ending := by
  induction forms with
  | nil => exact ⟨_, _, _, .finished⟩
  | cons form forms ih =>
    obtain ⟨cs, broken, ending, hrest⟩ := ih
    cases h : (report depth form).outcome with
    | error fault => exact ⟨_, _, _, .failed h⟩
    | ok result => exact ⟨_, _, _, .completed h hrest⟩

/-- Forms have one course. -/
theorem Course.unique {cs' : List Completed} {broken' : List Text} {ending' : Except Fault Unit}
    (h : Course depth forms cs broken ending) (h' : Course depth forms cs' broken' ending') :
    cs = cs' ∧ broken = broken' ∧ ending = ending' := by
  induction h generalizing cs' with
  | finished =>
    cases h' with
    | finished => exact ⟨rfl, rfl, rfl⟩
  | failed h =>
    cases h' with
    | failed hfault =>
      cases h.symm.trans hfault
      exact ⟨rfl, rfl, rfl⟩
    | completed hresult _ => cases h.symm.trans hresult
  | completed h _ ih =>
    cases h' with
    | failed hfault => cases h.symm.trans hfault
    | completed hresult hrest =>
      obtain ⟨rfl, hbroken, hending⟩ := ih hrest
      cases h.symm.trans hresult
      exact ⟨rfl, hbroken, hending⟩

/-! ## Collecting the results -/

theorem runForms_cons (depth : Nat) (form : Datum) (forms : List Datum) :
    runForms depth (form :: forms) = (do
      let result ← report depth form
      Run.emit (.finished result)
      (result :: ·) <$> runForms depth forms) := by
  rw [runForms_eq, List.mapM_cons, ← runForms_eq]
  simp only [bind_assoc, pure_bind, map_eq_pure_bind]

/-- Running forms has the results of the forms completed, if all are, and prints what they print. -/
theorem Course.runForms_eq (h : Course depth forms cs broken ending) :
    (runForms depth forms).lines = cs.flatMap (·.lines) ++ broken ∧
      (runForms depth forms).outcome = ending.map fun _ => cs.map (·.result) := by
  induction h with
  | finished => exact ⟨rfl, rfl⟩
  | failed h =>
    rw [runForms_cons, Run.bind_of_outcome_error h]
    exact ⟨rfl, rfl⟩
  | @completed form rest result cs broken ending h _ ih =>
    obtain ⟨hlines, houtcome⟩ := ih
    rw [runForms_cons, Run.bind_of_outcome_ok h, Run.bind_of_outcome_ok rfl, Run.map_eq, houtcome]
    refine ⟨?_, ?_⟩
    · rw [List.flatMap_cons, List.append_assoc, ← hlines]
      exact List.filterMap_append
    · cases ending with
      | error fault => rfl
      | ok _ => rfl

namespace CommandLine

/-! ## Printing the results -/

/-- Prints the value of each form. -/
def showForms (depth : Nat) (forms : List Datum) : Run Unit :=
  forms.forM fun form => do
    let result ← report depth form
    Run.emit (.printed result)

theorem showForms_cons (depth : Nat) (form : Datum) (forms : List Datum) :
    showForms depth (form :: forms) = (do
      let result ← report depth form
      Run.emit (.printed result)
      showForms depth forms) := by
  rw [showForms, List.forM_eq_forM, List.forM_cons, bind_assoc]
  rfl

/-- The command line ends as the forms do, and prints each result behind the lines of its form. -/
theorem showForms_of_course (h : Course depth forms cs broken ending) :
    (showForms depth forms).lines = cs.flatMap (fun c => c.lines ++ [c.result]) ++ broken ∧
      (showForms depth forms).outcome = ending := by
  induction h with
  | finished => exact ⟨rfl, rfl⟩
  | failed h =>
    rw [showForms_cons, Run.bind_of_outcome_error h]
    exact ⟨rfl, rfl⟩
  | @completed form rest result cs broken ending h _ ih =>
    obtain ⟨hlines, houtcome⟩ := ih
    rw [showForms_cons, Run.bind_of_outcome_ok h, Run.bind_of_outcome_ok rfl]
    refine ⟨?_, houtcome⟩
    rw [List.flatMap_cons, List.append_assoc, ← hlines, List.append_assoc]
    exact List.filterMap_append

variable [Host]

theorem showText_eq (depth : Nat) (text : Text) :
    (showText depth text : Run Unit) = Run.ofExcept (read depth text) >>= showForms depth := rfl

/-- The loop of the command line is the same on every machine. -/
theorem act_showText (depth : Nat) (text : Text) :
    (showText depth text : Run Unit).act = showText depth text :=
  Acting.ofRun.bind_eq (Acting.ofRun.ofExcept _) fun forms =>
    Acting.ofRun.forM (fun form =>
      Acting.ofRun.bind_eq (Acting.ofRun.report depth topEnv form) fun _ =>
        Acting.ofRun.emit _) forms

end CommandLine

end MiniLisp
