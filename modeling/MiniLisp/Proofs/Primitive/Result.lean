/-
  MiniLisp.Proofs.Primitive.Result

  How the built-in operations can end. An operation makes a number, a text or a
  truth value, and `seq` hands its last argument on; none makes functions. An
  operation stops at a fault of its own (`Fault.operation?`), at a number of too
  many digits, at an argument that cannot be displayed, or for want of room to
  compare its arguments.

  `Primitive.ends_compute_by` says so for any property of values and of faults,
  `Primitive.ends_compute_of` without telling the operations apart, and
  `Primitive.keeps_apply_of` for the events too, so that an invariant of
  evaluation need not look into the operations.

  `Primitive.accepts` says how many arguments an operation takes. It stops at
  any other number of them, whatever they are (`Primitive.compute_of_not_accepts`),
  and prints nothing if it stops.
-/
import MiniLisp.Primitive.Apply
import MiniLisp.Proofs.Outcome

namespace MiniLisp

/-- A number, a text or a truth value. -/
def Value.isScalar : Value → Bool
  | .num _ | .str _ | .bool _ => true
  | .prim _ | .closure _ _ _ | .failure | .foreign _ => false

/-- What holds of numbers, texts and truth values holds of scalars. -/
theorem Value.of_isScalar {good : Value → Prop} (num : ∀ n, good (.num n))
    (str : ∀ s, good (.str s)) (bool : ∀ b, good (.bool b)) (v : Value) (h : v.isScalar = true) :
    good v := by
  cases v with
  | num n => exact num n
  | str s => exact str s
  | bool b => exact bool b
  | prim _ | closure _ _ _ | failure | foreign _ => cases h

/-- The faults that operations stop at, but for arguments that cannot be displayed. -/
def Fault.isOfOperation : Fault → Bool
  | .primitiveArity _ _ | .operandKinds _ _ _ | .printKind _ | .zeroDivision | .user _
  | .longDecimal | .tooDeep => true
  | _ => false

/-- The operation that stops at the fault, where only one does. -/
def Fault.operation? : Fault → Option Primitive
  | .primitiveArity p _ | .operandKinds p _ _ => some p
  | .printKind _ => some .println
  | .zeroDivision => some .div
  | .user _ => some .raise
  | _ => none

theorem Fault.isOfOperation_of_operation? {fault : Fault} {p : Primitive}
    (h : fault.operation? = some p) : fault.isOfOperation = true := by
  cases fault with
  | primitiveArity _ _ | operandKinds _ _ _ | printKind _ | zeroDivision | user _ => rfl
  | _ => cases h

namespace Primitive

variable {good : Value → Prop} {allowed : Fault → Prop}

theorem symbol_of_ofSymbol? {x : Symbol} {p : Primitive} (h : ofSymbol? x = some p) :
    p.symbol = x := by
  have hname : p.name = x.name := by simpa using List.find?_some h
  rw [symbol, hname]

theorem applySymbol_symbol (depth : Nat) (p : Primitive) (args : List Value) :
    applySymbol depth p.symbol args = p.apply depth args :=
  applySymbol_of_ofSymbol? (ofSymbol?_symbol p) depth args

theorem outcome_applySymbol (depth : Nat) (p : Primitive) (args : List Value) :
    (applySymbol depth p.symbol args).outcome = p.compute depth args := by
  rw [applySymbol_symbol, apply_eq]

section

variable {p : Primitive} (hfaults : ∀ fault : Fault, fault.operation? = some p → allowed fault)

include hfaults

theorem ends_fault_of {α : Type} {good : α → Prop} {fault : Fault}
    (h : fault.operation? = some p) : Ends good allowed (.error fault) :=
  .error (hfaults fault h)

theorem ends_numbers (args : List Value) : Ends (fun _ => True) allowed (numbers p args) := by
  unfold numbers
  split
  · split
    · exact .ok trivial
    · exact ends_fault_of hfaults rfl
  · exact ends_fault_of hfaults rfl

end

theorem ends_quotient (hzero : allowed .zeroDivision) (m n : Int) :
    Ends (fun _ => True) allowed (quotient m n) := by
  rw [quotient]
  exact Ends.ite (.error hzero) (.ok trivial)

section Texts

variable (hdigits : allowed .longDecimal)

include hdigits

theorem ends_decimalText (n : Int) : Ends (fun _ => True) allowed (decimalText n) := by
  rw [decimalText]
  exact Ends.ite (.ok trivial) (.error hdigits)

theorem ends_written (d : Datum) : Ends (fun _ => True) allowed d.written := by
  rw [Datum.written]
  exact Ends.ite (.ok trivial) (.error hdigits)

/-- The canonical text of an expression fails only for want of room, or at a number of too many
    digits. -/
theorem ends_canonical_expr (hdepth : allowed .tooDeep) (depth : Nat) (e : Expr) :
    Ends (fun _ => True) allowed (e.canonical depth) := by
  induction depth generalizing e with
  | zero => exact .error hdepth
  | succ depth ih =>
    cases e with
    | num n => exact (ends_decimalText hdigits n).bind fun _ _ => .ok trivial
    | str _ | bool _ | ident _ => exact .ok trivial
    | cond test yes no =>
      exact (ih test).bind fun _ _ => (ih yes).bind fun _ _ => (ih no).bind fun _ _ => .ok trivial
    | lambda params body => exact (ih body).bind fun _ _ => .ok trivial
    | apply callee args =>
      exact (ih callee).bind fun _ _ => (Ends.mapM fun e _ => ih e).bind fun _ _ => .ok trivial
    | foreign d => exact ends_written hdigits d

theorem ends_canonical (hdepth : allowed .tooDeep) (depth : Nat) (v : Value) :
    Ends (fun _ => True) allowed (v.canonical depth) := by
  cases depth with
  | zero => exact .error hdepth
  | succ depth =>
    cases v with
    | num n => exact (ends_decimalText hdigits n).bind fun _ _ => .ok trivial
    | str _ | bool _ | prim _ | failure => exact .ok trivial
    | closure params body env =>
      exact (ends_canonical_expr hdigits hdepth depth body).bind fun _ _ => .ok trivial
    | foreign d => exact ends_written hdigits d

/-- Displaying a value stops at a number of too many digits or at a kind that has no text. -/
theorem ends_display_of (hkinds : ∀ kind, allowed (.unprintableKind kind)) (v : Value) :
    Ends (fun _ => True) allowed v.display := by
  cases v with
  | num n => exact ends_decimalText hdigits n
  | str _ | bool _ | prim _ | closure _ _ _ => exact .ok trivial
  | failure | foreign _ => exact .error (hkinds _)

end Texts

/-- The part that a number or any value but a text makes of a longer text is what is displayed of
    it. -/
theorem part_eq_display {v : Value} (h : ∀ s, v ≠ .str s) : part v = v.display := by
  cases v with
  | str s => exact absurd rfl (h s)
  | num _ | bool _ | prim _ | closure _ _ _ | failure | foreign _ => rfl

theorem ends_part {v : Value} (h : Ends (fun _ => True) allowed v.display) :
    Ends (fun _ => True) allowed (part v) := by
  cases v with
  | str _ => exact .ok trivial
  | num _ | bool _ | prim _ | closure _ _ _ | failure | foreign _ => exact h

/-- An operation has a scalar for its result, or one of its arguments if it is `seq`, or stops at
    a fault of its own, at a number of too many digits, at displaying an argument, or for want of
    room. -/
theorem ends_compute_by (depth : Nat) (p : Primitive) {args : List Value}
    (hscalars : ∀ v : Value, v.isScalar = true → good v)
    (hseq : p = .seq → ∀ v ∈ args, good v)
    (hfaults : ∀ fault : Fault, fault.operation? = some p → allowed fault)
    (hdigits : allowed .longDecimal) (hdepth : allowed .tooDeep)
    (hdisplay : ∀ v ∈ args, Ends (fun _ => True) allowed v.display) :
    Ends good allowed (p.compute depth args) := by
  have hnumbers := ends_numbers hfaults args
  have hcanonical (v : Value) : Ends (fun _ => True) allowed (v.canonical depth) :=
    ends_canonical hdigits hdepth depth v
  cases p with
  | add => exact hnumbers.bind fun _ _ => .ok (hscalars _ rfl)
  | sub => exact hnumbers.bind fun _ _ => .ok (hscalars _ rfl)
  | mul => exact hnumbers.bind fun _ _ => .ok (hscalars _ rfl)
  | div =>
    exact hnumbers.bind fun _ _ =>
      (ends_quotient (hfaults _ rfl) _ _).bind fun _ _ => .ok (hscalars _ rfl)
  | atMost => exact hnumbers.bind fun _ _ => .ok (hscalars _ rfl)
  | same =>
    unfold compute
    dsimp only
    split
    · exact (hcanonical _).bind fun _ _ => (hcanonical _).bind fun _ _ => .ok (hscalars _ rfl)
    · exact ends_fault_of hfaults rfl
  | println =>
    unfold compute
    dsimp only
    split
    · exact .ok (hscalars _ rfl)
    · exact ends_fault_of hfaults rfl
    · exact ends_fault_of hfaults rfl
  | seq =>
    unfold compute
    dsimp only
    split
    · rename_i v hv
      exact .ok (hseq rfl v (List.mem_of_getLast? hv))
    · exact ends_fault_of hfaults rfl
  | concat =>
    have hjoined : Ends (fun _ => True) allowed (joined args) :=
      (Ends.mapM fun v hv => ends_part (hdisplay v hv)).bind fun _ _ => .ok trivial
    exact Ends.ite (ends_fault_of hfaults rfl) (hjoined.bind fun _ _ => .ok (hscalars _ rfl))
  | raise =>
    unfold compute
    dsimp only
    split
    · exact (hdisplay _ List.mem_cons_self).bind fun _ _ => ends_fault_of hfaults rfl
    · exact ends_fault_of hfaults rfl

/-- An operation has a scalar or one of its arguments for its result, or stops at a fault of
    operations or of displaying an argument. -/
theorem ends_compute_of (depth : Nat) (p : Primitive) {args : List Value}
    (hscalars : ∀ v : Value, v.isScalar = true → good v) (hargs : ∀ v ∈ args, good v)
    (hfaults : ∀ fault : Fault, fault.isOfOperation = true → allowed fault)
    (hdisplay : ∀ v ∈ args, Ends (fun _ => True) allowed v.display) :
    Ends good allowed (p.compute depth args) :=
  ends_compute_by depth p hscalars (fun _ => hargs)
    (fun fault h => hfaults fault (Fault.isOfOperation_of_operation? h)) (hfaults _ rfl)
    (hfaults _ rfl) hdisplay

/-- The events of an operation are its application and, if it is `println`, the line that it may
    print. -/
theorem keeps_apply_by {noted : Event → Prop} {depth : Nat} {p : Primitive} {args : List Value}
    (hoperated : noted (.operated p args))
    (hprinted : p = .println → ∀ line, noted (.printed line))
    (hcompute : Ends good allowed (p.compute depth args)) :
    (p.apply depth args).Keeps noted good allowed := by
  rw [apply_eq]
  refine ⟨List.forall_mem_cons.mpr ⟨hoperated, ?_⟩, hcompute⟩
  unfold output
  split
  · exact List.forall_mem_singleton.mpr (hprinted rfl _)
  · exact fun ev hev => absurd hev List.not_mem_nil

/-- The events of an operation are its application and the line that it may print. -/
theorem keeps_apply_of {noted : Event → Prop} {depth : Nat} {p : Primitive} {args : List Value}
    (hoperated : noted (.operated p args)) (hprinted : ∀ line, noted (.printed line))
    (hcompute : Ends good allowed (p.compute depth args)) :
    (p.apply depth args).Keeps noted good allowed :=
  keeps_apply_by hoperated (fun _ => hprinted) hcompute

/-- A symbol is applied as the operation that it names, or refused. -/
theorem keeps_applySymbol_of {noted : Event → Prop} {depth : Nat} {op : Symbol} {args : List Value}
    (hknown : ∀ p : Primitive, p.symbol = op → (p.apply depth args).Keeps noted good allowed)
    (hunknown : allowed (.unknownPrimitive op)) :
    (applySymbol depth op args).Keeps noted good allowed := by
  cases hp : ofSymbol? op with
  | none =>
    rw [applySymbol_of_unknown hp]
    exact .fail hunknown
  | some p =>
    rw [applySymbol_of_ofSymbol? hp]
    exact hknown p (symbol_of_ofSymbol? hp)

/-! ## The number of arguments -/

/-- The operation takes so many arguments. -/
def accepts (p : Primitive) (count : Nat) : Bool :=
  match p with
  | .add | .sub | .mul | .div | .atMost | .same => count == 2
  | .println | .raise => count == 1
  | .seq | .concat => 0 < count

variable {depth : Nat} {p : Primitive} {args : List Value}

theorem numbers_of_length_ne (h : args.length ≠ 2) :
    numbers p args = .error (.primitiveArity p args.length) := by
  unfold numbers
  split
  · exact absurd rfl h
  · rfl

/-- An operation refuses a number of arguments that it does not take. -/
theorem compute_of_not_accepts (h : p.accepts args.length = false) :
    p.compute depth args = .error (.primitiveArity p args.length) := by
  cases p with
  | add | sub | mul | div | atMost =>
    unfold compute
    dsimp only
    rw [numbers_of_length_ne (ne_of_beq_false h)]
    rfl
  | same | raise =>
    unfold compute
    dsimp only
    split
    · cases h
    · rfl
  | println =>
    unfold compute
    dsimp only
    split
    · cases h
    · cases h
    · rfl
  | seq | concat =>
    obtain rfl : args = [] := by simpa [accepts] using h
    rfl

/-- An operation that stops prints nothing. -/
theorem output_of_compute_eq_error {fault : Fault} (h : p.compute depth args = .error fault) :
    output p args = [] := by
  unfold output
  split
  · cases h
  · rfl

end Primitive

end MiniLisp
