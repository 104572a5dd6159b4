/-
  MiniLisp.Proofs.Primitive.Dispatch

  The checks on a call of a built-in operation, and their order. The symbol is
  looked up first; then the number of the arguments is checked, then their kinds,
  and the divisor last. `Checked op args k` says at which of these checks a call is
  refused, or that it passes all of them; every call is in one of the cases
  (`exists_checked`).

  A check that fails decides the class of the fault, whatever the later checks would
  find (`fails_of_checked`). Behind the checks only comparing and displaying can still
  stop an operation, and `error`, which does nothing else (`ends_of_checked`); and the
  sink may refuse the line that `println` prints (`perform_applySymbol_cases`).
-/
import MiniLisp.Proofs.Machine.Console
import MiniLisp.Proofs.Primitive.Result

namespace MiniLisp

/-- The computation stops at a fault of the class. -/
def Fails {α : Type} (kind : FaultKind) (r : Except Fault α) : Prop :=
  ∃ fault, r = .error fault ∧ fault.kind = kind

/-- A number. -/
def Value.isNumber : Value → Bool
  | .num _ => true
  | _ => false

/-- A text. -/
def Value.isText : Value → Bool
  | .str _ => true
  | _ => false

theorem Value.exists_of_isNumber {v : Value} (h : v.isNumber = true) : ∃ n, v = .num n := by
  cases v with
  | num n => exact ⟨n, rfl⟩
  | str _ | bool _ | prim _ | closure _ _ _ | failure | foreign _ => cases h

theorem Value.exists_of_isText {v : Value} (h : v.isText = true) : ∃ s, v = .str s := by
  cases v with
  | str s => exact ⟨s, rfl⟩
  | num _ | bool _ | prim _ | closure _ _ _ | failure | foreign _ => cases h

namespace Primitive

/-- The operation takes arguments of this kind. -/
def admits (p : Primitive) (v : Value) : Bool :=
  match p with
  | .add | .sub | .mul | .div | .atMost => v.isNumber
  | .println => v.isText
  | .same | .seq | .concat | .raise => true

/-! ## The cases of a call -/

/-- Where a call is refused: by the symbol, by the number of the arguments, by their kinds or by the
    divisor, each of these only behind the ones before it; or nowhere. -/
inductive Checked : Symbol → List Value → Option FaultKind → Prop
  | symbol {op : Symbol} {args : List Value} (h : ∀ p : Primitive, p.symbol ≠ op) :
      Checked op args (some .unknownPrimitive)
  | count {p : Primitive} {args : List Value} (h : p.accepts args.length = false) :
      Checked p.symbol args (some .arity)
  | kinds {p : Primitive} {args : List Value} (hcount : p.accepts args.length = true)
      (h : ∃ v ∈ args, p.admits v = false) : Checked p.symbol args (some .operand)
  | divisor (m : Int) : Checked div.symbol [.num m, .num 0] (some .zeroDivision)
  | passed {p : Primitive} {args : List Value} (hcount : p.accepts args.length = true)
      (hkinds : ∀ v ∈ args, p.admits v = true)
      (hdivisor : p = .div → ∀ m, args ≠ [.num m, .num 0]) : Checked p.symbol args none

theorem exists_checked (op : Symbol) (args : List Value) : ∃ k, Checked op args k := by
  by_cases hop : ∀ p : Primitive, p.symbol ≠ op
  · exact ⟨_, .symbol hop⟩
  · obtain ⟨p, hp⟩ := not_forall.mp hop
    obtain rfl := not_not.mp hp
    cases hcount : p.accepts args.length with
    | false => exact ⟨_, .count hcount⟩
    | true =>
      by_cases hkinds : ∃ v ∈ args, p.admits v = false
      · exact ⟨_, .kinds hcount hkinds⟩
      · by_cases hdivisor : p = .div ∧ ∃ m, args = [.num m, .num 0]
        · obtain ⟨rfl, m, rfl⟩ := hdivisor
          exact ⟨_, .divisor m⟩
        · refine ⟨_, .passed hcount ?_ fun hp m hargs => hdivisor ⟨hp, m, hargs⟩⟩
          intro v hv
          by_contra hnot
          exact hkinds ⟨v, hv, Bool.eq_false_iff.mpr hnot⟩

/-! ## What a refused call ends in -/

variable {depth : Nat} {p : Primitive} {args : List Value}

theorem exists_pair_of_accepts (h : (args.length == 2) = true) : ∃ v w, args = [v, w] :=
  List.length_eq_two.mp (eq_of_beq h)

theorem exists_single_of_accepts (h : (args.length == 1) = true) : ∃ v, args = [v] :=
  List.length_eq_one_iff.mp (eq_of_beq h)

/-- A numeric operation looks at the kinds of both operands before it does anything else. -/
theorem numbers_of_not_isNumber {v w : Value} (h : ∃ u ∈ [v, w], u.isNumber = false) :
    numbers p [v, w] = .error (.operandKinds p v.kindName w.kindName) := by
  unfold numbers
  dsimp only
  split
  · obtain ⟨u, hu, hnot⟩ := h
    simp only [List.mem_cons, List.not_mem_nil, or_false] at hu
    rcases hu with rfl | rfl
    · cases hnot
    · cases hnot
  · rfl

theorem compute_of_not_admits (hcount : p.accepts args.length = true)
    (h : ∃ v ∈ args, p.admits v = false) : Fails .operand (compute depth p args) := by
  cases p with
  | add | sub | mul | div | atMost =>
    obtain ⟨v, w, rfl⟩ := exists_pair_of_accepts hcount
    unfold compute
    dsimp only
    rw [numbers_of_not_isNumber h]
    exact ⟨_, rfl, rfl⟩
  | println =>
    obtain ⟨v, rfl⟩ := exists_single_of_accepts hcount
    obtain ⟨u, hu, hnot⟩ := h
    obtain rfl := List.mem_singleton.mp hu
    cases u with
    | str s => cases hnot
    | num _ | bool _ | prim _ | closure _ _ _ | failure | foreign _ => exact ⟨_, rfl, rfl⟩
  | same | seq | concat | raise =>
    obtain ⟨v, -, hnot⟩ := h
    cases hnot

/-- The first check that fails decides the class of the fault. -/
theorem fails_of_checked {op : Symbol} {kind : FaultKind} (h : Checked op args (some kind)) :
    Fails kind (applySymbol depth op args).outcome := by
  cases h with
  | symbol h =>
    have hnone : ofSymbol? op = none := by
      cases hop : ofSymbol? op with
      | none => rfl
      | some p => exact absurd (symbol_of_ofSymbol? hop) (h p)
    rw [applySymbol_of_unknown hnone]
    exact ⟨_, rfl, rfl⟩
  | count h =>
    rw [outcome_applySymbol, compute_of_not_accepts h]
    exact ⟨_, rfl, rfl⟩
  | kinds hcount h =>
    rw [outcome_applySymbol]
    exact compute_of_not_admits hcount h
  | divisor m => exact ⟨.zeroDivision, rfl, rfl⟩

/-! ## What a call that passes can still end in -/

theorem exists_numbers_of_admits {v w : Value} (h : ∀ u ∈ [v, w], u.isNumber = true) :
    ∃ m n, v = .num m ∧ w = .num n := by
  obtain ⟨m, hm⟩ := Value.exists_of_isNumber (h v List.mem_cons_self)
  obtain ⟨n, hn⟩ := Value.exists_of_isNumber (h w (List.mem_cons_of_mem v List.mem_cons_self))
  exact ⟨m, n, hm, hn⟩

/-- Behind the checks, `equal?`, `++` and `error` can stop at a value without a text, `equal?` for
    want of room, and `error` stops in any case. -/
def stopsLate (op : Symbol) (fault : Fault) : Prop :=
  op ∈ [same.symbol, concat.symbol, raise.symbol] ∧
      fault.kind ∈ [FaultKind.digits, .unprintable, .user] ∨
    op = same.symbol ∧ fault = .tooDeep

theorem ends_of_checked {op : Symbol} (h : Checked op args none) :
    Ends (fun _ => True) (stopsLate op) (applySymbol depth op args).outcome := by
  cases h with
  | @passed p _ hcount hkinds hdivisor =>
    have hdisplay (hp : p.symbol ∈ [same.symbol, concat.symbol, raise.symbol]) (v : Value) :
        Ends (fun _ => True) (stopsLate p.symbol) v.display :=
      ends_display_of (.inl ⟨hp, by decide⟩) (fun _ => .inl ⟨hp, by simp [Fault.kind]⟩) v
    rw [outcome_applySymbol]
    cases p with
    | add | sub | mul | atMost =>
      obtain ⟨v, w, rfl⟩ := exists_pair_of_accepts hcount
      obtain ⟨m, n, rfl, rfl⟩ := exists_numbers_of_admits hkinds
      exact .ok trivial
    | div =>
      obtain ⟨v, w, rfl⟩ := exists_pair_of_accepts hcount
      obtain ⟨m, n, rfl, rfl⟩ := exists_numbers_of_admits hkinds
      have hn : n ≠ 0 := fun hn => hdivisor rfl m (by rw [hn])
      show Ends _ _ (do let q ← quotient m n; pure (Value.num q))
      rw [quotient, if_neg hn]
      exact .ok trivial
    | same =>
      obtain ⟨v, w, rfl⟩ := exists_pair_of_accepts hcount
      have hcanonical (v : Value) :
          Ends (fun _ => True) (stopsLate same.symbol) (v.canonical depth) :=
        ends_canonical (.inl ⟨by decide, by decide⟩) (.inr ⟨rfl, rfl⟩) depth v
      exact (hcanonical v).bind fun _ _ => (hcanonical w).bind fun _ _ => .ok trivial
    | println =>
      obtain ⟨v, rfl⟩ := exists_single_of_accepts hcount
      obtain ⟨s, rfl⟩ := Value.exists_of_isText (hkinds v List.mem_cons_self)
      exact .ok trivial
    | seq =>
      have hne : args ≠ [] := List.ne_nil_of_length_pos (of_decide_eq_true hcount)
      unfold compute
      dsimp only
      rw [List.getLast?_eq_some_getLast hne]
      exact .ok trivial
    | concat =>
      have hne : args ≠ [] := List.ne_nil_of_length_pos (of_decide_eq_true hcount)
      have hjoined : Ends (fun _ => True) (stopsLate concat.symbol) (joined args) :=
        (Ends.mapM fun v _ => ends_part (hdisplay (by decide) v)).bind fun _ _ => .ok trivial
      unfold compute
      dsimp only
      rw [if_neg (by rw [List.isEmpty_iff]; exact hne)]
      exact hjoined.bind fun _ _ => .ok trivial
    | raise =>
      obtain ⟨v, rfl⟩ := exists_single_of_accepts hcount
      exact (hdisplay (by decide) v).bind fun _ _ =>
        .error (.inl ⟨by decide, by simp [Fault.kind]⟩)

/-- Each of the four classes of faults is that of one check. -/
theorem fails_iff_checked {op : Symbol} {kind : FaultKind}
    (hkind : kind ∉ [FaultKind.digits, .unprintable, .user, .depth]) :
    Fails kind (applySymbol depth op args).outcome ↔ Checked op args (some kind) := by
  constructor
  · -- The call is in some case, and the fault tells which.
    rintro ⟨fault, hfault, rfl⟩
    obtain ⟨k, hk⟩ := exists_checked op args
    cases k with
    | none =>
      rcases (ends_of_checked hk).allowed_of_eq_error hfault with ⟨-, hlate⟩ | ⟨-, rfl⟩
      · exact absurd (List.mem_append_left [FaultKind.depth] hlate) hkind
      · exact absurd (by decide) hkind
    | some k =>
      obtain ⟨fault', hfault', rfl⟩ := fails_of_checked hk
      rw [hfault] at hfault'
      cases hfault'
      exact hk
  · exact fails_of_checked

/-! ## The classes of faults, one by one -/

section

variable {op : Symbol}

/-- The names of the ten operations. -/
def names : List Text :=
  ["+", "-", "*", "/", "<=", "equal?", "println", "seq", "++", "error"]

theorem symbol_ne_iff : (∀ p : Primitive, p.symbol ≠ op) ↔ op.name ∉ names := by
  have hnames : names = all.map name := rfl
  have hall (p : Primitive) : p ∈ all := by cases p <;> decide
  rw [hnames, List.mem_map, not_exists]
  constructor
  · rintro h p ⟨-, hp⟩
    exact h p (by rw [symbol, hp])
  · intro h p hp
    exact h p ⟨hall p, congrArg Symbol.name hp⟩

theorem fails_unknownPrimitive_iff :
    Fails .unknownPrimitive (applySymbol depth op args).outcome ↔ op.name ∉ names := by
  rw [fails_iff_checked (by decide), ← symbol_ne_iff]
  constructor
  · intro h
    cases h with
    | symbol h => exact h
  · exact .symbol

theorem fails_arity_iff :
    Fails .arity (applySymbol depth op args).outcome ↔
      ∃ p : Primitive, op = p.symbol ∧ p.accepts args.length = false := by
  rw [fails_iff_checked (by decide)]
  constructor
  · intro h
    cases h with
    | count h => exact ⟨_, rfl, h⟩
  · rintro ⟨p, rfl, h⟩
    exact .count h

theorem fails_operand_iff :
    Fails .operand (applySymbol depth op args).outcome ↔
      ∃ p : Primitive, op = p.symbol ∧ p.accepts args.length = true ∧
        ∃ v ∈ args, p.admits v = false := by
  rw [fails_iff_checked (by decide)]
  constructor
  · intro h
    cases h with
    | kinds hcount h => exact ⟨_, rfl, hcount, h⟩
  · rintro ⟨p, rfl, hcount, h⟩
    exact .kinds hcount h

theorem fails_zeroDivision_iff :
    Fails .zeroDivision (applySymbol depth op args).outcome ↔
      op = div.symbol ∧ ∃ m, args = [.num m, .num 0] := by
  rw [fails_iff_checked (by decide)]
  constructor
  · intro h
    cases h with
    | divisor m => exact ⟨rfl, m, rfl⟩
  · rintro ⟨rfl, m, rfl⟩
    exact .divisor m

/-- There are no faults but those of the checks and the late ones. -/
theorem kind_of_fails {fault : Fault} (h : (applySymbol depth op args).outcome = .error fault) :
    fault.kind ∈ [.unknownPrimitive, .arity, .operand, .zeroDivision] ∨ stopsLate op fault := by
  obtain ⟨k, hk⟩ := exists_checked op args
  cases k with
  | none => exact .inr ((ends_of_checked hk).allowed_of_eq_error h)
  | some kind =>
    have hfails : Fails kind (applySymbol depth op args).outcome := fails_of_checked hk
    obtain ⟨fault', h', rfl⟩ := hfails
    cases h.symm.trans h'
    generalize fault.kind = kind at hk
    cases hk with
    | symbol _ | count _ | kinds _ _ | divisor _ => exact .inl (by decide)

end

/-! ## The lines printed -/

theorem lines_applySymbol (depth : Nat) (p : Primitive) (args : List Value) :
    (applySymbol depth p.symbol args).lines = (output p args).filterMap Event.line? := by
  rw [applySymbol_symbol, apply_eq]
  rfl

theorem output_of_ne_println (h : p ≠ .println) : output p args = [] := by
  unfold output
  split
  · exact absurd rfl h
  · rfl

theorem exists_of_compute_println {v : Value} (h : compute depth .println args = .ok v) :
    ∃ line, args = [.str line] ∧ v = .bool true := by
  unfold compute at h
  dsimp only at h
  split at h
  · rename_i line
    cases h
    exact ⟨line, rfl, rfl⟩
  · cases h
  · cases h

/-- Only `println` prints, and only when it has a result. -/
theorem lines_applySymbol_cases (depth : Nat) (op : Symbol) (args : List Value) :
    (∃ line, op = println.symbol ∧ args = [.str line] ∧
        (applySymbol depth op args).outcome = .ok (.bool true) ∧
        (applySymbol depth op args).lines = [line]) ∨
      (applySymbol depth op args).lines = [] ∧
        (op = println.symbol → ∃ fault, (applySymbol depth op args).outcome = .error fault) := by
  by_cases hop : op = println.symbol
  · subst hop
    rw [outcome_applySymbol, lines_applySymbol]
    cases hcompute : compute depth .println args with
    | error fault =>
      rw [output_of_compute_eq_error hcompute]
      exact .inr ⟨rfl, fun _ => ⟨fault, rfl⟩⟩
    | ok v =>
      obtain ⟨line, rfl, rfl⟩ := exists_of_compute_println hcompute
      exact .inl ⟨line, rfl, rfl, rfl, rfl⟩
  · refine .inr ⟨?_, fun h => absurd h hop⟩
    cases hp : ofSymbol? op with
    | none =>
      rw [applySymbol_of_unknown hp]
      rfl
    | some p =>
      obtain rfl := symbol_of_ofSymbol? hp
      have hne : p ≠ .println := fun h => hop (by rw [h])
      rw [lines_applySymbol, output_of_ne_println hne]
      rfl

/-- A session whose sink takes the line of `println` gets that line. A line that is refused, and any
    other call, leaves the sink as it was. -/
theorem perform_applySymbol_cases (depth : Nat) (s : Session) (op : Symbol) (args : List Value) :
    let answered := s.perform fun _ => Machine.applySymbol depth op args
    let sink := s.console.sink
    (∃ line, op = println.symbol ∧ args = [.str line] ∧
        (applySymbol depth op args).outcome = .ok (.bool true) ∧
        (sink.refusal? line = none ∧ answered.1 = .ok (.bool true) ∧
            answered.2.console.sink = { sink with lines := sink.lines ++ [line] } ∨
          ∃ words, sink.refusal? line = some words ∧
            answered.1 = .error (.unencodable words) ∧ answered.2.console.sink = sink)) ∨
      answered.1 = (applySymbol depth op args).outcome ∧ answered.2.console.sink = sink ∧
        (op = println.symbol → ∃ fault, (applySymbol depth op args).outcome = .error fault) := by
  intro answered sink
  obtain ⟨houtcome, hsession⟩ := Prod.ext_iff.mp
    (@s.perform_act _ (fun _ => Machine.applySymbol depth op args) _
      (Acting.applySymbol_eq depth op args))
  rcases lines_applySymbol_cases depth op args with
    ⟨line, hop, hargs, hok, hlines⟩ | ⟨hlines, hfails⟩
  · refine .inl ⟨line, hop, hargs, hok, ?_⟩
    rcases (applySymbol depth op args).admitted_cases sink.refusal? with
      ⟨htaken, hadmitted⟩ | ⟨before, line', rest, words, hsplit, -, hrefused, hprinted, hends⟩
    · rw [hlines, List.forall_mem_singleton] at htaken
      refine .inl ⟨htaken, houtcome.trans ?_, (congrArg (·.console.sink) hsession).trans ?_⟩
      · exact (congrArg Run.outcome hadmitted).trans hok
      · show (s.console.after ((applySymbol depth op args).admitted sink.refusal?).events).sink = _
        rw [hadmitted, Console.after]
        show { sink with lines := sink.lines ++ (applySymbol depth op args).lines } = _
        rw [hlines]
    · -- the line that is refused is the only one, so none comes before it
      rw [hlines] at hsplit
      rcases List.append_eq_singleton_iff.mp hsplit.symm with ⟨rfl, hline⟩ | ⟨-, ⟨⟩⟩
      cases hline
      exact .inr ⟨words, hrefused, houtcome.trans hends,
        (congrArg (·.console.sink) hsession).trans (s.console.sink_after_of_silent hprinted)⟩
  · have hadmitted :
        (applySymbol depth op args).admitted sink.refusal? = applySymbol depth op args :=
      Run.admitted_eq_self (by rw [hlines]; exact List.forall_mem_nil _)
    refine .inr ⟨houtcome.trans (congrArg Run.outcome hadmitted),
      (congrArg (·.console.sink) hsession).trans ?_, hfails⟩
    show (s.console.after ((applySymbol depth op args).admitted sink.refusal?).events).sink = _
    rw [hadmitted]
    exact s.console.sink_after_of_silent hlines

/-- A refusal by the sink is of no other class of faults, so it changes none of the classes of the
    checks. -/
theorem fails_perform_iff {s : Session} {op : Symbol} {kind : FaultKind}
    (hkind : kind ≠ .encoding) :
    Fails kind (s.perform fun _ => Machine.applySymbol depth op args).1 ↔
      Fails kind (applySymbol depth op args).outcome := by
  rcases perform_applySymbol_cases depth s op args with
    ⟨line, -, -, hok, ⟨-, htrue, -⟩ | ⟨words, -, hrefused, -⟩⟩ | ⟨houtcome, -, -⟩
  · rw [hok, htrue]
  · rw [hok, hrefused]
    refine iff_of_false ?_ ?_
    · rintro ⟨fault, hfault, rfl⟩
      cases hfault
      exact hkind rfl
    · rintro ⟨fault, hfault, -⟩
      cases hfault
  · rw [houtcome]

/-- **One discipline of failing for all built-in operations.** A symbol that names none of them is
    refused, whatever it is applied to. Otherwise a wrong number of arguments is, whatever they are;
    otherwise an operand that is no number, or an argument of `println` that is no text, whatever
    the divisor is; and otherwise a division by zero. Only `equal?`, `++` and `error` can stop at
    anything else, and `println` at a line that the sink refuses. A sink changes only when `println`
    has a result, and then by the one line that is its argument; a call that fails leaves the sink
    as it was. -/
theorem dispatch_checks_in_order (depth : Nat) (s : Session) (op : Symbol) (args : List Value) :
    let answered := s.perform fun _ => Machine.applySymbol depth op args
    (Fails .unknownPrimitive answered.1 ↔ op.name ∉ names) ∧
      (Fails .arity answered.1 ↔ ∃ p : Primitive, op = p.symbol ∧ p.accepts args.length = false) ∧
      (Fails .operand answered.1 ↔ ∃ p : Primitive, op = p.symbol ∧
        p.accepts args.length = true ∧ ∃ v ∈ args, p.admits v = false) ∧
      (Fails .zeroDivision answered.1 ↔ op = div.symbol ∧ ∃ m, args = [.num m, .num 0]) ∧
      (∀ fault, answered.1 = .error fault →
        fault.kind ∈ [.unknownPrimitive, .arity, .operand, .zeroDivision] ∨ stopsLate op fault ∨
          ∃ line words, op = println.symbol ∧ args = [.str line] ∧
            s.console.sink.refusal? line = some words ∧ fault = .unencodable words) ∧
      (answered.2.console.sink ≠ s.console.sink ↔
        op = println.symbol ∧ ∃ v, answered.1 = .ok v) ∧
      (∀ v, op = println.symbol → answered.1 = .ok v →
        ∃ line, args = [.str line] ∧ answered.2.lines = s.lines ++ [line]) ∧
      ∀ fault, answered.1 = .error fault → answered.2.console.sink = s.console.sink := by
  intro answered
  refine ⟨(fails_perform_iff (by decide)).trans fails_unknownPrimitive_iff,
    (fails_perform_iff (by decide)).trans fails_arity_iff,
    (fails_perform_iff (by decide)).trans fails_operand_iff,
    (fails_perform_iff (by decide)).trans fails_zeroDivision_iff, ?_⟩
  rcases perform_applySymbol_cases depth s op args with
    ⟨line, hop, hargs, -, ⟨-, hends, hsink⟩ | ⟨words, hrefused, hends, hsink⟩⟩ |
      ⟨houtcome, hsink, hfails⟩
  · -- `println` with a text that is taken: the sink has one line more
    have hchanged : answered.2.console.sink ≠ s.console.sink := by
      intro hsame
      have hlines : s.lines ++ [line] = s.lines := congrArg Sink.lines (hsink.symm.trans hsame)
      simp at hlines
    refine ⟨fun fault hfault => ?_, iff_of_true hchanged ⟨hop, .bool true, hends⟩,
      fun v _ _ => ⟨line, hargs, congrArg Sink.lines hsink⟩, fun fault hfault => ?_⟩
    · cases hfault.symm.trans hends
    · cases hfault.symm.trans hends
  · have hnone : ∀ v, answered.1 ≠ .ok v := fun v hv => by cases hv.symm.trans hends
    refine ⟨fun fault hfault => ?_, iff_of_false (not_not.mpr hsink) fun ⟨_, v, hv⟩ => hnone v hv,
      fun v _ hv => absurd hv (hnone v), fun _ _ => hsink⟩
    cases hfault.symm.trans hends
    exact .inr (.inr ⟨line, words, hop, hargs, hrefused, rfl⟩)
  · have hnone : ∀ v, op = println.symbol → answered.1 ≠ .ok v := by
      intro v hop hv
      obtain ⟨fault, hfault⟩ := hfails hop
      cases hv.symm.trans (houtcome.trans hfault)
    refine ⟨fun fault hfault => ?_, iff_of_false (not_not.mpr hsink) ?_,
      fun v hop hv => absurd hv (hnone v hop), fun _ _ => hsink⟩
    · rcases kind_of_fails (houtcome.symm.trans hfault) with hkind | hlate
      · exact .inl hkind
      · exact .inr (.inl hlate)
    · rintro ⟨hop, v, hv⟩
      exact hnone v hop hv

/-- Dividing a text by zero is refused for the text, and with an argument more for their number;
    only two numbers get as far as the divisor. The sink keeps its line, and gets another from
    `println`, but not one that has no encoding. -/
theorem dispatch_checks_in_order_division :
    let s : Session := .start ⟨Sink.utf8Refusal?, ["z"]⟩
    let divide (args : List Value) := s.perform fun _ => Machine.applySymbol 0 ⟨"/"⟩ args
    let print (line : Text) := s.perform fun _ => Machine.applySymbol 0 ⟨"println"⟩ [.str line]
    Fails .operand (divide [.str "1", .num 0]).1 ∧
      Fails .arity (divide [.str "1", .num 0, .failure]).1 ∧
      Fails .zeroDivision (divide [.num 1, .num 0]).1 ∧
      (divide [.num 1, .num 0]).2.console.sink = s.console.sink ∧
      Fails .unknownPrimitive (s.perform fun _ => Machine.applySymbol 0 ⟨"%"⟩ []).1 ∧
      (print "a").1 = .ok (.bool true) ∧ (print "a").2.console.sink ≠ s.console.sink ∧
      (∃ line, [Value.str "a"] = [.str line] ∧ (print "a").2.lines = s.lines ++ [line]) ∧
      Fails .encoding (print ⟨[.surrogate 0]⟩).1 ∧
      (print ⟨[.surrogate 0]⟩).2.console.sink = s.console.sink := by
  intro s divide print
  obtain ⟨-, -, hoperand, -⟩ := dispatch_checks_in_order 0 s ⟨"/"⟩ [.str "1", .num 0]
  obtain ⟨-, harity, -⟩ := dispatch_checks_in_order 0 s ⟨"/"⟩ [.str "1", .num 0, .failure]
  obtain ⟨-, -, -, hzero, -, -, -, hkept⟩ := dispatch_checks_in_order 0 s ⟨"/"⟩ [.num 1, .num 0]
  obtain ⟨hunknown, -⟩ := dispatch_checks_in_order 0 s ⟨"%"⟩ []
  obtain ⟨-, -, -, -, -, hchanged, hline, -⟩ :=
    dispatch_checks_in_order 0 s ⟨"println"⟩ [.str "a"]
  obtain ⟨-, -, -, -, -, -, -, hrefused⟩ :=
    dispatch_checks_in_order 0 s ⟨"println"⟩ [.str ⟨[.surrogate 0]⟩]
  exact ⟨hoperand.mpr ⟨.div, rfl, rfl, .str "1", List.mem_cons_self, rfl⟩,
    harity.mpr ⟨.div, rfl, rfl⟩, hzero.mpr ⟨rfl, 1, rfl⟩, hkept .zeroDivision rfl,
    hunknown.mpr (by decide), rfl, hchanged.mpr ⟨rfl, .bool true, rfl⟩,
    hline (.bool true) rfl rfl, ⟨_, rfl, rfl⟩, hrefused _ rfl⟩

end Primitive

end MiniLisp
