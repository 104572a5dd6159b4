/-
  MiniLisp.Proofs.Eval.Application

  The order of evaluation in an application. Its parts are the callee and the
  arguments, from left to right, each evaluated by itself (`applicationParts`).
  Runs in a row either all have results (`Run.Succeed`) or one of them is the
  first to fail (`Run.FirstFails`), and a list of runs does what they do up to
  that one (`Run.mapM_of_succeed`, `Run.mapM_of_firstFails`).

  Values that are no functions, and functions that are given a wrong number of
  arguments, are refused by the application itself (`Refuses`), which prints
  nothing then.
-/
import MiniLisp.Eval
import MiniLisp.Proofs.Primitive.Result

namespace MiniLisp

/-! ## Runs in a row -/

namespace Run

variable {α β : Type}

/-- The runs have the results. -/
def Succeed (runs : List (Run α)) (results : List α) : Prop :=
  runs.map outcome = results.map .ok

/-- The run stops at the fault, and those before it have results. -/
def FirstFails (runs before : List (Run α)) (r : Run α) (fault : Fault) : Prop :=
  ∃ after, runs = before ++ r :: after ∧ (∃ results, Succeed before results) ∧
    r.outcome = .error fault

variable {r : Run α} {runs before : List (Run α)} {fault : Fault}

theorem succeed_cons_iff {a : α} {results : List α} :
    Succeed (r :: runs) (a :: results) ↔ r.outcome = .ok a ∧ Succeed runs results :=
  List.cons_eq_cons

theorem exists_of_succeed_cons {results : List α} (h : Succeed (r :: runs) results) :
    ∃ a rest, results = a :: rest ∧ r.outcome = .ok a ∧ Succeed runs rest := by
  cases results with
  | nil => cases h
  | cons a rest => exact ⟨a, rest, rfl, succeed_cons_iff.mp h⟩

/-- The first run to fail is the first run, or it is the first to fail among the others behind a
    result of the first. -/
theorem FirstFails.cases_cons {part : Run α} (h : FirstFails (r :: runs) before part fault) :
    (before = [] ∧ part = r ∧ r.outcome = .error fault) ∨
      ∃ a rest, before = r :: rest ∧ r.outcome = .ok a ∧ FirstFails runs rest part fault := by
  obtain ⟨after, hruns, ⟨results, hbefore⟩, hpart⟩ := h
  cases before with
  | nil =>
    cases hruns
    exact .inl ⟨rfl, rfl, hpart⟩
  | cons q rest =>
    cases hruns
    obtain ⟨a, results, rfl, ha, hrest⟩ := exists_of_succeed_cons hbefore
    exact .inr ⟨a, rest, rfl, ha, after, rfl, ⟨results, hrest⟩, hpart⟩

theorem FirstFails.cons {a : α} {part : Run α} (ha : r.outcome = .ok a)
    (h : FirstFails runs before part fault) : FirstFails (r :: runs) (r :: before) part fault := by
  obtain ⟨after, rfl, ⟨results, hbefore⟩, hpart⟩ := h
  exact ⟨after, rfl, ⟨a :: results, succeed_cons_iff.mpr ⟨ha, hbefore⟩⟩, hpart⟩

/-- Runs in a row all have results, or one of them is the first to fail. -/
theorem firstFails_or_succeed (runs : List (Run α)) :
    (∃ before part fault, FirstFails runs before part fault) ∨ ∃ results, Succeed runs results := by
  induction runs with
  | nil => exact .inr ⟨[], rfl⟩
  | cons r runs ih =>
    cases hr : r.outcome with
    | error fault => exact .inl ⟨[], r, fault, runs, rfl, ⟨[], rfl⟩, hr⟩
    | ok a =>
      rcases ih with ⟨before, part, fault, h⟩ | ⟨results, h⟩
      · exact .inl ⟨r :: before, part, fault, h.cons hr⟩
      · exact .inr ⟨a :: results, succeed_cons_iff.mpr ⟨hr, h⟩⟩

/-- Runs that have results take place one after the other. -/
theorem mapM_of_succeed {f : β → Run α} {xs : List β} {results : List α}
    (h : Succeed (xs.map f) results) :
    xs.mapM f = ⟨(xs.map f).flatMap events, .ok results⟩ := by
  induction xs generalizing results with
  | nil =>
    obtain rfl : results = [] := List.map_eq_nil_iff.mp h.symm
    rfl
  | cons x xs ih =>
    obtain ⟨a, rest, rfl, ha, hrest⟩ := exists_of_succeed_cons h
    rw [List.mapM_cons, bind_of_outcome_ok ha, ih hrest]
    simp

/-- Nothing takes place behind the first run that fails. -/
theorem mapM_of_firstFails {f : β → Run α} {xs : List β}
    (h : FirstFails (xs.map f) before r fault) :
    xs.mapM f = ⟨(before ++ [r]).flatMap events, .error fault⟩ := by
  induction xs generalizing before with
  | nil =>
    obtain ⟨after, hruns, -⟩ := h
    simp at hruns
  | cons x xs ih =>
    rw [List.mapM_cons]
    rcases h.cases_cons with ⟨rfl, rfl, hx⟩ | ⟨a, rest, rfl, ha, hrest⟩
    · rw [bind_of_outcome_error hx]
      simp
    · rw [bind_of_outcome_ok ha, ih hrest]
      simp

end Run

/-! ## Refusals -/

/-- The value cannot be applied to the arguments, for what it is or for their number. -/
inductive Refuses : Value → List Value → Fault → Prop
  | value {f : Value} {vs : List Value} (hprim : ∀ op, f ≠ .prim op)
      (hclosure : ∀ params body env, f ≠ .closure params body env) : Refuses f vs .notFunction
  | symbol {op : Symbol} {vs : List Value} (h : Primitive.ofSymbol? op = none) :
      Refuses (.prim op) vs (.unknownPrimitive op)
  | operation {p : Primitive} {vs : List Value} (h : p.accepts vs.length = false) :
      Refuses (.prim p.symbol) vs (.primitiveArity p vs.length)
  | closure {params : List Symbol} {body : Expr} {env : Env} {vs : List Value}
      (h : params.length ≠ vs.length) :
      Refuses (.closure params body env) vs (.callArity params.length vs.length)

/-- An application that is refused stops at that and prints nothing. -/
theorem Refuses.apply_eq {f : Value} {vs : List Value} {fault : Fault} (h : Refuses f vs fault)
    (depth : Nat) :
    (apply (depth + 1) f vs).outcome = .error fault ∧ (apply (depth + 1) f vs).lines = [] := by
  cases h with
  | value hprim hclosure =>
    cases f with
    | prim op => exact absurd rfl (hprim op)
    | closure params body env => exact absurd rfl (hclosure params body env)
    | num _ | str _ | bool _ | failure | foreign _ => exact ⟨rfl, rfl⟩
  | symbol h =>
    rw [apply_prim, Primitive.applySymbol_of_unknown h]
    exact ⟨rfl, rfl⟩
  | @operation p _ h =>
    have hcompute : p.compute depth vs = .error (.primitiveArity p vs.length) :=
      Primitive.compute_of_not_accepts h
    rw [apply_prim, Primitive.applySymbol_symbol, Primitive.apply_eq,
      Primitive.output_of_compute_eq_error hcompute]
    exact ⟨hcompute, rfl⟩
  | closure h =>
    rw [apply_closure, if_neg h]
    exact ⟨rfl, rfl⟩

/-! ## Applications -/

open Run

/-- The parts of an application, each evaluated by itself: the callee, then the arguments. -/
def applicationParts (depth : Nat) (callee : Expr) (args : List Expr) (env : Env) :
    List (Run Value) :=
  eval (depth + 1) callee env :: args.map fun e => eval depth e env

section

variable {depth : Nat} {callee : Expr} {args : List Expr} {env : Env}

theorem eval_apply_of_succeed {f : Value} {vs : List Value}
    (h : Succeed (applicationParts depth callee args env) (f :: vs)) :
    eval (depth + 2) (.apply callee args) env =
      ⟨(applicationParts depth callee args env).flatMap events ++ (apply (depth + 1) f vs).events,
        (apply (depth + 1) f vs).outcome⟩ := by
  obtain ⟨hcallee, hargs⟩ := succeed_cons_iff.mp h
  rw [eval_apply, bind_of_outcome_ok hcallee, evalArgs_succ, mapM_of_succeed hargs, bind_ok,
    applicationParts, List.flatMap_cons, List.append_assoc]

theorem eval_apply_of_firstFails {before : List (Run Value)} {part : Run Value} {fault : Fault}
    (h : FirstFails (applicationParts depth callee args env) before part fault) :
    eval (depth + 2) (.apply callee args) env =
      ⟨(before ++ [part]).flatMap events, .error fault⟩ := by
  rw [eval_apply]
  rcases h.cases_cons with ⟨rfl, rfl, hcallee⟩ | ⟨f, rest, rfl, hcallee, hargs⟩
  · rw [bind_of_outcome_error hcallee]
    simp
  · rw [bind_of_outcome_ok hcallee, evalArgs_succ, mapM_of_firstFails hargs, bind_error]
    simp

end

theorem lines_of_flatMap_events {runs : List (Run Value)} {more : List Event}
    {outcome : Except Fault Value} :
    (Run.mk (runs.flatMap events ++ more) outcome).lines =
      runs.flatMap lines ++ more.filterMap Event.line? := by
  rw [lines, List.filterMap_append, List.filterMap_flatMap]
  rfl

/-- **Application is strict and in order.** The callee is evaluated first, then the arguments from
    left to right, up to and including the first of these parts that fails: then its fault is the
    outcome, and nothing else happens. If none fails, what they do is followed by just what the
    application of the callee's value to the arguments' values does, and it ends in the same way.

    So a value that cannot be applied, or not to so many arguments, is refused when all parts have
    printed their lines, and behind a callee that fails no argument prints any. -/
theorem application_is_strict_in_order (depth : Nat) (callee : Expr) (args : List Expr)
    (env : Env) :
    let parts := applicationParts depth callee args env
    let whole := eval (depth + 2) (.apply callee args) env
    ((∃ before part fault, FirstFails parts before part fault) ∨ ∃ f vs, Succeed parts (f :: vs)) ∧
      (∀ before part fault, FirstFails parts before part fault →
        whole.outcome = .error fault ∧ whole.lines = (before ++ [part]).flatMap lines ∧
          whole.events = (before ++ [part]).flatMap events) ∧
      (∀ f vs, Succeed parts (f :: vs) →
        whole.outcome = (apply (depth + 1) f vs).outcome ∧
          whole.lines = parts.flatMap lines ++ (apply (depth + 1) f vs).lines ∧
          whole.events = parts.flatMap events ++ (apply (depth + 1) f vs).events) ∧
      (∀ f vs fault, Succeed parts (f :: vs) → Refuses f vs fault →
        whole.outcome = .error fault ∧ whole.lines = parts.flatMap lines) ∧
      (∀ fault, (eval (depth + 1) callee env).outcome = .error fault →
        whole.outcome = .error fault ∧ whole.lines = (eval (depth + 1) callee env).lines) ∧
      ∀ d < 2, eval d (.apply callee args) env = .fail .tooDeep := by
  intro parts whole
  have hfails : ∀ before part fault, FirstFails parts before part fault →
      whole.outcome = .error fault ∧ whole.lines = (before ++ [part]).flatMap lines ∧
        whole.events = (before ++ [part]).flatMap events := by
    intro before part fault h
    have hwhole : whole = ⟨(before ++ [part]).flatMap events ++ [], .error fault⟩ := by
      rw [List.append_nil]
      exact eval_apply_of_firstFails h
    rw [hwhole, lines_of_flatMap_events]
    simp
  have happlies : ∀ f vs, Succeed parts (f :: vs) →
      whole.outcome = (apply (depth + 1) f vs).outcome ∧
        whole.lines = parts.flatMap lines ++ (apply (depth + 1) f vs).lines ∧
        whole.events = parts.flatMap events ++ (apply (depth + 1) f vs).events := by
    intro f vs h
    have hwhole : whole = _ := eval_apply_of_succeed h
    rw [hwhole, lines_of_flatMap_events]
    exact ⟨rfl, rfl, rfl⟩
  refine ⟨?_, hfails, happlies, ?_, ?_, ?_⟩
  · rcases firstFails_or_succeed parts with hfirst | ⟨results, h⟩
    · exact .inl hfirst
    · obtain ⟨f, vs, rfl, -⟩ := exists_of_succeed_cons h
      exact .inr ⟨f, vs, h⟩
  · intro f vs fault h hrefuses
    obtain ⟨houtcome, hlines⟩ := hrefuses.apply_eq depth
    obtain ⟨hends, hprints, -⟩ := happlies f vs h
    rw [houtcome] at hends
    rw [hlines, List.append_nil] at hprints
    exact ⟨hends, hprints⟩
  · -- the callee is the first part, so there is none before it
    intro fault hcallee
    obtain ⟨hends, hprints, -⟩ := hfails [] _ fault ⟨_, rfl, ⟨[], rfl⟩, hcallee⟩
    exact ⟨hends, by simpa using hprints⟩
  · intro d hd
    obtain rfl | rfl : d = 0 ∨ d = 1 := by omega
    · rfl
    · rfl

/-- A callee that prints a line and makes a function of one parameter. With two arguments that
    print, it is refused behind their lines; with an argument that divides by zero between them,
    the last one is not evaluated. -/
theorem application_is_strict_in_order_printing :
    let print (line : Text) : Expr := .apply (.ident ⟨"println"⟩) [.str line]
    let callee : Expr :=
      .apply (.ident ⟨"seq"⟩) [print "f", .lambda [⟨"x"⟩] (.ident ⟨"x"⟩)]
    let division : Expr := .apply (.ident ⟨"/"⟩) [.num 1, .num 0]
    let env : Env := [[(⟨"println"⟩, .prim ⟨"println"⟩), (⟨"seq"⟩, .prim ⟨"seq"⟩),
      (⟨"/"⟩, .prim ⟨"/"⟩)]]
    let function : Value := .closure [⟨"x"⟩] (.ident ⟨"x"⟩) env
    let failing := [print "a", division, print "b"]
    Succeed (applicationParts 9 callee [print "a", print "b"] env)
        [function, .bool true, .bool true] ∧
      Refuses function [.bool true, .bool true] (.callArity 1 2) ∧
      (eval 11 (.apply callee [print "a", print "b"]) env).outcome = .error (.callArity 1 2) ∧
      (eval 11 (.apply callee [print "a", print "b"]) env).lines =
        [Text.ofString "f", Text.ofString "a", Text.ofString "b"] ∧
      FirstFails (applicationParts 9 callee failing env)
        [eval 10 callee env, eval 9 (print "a") env] (eval 9 division env) .zeroDivision ∧
      (eval 11 (.apply callee failing) env).outcome = .error .zeroDivision ∧
      (eval 11 (.apply callee failing) env).lines = [Text.ofString "f", Text.ofString "a"] := by
  intro print callee division env function failing
  have hsucceed : Succeed (applicationParts 9 callee [print "a", print "b"] env)
      [function, .bool true, .bool true] := rfl
  have hrefuses : Refuses function [.bool true, .bool true] (.callArity 1 2) := .closure (by decide)
  have hfirst : FirstFails (applicationParts 9 callee failing env)
      [eval 10 callee env, eval 9 (print "a") env] (eval 9 division env) .zeroDivision :=
    ⟨[eval 9 (print "b") env], rfl, ⟨[function, .bool true], rfl⟩, rfl⟩
  obtain ⟨-, -, -, hrefused, -⟩ :=
    application_is_strict_in_order 9 callee [print "a", print "b"] env
  obtain ⟨-, hfails, -⟩ := application_is_strict_in_order 9 callee failing env
  obtain ⟨hrefusedEnds, hrefusedLines⟩ := hrefused _ _ _ hsucceed hrefuses
  obtain ⟨hfailsEnds, hfailsLines, -⟩ := hfails _ _ _ hfirst
  exact ⟨hsucceed, hrefuses, hrefusedEnds, hrefusedLines, hfirst, hfailsEnds, hfailsLines⟩

end MiniLisp
