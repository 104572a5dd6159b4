/-
  MiniLisp.Proofs.Parser.Grammar

  The grammar of expressions over surface data, and the parser against it.

  `StandsFor d e` says which expression a datum stands for, one rule for each
  form and without a bound on nesting. `Expr.nesting` counts the activations
  that an expression takes to parse: one for its datum, one for the form that it
  is, and one for a list of arguments. The parser finds the expression that a
  datum stands for exactly when it may nest that deep (`ofDatum_eq_ok_iff`), and
  a datum that stands for an expression fails in no other way
  (`ofDatum_of_standsFor`).
-/
import MiniLisp.Expr.Parser
import MiniLisp.Proofs.Outcome
import Mathlib.Data.List.Basic

namespace MiniLisp

open MiniLisp.Expr (items? functionForm? params ofDatum ofForm ofArgs)

/-- The datum is the surface form of the expression. -/
inductive StandsFor : Datum → Expr → Prop
  | int (n : Int) : StandsFor (.int n) (.num n)
  | str (s : Text) : StandsFor (.str s) (.str s)
  | sym (x : Symbol) : StandsFor (.sym x) (.ident x)
  /-- The keyword `if` and three parts. -/
  | cond {d head test yes no : Datum} {e₁ e₂ e₃ : Expr}
      (hd : items? d = some [head, test, yes, no]) (hif : head.isKeyword "if" = true)
      (htest : StandsFor test e₁) (hyes : StandsFor yes e₂) (hno : StandsFor no e₃) :
      StandsFor d (.cond e₁ e₂ e₃)
  /-- A list of parameters, the keyword `=>` and a body. -/
  | lambda {d head arrow body : Datum} {ps : List Datum} {names : List Symbol} {e : Expr}
      (hd : items? d = some [head, arrow, body]) (hhead : items? head = some ps)
      (harrow : arrow.isKeyword "=>" = true) (hps : params ps = .ok names)
      (hbody : StandsFor body e) : StandsFor d (.lambda names e)
  /-- Anything else: a callee and its arguments, each paired with its expression. -/
  | apply {d head : Datum} {callee : Expr} {args : List (Datum × Expr)}
      (hd : items? d = some (head :: args.map Prod.fst)) (hif : head.isKeyword "if" = false)
      (hform : functionForm? (head :: args.map Prod.fst) = none)
      (hhead : StandsFor head callee) (hargs : ∀ p ∈ args, StandsFor p.1 p.2) :
      StandsFor d (.apply callee (args.map Prod.snd))

/-! ## How deep an expression nests -/

namespace Expr

mutual

/-- How many nested activations it takes to parse the expression. -/
def nesting : Expr → Nat
  | .num _ | .str _ | .bool _ | .ident _ | .foreign _ => 1
  | .cond test yes no => max (nesting test) (max (nesting yes) (nesting no)) + 2
  | .lambda _ body => nesting body + 2
  | .apply callee args => max (nesting callee) (nestingAll args + 1) + 2

/-- How many nested activations it takes to parse each of the expressions. -/
def nestingAll : List Expr → Nat
  | [] => 0
  | e :: es => max (nesting e) (nestingAll es)

end

end Expr

/-! ## Items and forms -/

/-- Only lists and tuples have items. -/
theorem eq_of_items?_eq_some {d : Datum} {items : List Datum} (h : items? d = some items) :
    d = .list items ∨ d = .tuple items := by
  cases d with
  | list xs => cases h; exact .inl rfl
  | tuple xs => cases h; exact .inr rfl
  | int _ | str _ | sym _ | bool _ | nothing | real _ | bytes _ | record _ => cases h

/-- A datum with items is no keyword. -/
theorem isKeyword_of_items? {d : Datum} {items : List Datum} (h : items? d = some items)
    (keyword : Text) : d.isKeyword keyword = false := by
  rcases eq_of_items?_eq_some h with rfl | rfl <;> rfl

/-- A datum with items is parsed by its form. -/
theorem ofDatum_of_items? {d : Datum} {items : List Datum} (h : items? d = some items)
    (depth : Nat) : ofDatum (depth + 1) d = ofForm depth items := by
  rcases eq_of_items?_eq_some h with rfl | rfl <;> rfl

theorem functionForm?_eq_some_iff {items ps : List Datum} {body : Datum} :
    functionForm? items = some (ps, body) ↔
      ∃ head arrow, items = [head, arrow, body] ∧ items? head = some ps ∧
        arrow.isKeyword "=>" = true := by
  constructor
  · intro h
    match items, h with
    | [head, arrow, body'], h =>
      by_cases harrow : arrow.isKeyword "=>" = true
      · rw [functionForm?, if_pos harrow, Option.map_eq_some_iff] at h
        obtain ⟨qs, hqs, h⟩ := h
        cases h
        exact ⟨head, arrow, rfl, hqs, harrow⟩
      · rw [functionForm?, if_neg harrow] at h
        cases h
  · rintro ⟨head, arrow, rfl, hhead, harrow⟩
    rw [functionForm?, if_pos harrow, hhead]
    rfl

/-! ## One activation on a form -/

theorem ofForm_cond (depth : Nat) {head : Datum} (hif : head.isKeyword "if" = true)
    (test yes no : Datum) :
    ofForm (depth + 1) [head, test, yes, no] = (do
      let e₁ ← ofDatum depth test
      let e₂ ← ofDatum depth yes
      let e₃ ← ofDatum depth no
      pure (.cond e₁ e₂ e₃)) := by
  rw [ofForm, if_pos hif]

theorem ofForm_conditionalParts (depth : Nat) {head : Datum} (hif : head.isKeyword "if" = true)
    {rest : List Datum} (hrest : rest.length ≠ 3) :
    ofForm (depth + 1) (head :: rest) = .error (.conditionalParts rest.length) := by
  rw [ofForm, if_pos hif]
  rintro test yes no rfl
  exact hrest rfl

theorem ofForm_lambda (depth : Nat) {head : Datum} (hif : head.isKeyword "if" = false)
    {rest ps : List Datum} {body : Datum}
    (hform : functionForm? (head :: rest) = some (ps, body)) :
    ofForm (depth + 1) (head :: rest) = (do
      let names ← params ps
      let e ← ofDatum depth body
      pure (.lambda names e)) := by
  unfold ofForm
  rw [hif, hform]
  rfl

theorem ofForm_apply (depth : Nat) {head : Datum} (hif : head.isKeyword "if" = false)
    {rest : List Datum} (hform : functionForm? (head :: rest) = none) :
    ofForm (depth + 1) (head :: rest) = (do
      let callee ← ofDatum depth head
      let args ← ofArgs depth rest
      pure (.apply callee args)) := by
  unfold ofForm
  rw [hif, hform]
  rfl

/-! ## The parser finds what a datum stands for -/

/-- What one activation on a form finds, given what the next ones find on data. -/
theorem standsFor_of_ofForm {depth : Nat} {d : Datum} {items : List Datum} {e : Expr}
    (hd : items? d = some items) (h : ofForm (depth + 1) items = .ok e)
    (ih : ∀ n ≤ depth, ∀ d e, ofDatum n d = .ok e → StandsFor d e) : StandsFor d e := by
  have found := ih depth (Nat.le_refl depth)
  cases items with
  | nil => cases h
  | cons head rest =>
    cases hif : head.isKeyword "if" with
    | true =>
      by_cases hrest : rest.length = 3
      · obtain ⟨test, yes, no, rfl⟩ := List.length_eq_three.mp hrest
        rw [ofForm_cond depth hif] at h
        obtain ⟨e₁, h₁, h⟩ := exists_of_bind_eq_ok h
        obtain ⟨e₂, h₂, h⟩ := exists_of_bind_eq_ok h
        obtain ⟨e₃, h₃, h⟩ := exists_of_bind_eq_ok h
        cases h
        exact .cond hd hif (found _ _ h₁) (found _ _ h₂) (found _ _ h₃)
      · rw [ofForm_conditionalParts depth hif hrest] at h
        cases h
    | false =>
      cases hform : functionForm? (head :: rest) with
      | some form =>
        rw [ofForm_lambda depth hif hform] at h
        obtain ⟨names, hps, h⟩ := exists_of_bind_eq_ok h
        obtain ⟨e', hbody, h⟩ := exists_of_bind_eq_ok h
        cases h
        obtain ⟨head', arrow, hitems, hhead, harrow⟩ := functionForm?_eq_some_iff.mp hform
        rw [hitems] at hd
        exact .lambda hd hhead harrow hps (found _ _ hbody)
      | none =>
        rw [ofForm_apply depth hif hform] at h
        obtain ⟨callee, hcallee, h⟩ := exists_of_bind_eq_ok h
        obtain ⟨args, hargs, h⟩ := exists_of_bind_eq_ok h
        cases h
        cases depth with
        | zero => cases hargs
        | succ depth =>
          rw [ofArgs] at hargs
          obtain ⟨ps, rfl, rfl, hps⟩ := exists_of_mapM_eq_ok hargs
          refine .apply hd hif hform (found _ _ hcallee) ?_
          intro p hp
          exact ih depth (Nat.le_succ depth) _ _ (hps p hp)

/-- The parser finds only what the datum stands for. -/
theorem standsFor_of_ofDatum {depth : Nat} {d : Datum} {e : Expr} (h : ofDatum depth d = .ok e) :
    StandsFor d e := by
  induction depth using Nat.strongRecOn generalizing d e with
  | ind depth ih =>
    cases depth with
    | zero => cases h
    | succ depth =>
      have ofItems : ∀ items, items? d = some items → ofForm depth items = .ok e →
          StandsFor d e := by
        intro items hd h
        cases depth with
        | zero => cases h
        | succ depth =>
          exact standsFor_of_ofForm hd h fun n hn d e => ih n (by omega)
      cases d with
      | int n => cases h; exact .int n
      | str s => cases h; exact .str s
      | sym x => cases h; exact .sym x
      | list items => exact ofItems items rfl h
      | tuple items => exact ofItems items rfl h
      | bool _ | nothing | real _ | bytes _ | record _ => cases h


/-! ## The parser finds all that a datum stands for -/

/-- Arguments that each take their own nesting take the greatest of them together. -/
theorem mapM_ofDatum_of_pairs {depth : Nat} {ps : List (Datum × Expr)}
    (h : ∀ p ∈ ps, ofDatum depth p.1 = within p.2.nesting depth p.2) :
    (ps.map Prod.fst).mapM (ofDatum depth) =
      within (Expr.nestingAll (ps.map Prod.snd)) depth (ps.map Prod.snd) := by
  induction ps with
  | nil => rfl
  | cons p ps ih =>
    rw [List.map_cons, List.mapM_cons, h p List.mem_cons_self, List.map_cons, Expr.nestingAll]
    apply within_bind
    rw [ih fun q hq => h q (List.mem_cons_of_mem p hq)]
    exact within_bind_pure _ _ _ _

/-- A datum that stands for an expression is parsed to it when it may nest that deep, and the
    bound on nesting is all that can stop it. -/
theorem ofDatum_of_standsFor {d : Datum} {e : Expr} (h : StandsFor d e) (depth : Nat) :
    ofDatum depth d = within e.nesting depth e := by
  induction h generalizing depth with
  | int n => cases depth <;> rfl
  | str s => cases depth <;> rfl
  | sym x => cases depth <;> rfl
  | @cond d head test yes no e₁ e₂ e₃ hd hif _ _ _ ih₁ ih₂ ih₃ =>
    match depth with
    | 0 => rfl
    | 1 => rw [ofDatum_of_items? hd, Expr.nesting, within_succ]; rfl
    | depth + 2 =>
      rw [ofDatum_of_items? hd, ofForm_cond depth hif, ih₁, ih₂, ih₃, Expr.nesting, within_succ,
        within_succ]
      apply within_bind
      apply within_bind
      exact within_bind_pure _ _ _ _
  | @lambda d head arrow body ps names e hd hhead harrow hps _ ih =>
    match depth with
    | 0 => rfl
    | 1 => rw [ofDatum_of_items? hd, Expr.nesting, within_succ]; rfl
    | depth + 2 =>
      have hform : functionForm? [head, arrow, body] = some (ps, body) :=
        functionForm?_eq_some_iff.mpr ⟨head, arrow, rfl, hhead, harrow⟩
      rw [ofDatum_of_items? hd, ofForm_lambda depth (isKeyword_of_items? hhead "if") hform, hps,
        ih, Expr.nesting, within_succ, within_succ]
      exact within_bind_pure _ _ _ _
  | @apply d head callee args hd hif hform _ _ ih₁ ih₂ =>
    match depth with
    | 0 => rfl
    | 1 => rw [ofDatum_of_items? hd, Expr.nesting, within_succ]; rfl
    | 2 =>
      rw [ofDatum_of_items? hd, ofForm_apply 0 hif hform, ih₁, Expr.nesting, within_succ,
        within_succ]
      apply within_bind
      rfl
    | depth + 3 =>
      have hargs := mapM_ofDatum_of_pairs fun p hp => ih₂ p hp depth
      rw [ofDatum_of_items? hd, ofForm_apply (depth + 1) hif hform, ih₁, ofArgs, hargs,
        Expr.nesting, within_succ, within_succ]
      apply within_bind
      rw [← within_succ]
      exact within_bind_pure _ _ _ _

/-- The parser finds exactly the expressions that data stand for, as far as it may nest. -/
theorem ofDatum_eq_ok_iff {depth : Nat} {d : Datum} {e : Expr} :
    ofDatum depth d = .ok e ↔ StandsFor d e ∧ e.nesting ≤ depth := by
  constructor
  · intro h
    have hd := standsFor_of_ofDatum h
    rw [ofDatum_of_standsFor hd, within_eq_ok_iff] at h
    exact ⟨hd, h.1⟩
  · rintro ⟨hd, hle⟩
    rw [ofDatum_of_standsFor hd, within_eq_ok_iff]
    exact ⟨hle, rfl⟩

end MiniLisp
