/-
  MiniLisp.Proofs.Expr.Substitution

  Literals in the place of free identifiers. A `Substitution` gives literals to
  some names; `Expr.subst` puts them where those names stand free, and so not
  under a function that has the name for a parameter. Literals hold no
  identifiers, so none can be caught by a function around its new place.
-/
import MiniLisp.Value

namespace MiniLisp

/-- A number or a text, as a program writes it. -/
inductive Literal where
  | num (n : Int)
  | str (s : Text)
deriving DecidableEq, Repr

namespace Literal

/-- The literal as an expression. -/
def expr : Literal → Expr
  | .num n => .num n
  | .str s => .str s

/-- What the literal stands for. -/
def value : Literal → Value
  | .num n => .num n
  | .str s => .str s

end Literal

/-- The literals that stand in the places of names. -/
abbrev Substitution := Symbol → Option Literal

namespace Substitution

/-- Parameters and their literals, one for one. -/
def ofParams : List Symbol → List Literal → Substitution
  | x :: params, l :: ls => fun y => if x = y then some l else ofParams params ls y
  | _, _ => fun _ => none

/-- What is left of a substitution in a function with these parameters. -/
def without (σ : Substitution) (params : List Symbol) : Substitution :=
  fun x => if x ∈ params then none else σ x

theorem without_of_mem {σ : Substitution} {params : List Symbol} {x : Symbol} (h : x ∈ params) :
    σ.without params x = none := if_pos h

theorem without_of_not_mem {σ : Substitution} {params : List Symbol} {x : Symbol}
    (h : x ∉ params) : σ.without params x = σ x := if_neg h

/-- Every parameter has a literal, if there are as many of them. -/
theorem ofParams_ne_none {params : List Symbol} {ls : List Literal}
    (hlength : params.length = ls.length) {x : Symbol} (h : x ∈ params) :
    ofParams params ls x ≠ none := by
  induction params generalizing ls with
  | nil => cases h
  | cons y params ih =>
    cases ls with
    | nil => cases hlength
    | cons l ls =>
      simp only [ofParams]
      split
      · simp
      · rename_i hy
        have hx : x ∈ params := (List.mem_cons.mp h).resolve_left (Ne.symm hy)
        exact ih (Nat.succ.inj hlength) hx

end Substitution

namespace Expr

mutual

/-- The expression with literals in the place of free identifiers. -/
def subst : Substitution → Expr → Expr
  | _, .num n => .num n
  | _, .str s => .str s
  | _, .bool b => .bool b
  | σ, .ident x => (σ x).elim (.ident x) Literal.expr
  | σ, .cond test yes no => .cond (subst σ test) (subst σ yes) (subst σ no)
  | σ, .lambda params body => .lambda params (subst (σ.without params) body)
  | σ, .apply callee args => .apply (subst σ callee) (substAll σ args)
  | _, .foreign d => .foreign d

/-- The expressions with literals in the place of free identifiers. -/
def substAll : Substitution → List Expr → List Expr
  | _, [] => []
  | σ, e :: es => subst σ e :: substAll σ es

end

theorem substAll_eq_map (σ : Substitution) (es : List Expr) :
    substAll σ es = es.map (subst σ) := by
  induction es with
  | nil => rfl
  | cons e es ih => rw [substAll, List.map_cons, ih]

end Expr

end MiniLisp
