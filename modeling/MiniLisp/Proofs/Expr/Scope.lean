/-
  MiniLisp.Proofs.Expr.Scope

  Where the parts of an expression stand, and which identifiers are free in it.

  `program.Occurs scopes e` says that `e` is a part of `program`, and which
  functions stand around it: `scopes` lists their parameters, those of the
  innermost function first. `Expr.free` collects the identifiers that no
  function around them binds. An identifier is free exactly when it occurs in a
  place where none of the functions around it has it for a parameter
  (`mem_free_iff`).
-/
import MiniLisp.Expr

namespace MiniLisp

namespace Expr

/-- Induction on expressions, with a hypothesis for each argument of an application. -/
@[elab_as_elim]
theorem induct {motive : Expr → Prop} (num : ∀ n, motive (.num n)) (str : ∀ s, motive (.str s))
    (bool : ∀ b, motive (.bool b)) (ident : ∀ x, motive (.ident x))
    (cond : ∀ test yes no, motive test → motive yes → motive no → motive (.cond test yes no))
    (lambda : ∀ params body, motive body → motive (.lambda params body))
    (apply : ∀ callee args, motive callee → (∀ e ∈ args, motive e) → motive (.apply callee args))
    (foreign : ∀ d, motive (.foreign d)) (e : Expr) : motive e :=
  Expr.rec num str bool ident cond lambda apply foreign
    (fun _ he => absurd he List.not_mem_nil)
    (fun _ _ he hes => List.forall_mem_cons.mpr ⟨he, hes⟩) e

/-! ## Parts of an expression -/

/-- The expression stands in the program, within functions that have these parameters. -/
inductive Occurs (program : Expr) : (scopes : List (List Symbol)) → Expr → Prop
  | whole : Occurs program [] program
  | test {scopes : List (List Symbol)} {test yes no : Expr}
      (h : Occurs program scopes (.cond test yes no)) : Occurs program scopes test
  | yes {scopes : List (List Symbol)} {test yes no : Expr}
      (h : Occurs program scopes (.cond test yes no)) : Occurs program scopes yes
  | no {scopes : List (List Symbol)} {test yes no : Expr}
      (h : Occurs program scopes (.cond test yes no)) : Occurs program scopes no
  /-- The body of a function has one function more around it. -/
  | body {scopes : List (List Symbol)} {params : List Symbol} {body : Expr}
      (h : Occurs program scopes (.lambda params body)) : Occurs program (params :: scopes) body
  | callee {scopes : List (List Symbol)} {callee : Expr} {args : List Expr}
      (h : Occurs program scopes (.apply callee args)) : Occurs program scopes callee
  | arg {scopes : List (List Symbol)} {callee arg : Expr} {args : List Expr}
      (h : Occurs program scopes (.apply callee args)) (harg : arg ∈ args) :
      Occurs program scopes arg

/-! ## Free identifiers -/

mutual

/-- The free identifiers of an expression. -/
def free : Expr → List Symbol
  | .num _ | .str _ | .bool _ | .foreign _ => []
  | .ident x => [x]
  | .cond test yes no => free test ++ free yes ++ free no
  | .lambda params body => (free body).filter fun x => x ∉ params
  | .apply callee args => free callee ++ freeAll args

/-- The free identifiers of several expressions. -/
def freeAll : List Expr → List Symbol
  | [] => []
  | e :: es => free e ++ freeAll es

end

variable {x : Symbol}

theorem mem_freeAll {es : List Expr} : x ∈ freeAll es ↔ ∃ e ∈ es, x ∈ e.free := by
  induction es with
  | nil => simp [freeAll]
  | cons e es ih => simp [freeAll, ih]

@[simp] theorem mem_free_ident {y : Symbol} : x ∈ (Expr.ident y).free ↔ x = y := by
  rw [free, List.mem_singleton]

@[simp] theorem mem_free_cond {test yes no : Expr} :
    x ∈ (Expr.cond test yes no).free ↔ x ∈ test.free ∨ x ∈ yes.free ∨ x ∈ no.free := by
  rw [free, List.mem_append, List.mem_append, or_assoc]

@[simp] theorem mem_free_lambda {params : List Symbol} {body : Expr} :
    x ∈ (Expr.lambda params body).free ↔ x ∈ body.free ∧ x ∉ params := by
  rw [free, List.mem_filter, decide_eq_true_iff]

@[simp] theorem mem_free_apply {callee : Expr} {args : List Expr} :
    x ∈ (Expr.apply callee args).free ↔ x ∈ callee.free ∨ ∃ e ∈ args, x ∈ e.free := by
  rw [free, List.mem_append, mem_freeAll]

/-! ## Free identifiers by their places -/

/-- What is free in a part is free in the whole, unless a function around the part binds it. -/
theorem mem_free_of_occurs {program e : Expr} {scopes : List (List Symbol)}
    (h : program.Occurs scopes e) (hx : x ∈ e.free) (hscopes : ∀ ps ∈ scopes, x ∉ ps) :
    x ∈ program.free := by
  -- Outwards from the part: each step adds what stands directly around it.
  induction h with
  | whole => exact hx
  | test _ ih => exact ih (mem_free_cond.mpr (.inl hx)) hscopes
  | yes _ ih => exact ih (mem_free_cond.mpr (.inr (.inl hx))) hscopes
  | no _ ih => exact ih (mem_free_cond.mpr (.inr (.inr hx))) hscopes
  | body _ ih =>
    obtain ⟨hparams, hscopes⟩ := List.forall_mem_cons.mp hscopes
    exact ih (mem_free_lambda.mpr ⟨hx, hparams⟩) hscopes
  | callee _ ih => exact ih (mem_free_apply.mpr (.inl hx)) hscopes
  | arg _ harg ih => exact ih (mem_free_apply.mpr (.inr ⟨_, harg, hx⟩)) hscopes

/-- What is free in a part stands somewhere in it, with no function that binds it between the two
    places. -/
theorem exists_occurs_of_mem_free {program e : Expr} {scopes : List (List Symbol)}
    (h : program.Occurs scopes e) (hx : x ∈ e.free) (hscopes : ∀ ps ∈ scopes, x ∉ ps) :
    ∃ scopes', program.Occurs scopes' (.ident x) ∧ ∀ ps ∈ scopes', x ∉ ps := by
  -- Inwards from the part, through a function only if it does not bind the identifier.
  induction e using Expr.induct generalizing scopes with
  | num _ => cases hx
  | str _ => cases hx
  | bool _ => cases hx
  | foreign _ => cases hx
  | ident y =>
    obtain rfl := mem_free_ident.mp hx
    exact ⟨scopes, h, hscopes⟩
  | cond test yes no ihtest ihyes ihno =>
    rcases mem_free_cond.mp hx with hx | hx | hx
    · exact ihtest h.test hx hscopes
    · exact ihyes h.yes hx hscopes
    · exact ihno h.no hx hscopes
  | lambda params body ih =>
    obtain ⟨hx, hparams⟩ := mem_free_lambda.mp hx
    exact ih h.body hx (List.forall_mem_cons.mpr ⟨hparams, hscopes⟩)
  | apply callee args ihcallee ihargs =>
    rcases mem_free_apply.mp hx with hx | ⟨arg, harg, hx⟩
    · exact ihcallee h.callee hx hscopes
    · exact ihargs arg harg (h.arg harg) hx hscopes

/-- An identifier is free when it stands in a place where no function around it binds it. -/
theorem mem_free_iff {e : Expr} :
    x ∈ e.free ↔ ∃ scopes, e.Occurs scopes (.ident x) ∧ ∀ ps ∈ scopes, x ∉ ps := by
  constructor
  · intro hx
    exact exists_occurs_of_mem_free .whole hx fun ps hps => absurd hps List.not_mem_nil
  · rintro ⟨scopes, hplace, hscopes⟩
    exact mem_free_of_occurs hplace (mem_free_ident.mpr rfl) hscopes

end Expr

end MiniLisp
