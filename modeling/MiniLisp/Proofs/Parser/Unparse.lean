/-
  MiniLisp.Proofs.Parser.Unparse

  Parsing and its inverse. `unparse` writes an expression as surface data, with
  symbols for keywords and parameters and lists for everything compound.
  `Canonical` says which expressions come out of the parser: functions have
  distinct parameters, and no application would read as a conditional or as a
  function if it were written. `normal` rewrites surface data to the one way in
  which `unparse` writes them.

  Between canonical expressions and normal data the parser and `unparse` are
  inverse to each other: a parsed expression is canonical
  (`canonical_of_standsFor`), a canonical expression is parsed from what
  `unparse` writes (`standsFor_unparse`), and what it writes is the normal form
  of any datum that stands for the expression (`unparse_of_standsFor`).
-/
import MiniLisp.Proofs.Parser.Grammar

namespace MiniLisp

open MiniLisp.Expr (items? functionForm? params paramsFrom ofDatum)

/-! ## Writing expressions as data -/

namespace Expr

mutual

/-- The surface form of an expression. -/
def unparse : Expr → Datum
  | .num n => .int n
  | .str s => .str s
  | .bool b => .bool b
  | .ident x => .sym x
  | .cond test yes no => .list [.sym ⟨"if"⟩, unparse test, unparse yes, unparse no]
  | .lambda names body => .list [.list (names.map .sym), .sym ⟨"=>"⟩, unparse body]
  | .apply callee args => .list (unparse callee :: unparseAll args)
  | .foreign d => d

/-- The surface forms of several expressions. -/
def unparseAll : List Expr → List Datum
  | [] => []
  | e :: es => unparse e :: unparseAll es

end

theorem unparseAll_eq_map (es : List Expr) : unparseAll es = es.map unparse := by
  induction es with
  | nil => rfl
  | cons e es ih => rw [unparseAll, ih, List.map_cons]

/-- An identifier or a text that is a keyword when it is written in the right place. -/
def isKeyword (keyword : Text) : Expr → Bool
  | .ident x => x.name = keyword
  | .str s => s = keyword
  | _ => false

/-- An expression that is written as a list. -/
def isCompound : Expr → Bool
  | .cond _ _ _ | .lambda _ _ | .apply _ _ => true
  | _ => false

/-- Written one after the other, the callee and the arguments read as a function. -/
def readsAsFunction (callee : Expr) : List Expr → Bool
  | [arrow, _] => callee.isCompound && arrow.isKeyword "=>"
  | _ => false

/-- The expressions that parsing gives. -/
inductive Canonical : Expr → Prop
  | num (n : Int) : Canonical (.num n)
  | str (s : Text) : Canonical (.str s)
  | ident (x : Symbol) : Canonical (.ident x)
  | cond {test yes no : Expr} (htest : Canonical test) (hyes : Canonical yes)
      (hno : Canonical no) : Canonical (.cond test yes no)
  | lambda {names : List Symbol} {body : Expr} (hnames : names.Nodup) (hbody : Canonical body) :
      Canonical (.lambda names body)
  | apply {callee : Expr} {args : List Expr} (hcallee : Canonical callee)
      (hargs : ∀ e ∈ args, Canonical e) (hif : callee.isKeyword "if" = false)
      (hform : readsAsFunction callee args = false) : Canonical (.apply callee args)

end Expr

/-! ## Normal data -/

namespace Datum

/-- A text becomes the symbol of that name. -/
def asSymbol : Datum → Datum
  | .str s => .sym ⟨s⟩
  | d => d

mutual

/-- The datum with lists for tuples, and with symbols for keywords and parameters. -/
def normal : Datum → Datum
  | .list items => .list (normalForm items)
  | .tuple items => .list (normalForm items)
  | d => d

/-- The items of a form: in a conditional the keyword becomes a symbol, in a function the
    parameters and the keyword do. -/
def normalForm : List Datum → List Datum
  | [] => []
  | head :: rest =>
    if head.isKeyword "if" then head.asSymbol :: normalAll rest
    else
      match functionForm? (head :: rest), normalAll rest with
      | some (ps, _), [arrow, body] => [.list (ps.map asSymbol), arrow.asSymbol, body]
      | _, more => normal head :: more

/-- Each datum in its normal form. -/
def normalAll : List Datum → List Datum
  | [] => []
  | d :: ds => normal d :: normalAll ds

end

theorem normalAll_eq_map (ds : List Datum) : normalAll ds = ds.map normal := by
  induction ds with
  | nil => rfl
  | cons d ds ih => rw [normalAll, ih, List.map_cons]

theorem normal_of_items? {d : Datum} {items : List Datum} (h : items? d = some items) :
    normal d = .list (normalForm items) := by
  rcases eq_of_items?_eq_some h with rfl | rfl
  · rw [normal]
  · rw [normal]

theorem asSymbol_of_isKeyword {d : Datum} {keyword : Text} (h : d.isKeyword keyword = true) :
    d.asSymbol = .sym ⟨keyword⟩ := by
  cases d with
  | sym x =>
    have hx : x.name = keyword := of_decide_eq_true h
    rw [← hx]
    rfl
  | str s =>
    have hs : s = keyword := of_decide_eq_true h
    rw [asSymbol, hs]
  | int _ | list _ | tuple _ | bool _ | nothing | real _ | bytes _ | record _ => cases h

/-- A keyword is its own normal form. -/
theorem normal_of_isKeyword {d : Datum} {keyword : Text} (h : d.isKeyword keyword = true) :
    normal d = d := by
  cases d with
  | sym _ | str _ => rfl
  | int _ | list _ | tuple _ | bool _ | nothing | real _ | bytes _ | record _ => cases h

theorem normalForm_cond {head : Datum} (hif : head.isKeyword "if" = true) (rest : List Datum) :
    normalForm (head :: rest) = .sym ⟨"if"⟩ :: rest.map normal := by
  rw [normalForm, if_pos hif, asSymbol_of_isKeyword hif, normalAll_eq_map]

theorem normalForm_lambda {head arrow body : Datum} {ps : List Datum}
    (hhead : items? head = some ps) (harrow : arrow.isKeyword "=>" = true) :
    normalForm [head, arrow, body] = [.list (ps.map asSymbol), .sym ⟨"=>"⟩, normal body] := by
  have hform : functionForm? [head, arrow, body] = some (ps, body) :=
    functionForm?_eq_some_iff.mpr ⟨head, arrow, rfl, hhead, harrow⟩
  have hif : ¬head.isKeyword "if" = true := by simp [isKeyword_of_items? hhead "if"]
  rw [normalForm, if_neg hif, hform, normalAll_eq_map]
  show [_, (normal arrow).asSymbol, _] = _
  rw [normal_of_isKeyword harrow, asSymbol_of_isKeyword harrow]

theorem normalForm_apply {head : Datum} {rest : List Datum} (hif : head.isKeyword "if" = false)
    (hform : functionForm? (head :: rest) = none) :
    normalForm (head :: rest) = normal head :: rest.map normal := by
  rw [normalForm, hif, hform, normalAll_eq_map]
  rfl

end Datum

/-! ## Parameters -/

/-- A name is taken unless it was taken before. -/
theorem paramsFrom_name {d : Datum} {x : Symbol} (hd : d.asSymbol = .sym x) (done : List Symbol)
    (ds : List Datum) :
    paramsFrom done (d :: ds) =
      if x ∈ done then .error (.repeatedParameter x) else paramsFrom (done ++ [x]) ds := by
  cases d with
  | sym y => cases hd; rfl
  | str s => cases hd; rfl
  | int _ | list _ | tuple _ | bool _ | nothing | real _ | bytes _ | record _ => cases hd

/-- What is taken for a parameter is a name. -/
theorem exists_name_of_paramsFrom {d : Datum} {ds : List Datum} {done names : List Symbol}
    (h : paramsFrom done (d :: ds) = .ok names) : ∃ x, d.asSymbol = .sym x := by
  cases d with
  | sym x => exact ⟨x, rfl⟩
  | str s => exact ⟨⟨s⟩, rfl⟩
  | int _ | list _ | tuple _ | bool _ | nothing | real _ | bytes _ | record _ =>
    simp only [paramsFrom] at h
    split at h <;> cases h

/-- Taking parameters keeps their order, turns texts into symbols and lets none stand twice. -/
theorem paramsFrom_eq_ok {done names : List Symbol} {ds : List Datum}
    (h : paramsFrom done ds = .ok names) (hdone : done.Nodup) :
    names.Nodup ∧ done.map .sym ++ ds.map Datum.asSymbol = names.map .sym := by
  induction ds generalizing done with
  | nil =>
    cases h
    simpa using hdone
  | cons d ds ih =>
    obtain ⟨x, hd⟩ := exists_name_of_paramsFrom h
    rw [paramsFrom_name hd] at h
    by_cases hx : x ∈ done
    · rw [if_pos hx] at h
      cases h
    · rw [if_neg hx] at h
      have hnodup : (done ++ [x]).Nodup := by
        refine List.nodup_append.mpr ⟨hdone, List.pairwise_singleton _ x, ?_⟩
        rintro y hy z hz rfl
        exact hx (List.mem_singleton.mp hz ▸ hy)
      obtain ⟨hnames, hmap⟩ := ih h hnodup
      refine ⟨hnames, ?_⟩
      rw [← hmap, List.map_cons, hd, List.map_append, List.append_assoc]
      rfl

/-- Distinct symbols are taken as they are. -/
theorem paramsFrom_symbols {done names : List Symbol} (h : (done ++ names).Nodup) :
    paramsFrom done (names.map .sym) = .ok (done ++ names) := by
  induction names generalizing done with
  | nil => rw [List.append_nil]; rfl
  | cons x names ih =>
    have hx : x ∉ done := fun hmem =>
      (List.nodup_append.mp h).2.2 x hmem x List.mem_cons_self rfl
    rw [List.map_cons, paramsFrom_name rfl, if_neg hx, ih (by simpa using h)]
    simp

/-! ## What the parser gives is canonical -/

/-- A datum is a keyword exactly when its expression could be written for one. -/
theorem isKeyword_of_standsFor {d : Datum} {e : Expr} (h : StandsFor d e) (keyword : Text) :
    e.isKeyword keyword = d.isKeyword keyword := by
  cases h with
  | int _ | str _ | sym _ => rfl
  | cond hd _ _ _ _ | lambda hd _ _ _ _ | apply hd _ _ _ _ =>
    rw [isKeyword_of_items? hd]
    rfl

/-- A datum has items exactly when its expression is compound. -/
theorem isCompound_of_standsFor {d : Datum} {e : Expr} (h : StandsFor d e) :
    e.isCompound = (items? d).isSome := by
  cases h with
  | int _ | str _ | sym _ => rfl
  | cond hd _ _ _ _ | lambda hd _ _ _ _ | apply hd _ _ _ _ =>
    rw [hd]
    rfl

/-- Data read as a function exactly when their expressions would. -/
theorem readsAsFunction_of_standsFor {head : Datum} {callee : Expr} {args : List (Datum × Expr)}
    (hhead : StandsFor head callee) (hargs : ∀ p ∈ args, StandsFor p.1 p.2) :
    Expr.readsAsFunction callee (args.map Prod.snd) =
      (functionForm? (head :: args.map Prod.fst)).isSome := by
  match args, hargs with
  | [], _ => rfl
  | [_], _ => rfl
  | [arrow, body], hargs =>
    have harrow := isKeyword_of_standsFor (hargs arrow List.mem_cons_self) "=>"
    show (callee.isCompound && arrow.2.isKeyword "=>") =
      (if arrow.1.isKeyword "=>" then (items? head).map fun ps => (ps, body.1) else none).isSome
    rw [isCompound_of_standsFor hhead, harrow]
    cases arrow.1.isKeyword "=>" <;> simp
  | _ :: _ :: _ :: _, _ => rfl

/-- An expression that some datum stands for is canonical. -/
theorem canonical_of_standsFor {d : Datum} {e : Expr} (h : StandsFor d e) : e.Canonical := by
  induction h with
  | int n => exact .num n
  | str s => exact .str s
  | sym x => exact .ident x
  | cond _ _ _ _ _ ih₁ ih₂ ih₃ => exact .cond ih₁ ih₂ ih₃
  | lambda _ _ _ hps _ ih => exact .lambda (paramsFrom_eq_ok hps List.nodup_nil).1 ih
  | @apply d head callee args _ hif hform hhead hargs ih₁ ih₂ =>
    refine .apply ih₁ ?_ ?_ ?_
    · intro e he
      obtain ⟨p, hp, rfl⟩ := List.mem_map.mp he
      exact ih₂ p hp
    · rw [isKeyword_of_standsFor hhead, hif]
    · rw [readsAsFunction_of_standsFor hhead hargs, hform]
      rfl

/-! ## What is written is parsed back -/

/-- A canonical expression is what its surface form stands for. -/
theorem standsFor_unparse {e : Expr} (h : e.Canonical) : StandsFor e.unparse e := by
  induction h with
  | num n => exact .int n
  | str s => exact .str s
  | ident x => exact .sym x
  | cond _ _ _ ih₁ ih₂ ih₃ =>
    rw [Expr.unparse]
    exact .cond rfl rfl ih₁ ih₂ ih₃
  | @lambda names body hnames _ ih =>
    rw [Expr.unparse]
    have hps : params (names.map .sym) = .ok names := @paramsFrom_symbols [] names hnames
    exact .lambda rfl rfl rfl hps ih
  | @apply callee args _ _ hif hform ih₁ ih₂ =>
    -- Each argument is paired with its surface form.
    let pairs := args.map fun e => (e.unparse, e)
    have hfst : pairs.map Prod.fst = Expr.unparseAll args := by
      rw [Expr.unparseAll_eq_map, List.map_map]
      rfl
    have hsnd : pairs.map Prod.snd = args := by
      rw [List.map_map]
      exact List.map_id args
    have hpairs : ∀ p ∈ pairs, StandsFor p.1 p.2 := by
      intro p hp
      obtain ⟨e, he, rfl⟩ := List.mem_map.mp hp
      exact ih₂ e he
    have hnone : functionForm? (callee.unparse :: pairs.map Prod.fst) = none := by
      have h := readsAsFunction_of_standsFor ih₁ hpairs
      rw [hsnd, hform] at h
      simpa using h.symm
    have hkeyword : callee.unparse.isKeyword "if" = false := by
      rw [← isKeyword_of_standsFor ih₁, hif]
    have hd : items? (Expr.apply callee args).unparse =
        some (callee.unparse :: pairs.map Prod.fst) := by
      rw [Expr.unparse, hfst]
      rfl
    have := StandsFor.apply hd hkeyword hnone ih₁ hpairs
    rwa [hsnd] at this

/-! ## What is parsed is written back in normal form -/

/-- The surface form of an expression is the normal form of every datum that stands for it. -/
theorem unparse_of_standsFor {d : Datum} {e : Expr} (h : StandsFor d e) :
    e.unparse = d.normal := by
  induction h with
  | int n => rfl
  | str s => rfl
  | sym x => rfl
  | cond hd hif _ _ _ ih₁ ih₂ ih₃ =>
    rw [Datum.normal_of_items? hd, Datum.normalForm_cond hif, Expr.unparse, ih₁, ih₂, ih₃]
    rfl
  | lambda hd hhead harrow hps _ ih =>
    have hnames := (paramsFrom_eq_ok hps List.nodup_nil).2
    rw [Datum.normal_of_items? hd, Datum.normalForm_lambda hhead harrow, Expr.unparse, ih,
      ← hnames]
    rfl
  | @apply d head callee args hd hif hform _ _ ih₁ ih₂ =>
    rw [Datum.normal_of_items? hd, Datum.normalForm_apply hif hform, Expr.unparse,
      Expr.unparseAll_eq_map, ih₁, List.map_map, List.map_map]
    congr 2
    exact List.map_congr_left fun p hp => ih₂ p hp

/-- The surface form of a canonical expression is normal already. -/
theorem normal_unparse {e : Expr} (h : e.Canonical) : e.unparse.normal = e.unparse :=
  (unparse_of_standsFor (standsFor_unparse h)).symm

/-- Between normal data and canonical expressions, parsing and writing are inverse to each other.
    What is parsed is canonical; a canonical expression is written as a normal datum, which is
    parsed back to it by every parser that may nest as deep as it does, and stops any other
    parser by its depth alone; and what is parsed is written back as the normal form of its
    datum. -/
theorem ofDatum_unparse_inverse (depth : Nat) :
    (∀ d e, ofDatum depth d = .ok e → e.Canonical) ∧
    (∀ e : Expr, e.Canonical → e.unparse.normal = e.unparse ∧
      ofDatum depth e.unparse = if e.nesting ≤ depth then .ok e else .error .tooDeep) ∧
    (∀ d e, ofDatum depth d = .ok e → e.unparse = d.normal) := by
  refine ⟨?_, ?_, ?_⟩
  · intro d e h
    exact canonical_of_standsFor (standsFor_of_ofDatum h)
  · intro e h
    exact ⟨normal_unparse h, ofDatum_of_standsFor (standsFor_unparse h) depth⟩
  · intro d e h
    exact unparse_of_standsFor (standsFor_of_ofDatum h)

/-- A tuple that calls a function, with texts for the keyword and one of the parameters, and with
    `=>` as an argument: the keyword and the parameters become symbols, the argument does not. -/
theorem ofDatum_unparse_inverse_call :
    let f : Datum := .list [.tuple [.str "x", .sym ⟨"y"⟩], .str "=>", .sym ⟨"x"⟩]
    let d : Datum := .tuple [f, .int 1, .str "=>"]
    let e : Expr := .apply (.lambda [⟨"x"⟩, ⟨"y"⟩] (.ident ⟨"x"⟩)) [.num 1, .str "=>"]
    ofDatum 5 d = .ok e ∧ e.Canonical ∧ e.unparse = d.normal ∧
      ofDatum 5 e.unparse = .ok e ∧ ofDatum 4 e.unparse = .error .tooDeep := by
  intro f d e
  have hd : ofDatum 5 d = .ok e := rfl
  have he : e.Canonical := (ofDatum_unparse_inverse 5).1 d e hd
  exact ⟨hd, he, (ofDatum_unparse_inverse 5).2.2 d e hd,
    ((ofDatum_unparse_inverse 5).2.1 e he).2, ((ofDatum_unparse_inverse 4).2.1 e he).2⟩

end MiniLisp
