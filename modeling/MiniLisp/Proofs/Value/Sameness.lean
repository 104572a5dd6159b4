/-
  MiniLisp.Proofs.Value.Sameness

  What `equal?` decides. Two values are the same (`Value.Same`) when they are of
  one kind and have the same parts, the environments of closures left aside.
  `equal?` compares canonical texts, so it decides sameness because canonical
  texts are unambiguous: the text of a proper expression tells the expression,
  whatever stands behind it (`Expr.tells_text`), and so does the text of a
  proper value, up to the environment of a closure (`Value.text_eq_iff_same`).
  The text is there whenever as many activations are allowed as expressions
  nest in the value (`Value.canonical_of_decimalsFit`).

  An expression or a value is proper when no foreign datum stands in it.
-/
import MiniLisp.Primitive.Apply
import MiniLisp.Proofs.Outcome
import MiniLisp.Proofs.Text.Unambiguous

namespace MiniLisp

open Text (Tells)

/-! ## Expressions -/

namespace Expr

/-- No foreign datum stands in the expression. -/
inductive Proper : Expr → Prop
  | num (n : Int) : Proper (.num n)
  | str (s : Text) : Proper (.str s)
  | bool (b : Bool) : Proper (.bool b)
  | ident (x : Symbol) : Proper (.ident x)
  | cond {test yes no : Expr} (htest : Proper test) (hyes : Proper yes) (hno : Proper no) :
      Proper (.cond test yes no)
  | lambda (params : List Symbol) {body : Expr} (hbody : Proper body) :
      Proper (.lambda params body)
  | apply {callee : Expr} {args : List Expr} (hcallee : Proper callee)
      (hargs : ∀ e ∈ args, Proper e) : Proper (.apply callee args)

theorem texts_eq_map (es : List Expr) : texts es = es.map text := by
  induction es with
  | nil => rfl
  | cons e es ih => rw [texts, ih, List.map_cons]

-- The canonical text of each kind of expression, stated once: the equations that would be made
-- for `text` are slow to make, because of the literals in them.

theorem text_num (n : Int) : text (.num n) = "NumberLit(value=" ++ Text.decimal n ++ ")" := rfl

theorem text_str (s : Text) : text (.str s) = "StringLit(value=" ++ Text.quoted s ++ ")" := rfl

theorem text_bool (b : Bool) : text (.bool b) = "BoolLit(value=" ++ Datum.boolText b ++ ")" := rfl

theorem text_ident (x : Symbol) : text (.ident x) = "Identifier(name=" ++ x.text ++ ")" := rfl

theorem text_cond (test yes no : Expr) :
    text (.cond test yes no) =
      "If(cond=" ++ text test ++ ", then=" ++ text yes ++ ", orelse=" ++ text no ++ ")" := rfl

theorem text_lambda (params : List Symbol) (body : Expr) :
    text (.lambda params body) =
      "Lambda(params=" ++ paramsText params ++ ", body=" ++ text body ++ ")" := rfl

theorem text_apply (callee : Expr) (args : List Expr) :
    text (.apply callee args) =
      "Apply(callee=" ++ text callee ++ ", args=" ++ Text.tupleText (args.map text) ++ ")" := by
  rw [← texts_eq_map]
  rfl

/-- The first two characters of a canonical text, which tell what the expression is. -/
def tag : Expr → List CodePoint
  | .num _ => [.char 'N', .char 'u']
  | .str _ => [.char 'S', .char 't']
  | .bool _ => [.char 'B', .char 'o']
  | .ident _ => [.char 'I', .char 'd']
  | .cond _ _ _ => [.char 'I', .char 'f']
  | .lambda _ _ => [.char 'L', .char 'a']
  | .apply _ _ => [.char 'A', .char 'p']
  | .foreign d => d.text.toList.take 2

theorem exists_text_eq_tag {e : Expr} (h : e.Proper) : ∃ r, e.text.toList = e.tag ++ r := by
  cases h with
  | num _ | str _ | bool _ | ident _ | cond _ _ _ | lambda _ _ | apply _ _ =>
    simp only [text_num, text_str, text_bool, text_ident, text_cond, text_lambda, text_apply,
      Text.toList_append]
    exact ⟨_, rfl⟩

theorem tag_eq_of_append_eq {e e' : Expr} (he : e.Proper) (he' : e'.Proper) {r s : List CodePoint}
    (h : e.text.toList ++ r = e'.text.toList ++ s) : e.tag = e'.tag := by
  obtain ⟨t, ht⟩ := exists_text_eq_tag he
  obtain ⟨t', ht'⟩ := exists_text_eq_tag he'
  rw [ht, ht', List.append_assoc, List.append_assoc] at h
  have hlength : e.tag.length = e'.tag.length := by
    cases he <;> cases he' <;> rfl
  exact List.append_inj_left h hlength

theorem opensMember_text {e : Expr} (h : e.Proper) : Text.OpensMember e.text := by
  intro r s heq
  obtain ⟨t, ht⟩ := exists_text_eq_tag h
  rw [ht] at heq
  cases h <;> exact absurd (List.cons.inj heq).1 (by decide)

theorem tells_boolText (a b : Bool) : Tells Datum.boolText a b := by
  intro r s h
  cases a <;> cases b
  · exact ⟨rfl, List.append_cancel_left h⟩
  · exact absurd (List.cons.inj h).1 (by decide)
  · exact absurd (List.cons.inj h).1 (by decide)
  · exact ⟨rfl, List.append_cancel_left h⟩

theorem tells_paramsText (xs ys : List Symbol) : Tells paramsText xs ys := by
  have hopens : ∀ x : Symbol, Text.OpensMember x.text := by
    intro x r s h
    simp only [Symbol.text, Text.toList_append, List.append_assoc] at h
    exact absurd (List.cons.inj h).1 (by decide)
  exact Text.tells_tuple (fun x _ y _ => Text.tells_symbol x y) (fun x _ => hopens x)
    fun y _ => hopens y

/-- The canonical text of a proper expression tells the expression. -/
theorem tells_text {e e' : Expr} (he : e.Proper) (he' : e'.Proper) : Tells text e e' := by
  -- In each case the tags show that the other expression is of the same kind, and the parts are
  -- then taken off the two texts from left to right.
  induction he generalizing e' with
  | num n =>
    intro r s h
    have htag := tag_eq_of_append_eq (.num n) he' h
    cases he' with
    | num m =>
      simp only [text_num, Text.toList_append, List.append_assoc, Text.toList_close] at h
      obtain ⟨rfl, hrest⟩ := Text.decimal_unambiguous (List.append_cancel_left h)
      exact ⟨rfl, hrest⟩
    | _ => simp [tag] at htag
  | str t =>
    intro r s h
    have htag := tag_eq_of_append_eq (.str t) he' h
    cases he' with
    | str t' =>
      rw [text_str, text_str] at h
      obtain ⟨rfl, hrest⟩ := (Text.tells_quoted t t').between h
      exact ⟨rfl, hrest⟩
    | _ => simp [tag] at htag
  | bool b =>
    intro r s h
    have htag := tag_eq_of_append_eq (.bool b) he' h
    cases he' with
    | bool b' =>
      rw [text_bool, text_bool] at h
      obtain ⟨rfl, hrest⟩ := (tells_boolText b b').between h
      exact ⟨rfl, hrest⟩
    | _ => simp [tag] at htag
  | ident x =>
    intro r s h
    have htag := tag_eq_of_append_eq (.ident x) he' h
    cases he' with
    | ident x' =>
      rw [text_ident, text_ident] at h
      obtain ⟨rfl, hrest⟩ := (Text.tells_symbol x x').between h
      exact ⟨rfl, hrest⟩
    | _ => simp [tag] at htag
  | cond htest hyes hno ih₁ ih₂ ih₃ =>
    intro r s h
    have htag := tag_eq_of_append_eq (.cond htest hyes hno) he' h
    cases he' with
    | cond htest' hyes' hno' =>
      simp only [text_cond, Text.toList_append, List.append_assoc] at h
      have htests := List.append_cancel_left h
      obtain ⟨rfl, hrest₁⟩ := ih₁ htest' _ _ htests
      have hyeses := List.append_cancel_left hrest₁
      obtain ⟨rfl, hrest₂⟩ := ih₂ hyes' _ _ hyeses
      have hnos := List.append_cancel_left hrest₂
      obtain ⟨rfl, hrest₃⟩ := ih₃ hno' _ _ hnos
      exact ⟨rfl, List.append_cancel_left hrest₃⟩
    | _ => simp [tag] at htag
  | lambda params hbody ih =>
    intro r s h
    have htag := tag_eq_of_append_eq (.lambda params hbody) he' h
    cases he' with
    | lambda params' hbody' =>
      simp only [text_lambda, Text.toList_append, List.append_assoc] at h
      have hparams := List.append_cancel_left h
      obtain ⟨rfl, hrest₁⟩ := tells_paramsText params params' _ _ hparams
      have hbodies := List.append_cancel_left hrest₁
      obtain ⟨rfl, hrest⟩ := ih hbody' _ _ hbodies
      exact ⟨rfl, List.append_cancel_left hrest⟩
    | _ => simp [tag] at htag
  | @apply callee args hcallee hargs ih₁ ih₂ =>
    intro r s h
    have htag := tag_eq_of_append_eq (.apply hcallee hargs) he' h
    cases he' with
    | @apply callee' args' hcallee' hargs' =>
      have htells : Tells (fun es => Text.tupleText (es.map text)) args args' :=
        Text.tells_tuple (fun x hx y hy => ih₂ x hx (hargs' y hy))
          (fun x hx => opensMember_text (hargs x hx)) fun y hy => opensMember_text (hargs' y hy)
      simp only [text_apply, Text.toList_append, List.append_assoc] at h
      have hcallees := List.append_cancel_left h
      obtain ⟨rfl, hrest₁⟩ := ih₁ hcallee' _ _ hcallees
      have htuples := List.append_cancel_left hrest₁
      obtain ⟨rfl, hrest⟩ := htells _ _ htuples
      exact ⟨rfl, List.append_cancel_left hrest⟩
    | _ => simp [tag] at htag

/-! ## How deep an expression nests -/

mutual

/-- How deep the expression nests: one for itself, and one for each expression around its deepest
    part. -/
def height : Expr → Nat
  | .num _ | .str _ | .bool _ | .ident _ | .foreign _ => 1
  | .cond test yes no => max (height test) (max (height yes) (height no)) + 1
  | .lambda _ body => height body + 1
  | .apply callee args => max (height callee) (heightAll args) + 1

/-- How deep the deepest of several expressions nests. -/
def heightAll : List Expr → Nat
  | [] => 0
  | e :: es => max (height e) (heightAll es)

end

theorem allDecimalsFit_iff {es : List Expr} :
    allDecimalsFit es = true ↔ ∀ e ∈ es, e.decimalsFit = true := by
  induction es with
  | nil => simp [allDecimalsFit]
  | cons e es ih => rw [allDecimalsFit, Bool.and_eq_true, ih, List.forall_mem_cons]

/-- Arguments have their texts when each of them has its text. -/
theorem mapM_canonical {depth : Nat} {es : List Expr}
    (h : ∀ e ∈ es, e.canonical depth = within e.height depth e.text) :
    es.mapM (canonical depth) = within (heightAll es) depth (es.map text) := by
  induction es with
  | nil => exact (if_pos (Nat.zero_le depth)).symm
  | cons e es ih =>
    obtain ⟨he, hes⟩ := List.forall_mem_cons.mp h
    rw [List.mapM_cons, he, ih hes, heightAll]
    exact within_bind (within_bind_pure _ _ _ _)

/-- The canonical text of an expression takes as many activations as expressions nest in it. -/
theorem canonical_of_decimalsFit (e : Expr) (depth : Nat) (hfit : e.decimalsFit = true) :
    e.canonical depth = within e.height depth e.text := by
  induction depth generalizing e with
  | zero => cases e <;> rfl
  | succ depth ih =>
    cases e with
    | num n =>
      have hn : decimalText n = .ok (Text.decimal n) := if_pos hfit
      rw [canonical, hn]
      rfl
    | str _ | bool _ | ident _ => rfl
    | foreign d =>
      have hd : d.written = .ok d.text := if_pos hfit
      rw [canonical, hd]
      rfl
    | cond test yes no =>
      simp only [decimalsFit, Bool.and_eq_true] at hfit
      rw [canonical, ih test hfit.1.1, ih yes hfit.1.2, ih no hfit.2, height, within_succ]
      exact within_bind (within_bind (within_bind_pure _ _ _ _))
    | lambda params body =>
      rw [canonical, ih body hfit, height, within_succ]
      exact within_bind_pure _ _ _ _
    | apply callee args =>
      simp only [decimalsFit, Bool.and_eq_true] at hfit
      have hargs : ∀ e ∈ args, e.canonical depth = within e.height depth e.text :=
        fun e he => ih e (allDecimalsFit_iff.mp hfit.2 e he)
      rw [canonical, ih callee hfit.1, mapM_canonical hargs, height, within_succ, text_apply]
      exact within_bind (within_bind_pure _ _ _ _)

end Expr

/-! ## Values -/

namespace Value

/-- No foreign datum is the value or stands in its body. -/
def Proper : Value → Prop
  | .closure _ body _ => body.Proper
  | .foreign _ => False
  | .num _ | .str _ | .bool _ | .prim _ | .failure => True

/-- The values are of the same kind and have the same parts, but for the environments of
    closures. -/
def Same : Value → Value → Prop
  | .num m, .num n => m = n
  | .str s, .str t => s = t
  | .bool a, .bool b => a = b
  | .prim op, .prim op' => op = op'
  | .closure params body _, .closure params' body' _ => params = params' ∧ body = body'
  | .failure, .failure => True
  | .foreign d, .foreign d' => d = d'
  | _, _ => False

theorem text_eq_of_same {v w : Value} (h : Same v w) : v.text = w.text := by
  unfold Same at h
  split at h
  · rw [h]
  · rw [h]
  · rw [h]
  · rw [h]
  · obtain ⟨rfl, rfl⟩ := h
    rfl
  · rfl
  · rw [h]
  · exact h.elim

theorem text_num (n : Int) : text (.num n) = "Number(value=" ++ Text.decimal n ++ ")" := rfl

theorem text_str (s : Text) : text (.str s) = "String(value=" ++ Text.quoted s ++ ")" := rfl

theorem text_bool (b : Bool) : text (.bool b) = "Bool(value=" ++ Datum.boolText b ++ ")" := rfl

theorem text_prim (op : Symbol) : text (.prim op) = "Primitive(op=" ++ op.text ++ ")" := rfl

theorem text_closure (params : List Symbol) (body : Expr) (env : Env) :
    text (.closure params body env) =
      "Closure(params=" ++ Expr.paramsText params ++ ", body=" ++ body.text ++ ")" := rfl

/-- The first character of a canonical text, which tells the kind of the value. -/
def tag : Value → Option CodePoint
  | .num _ => some 'N'
  | .str _ => some 'S'
  | .bool _ => some 'B'
  | .prim _ => some 'P'
  | .closure _ _ _ => some 'C'
  | .failure => some 'E'
  | .foreign d => d.text.toList.head?

theorem head?_text (v : Value) : v.text.toList.head? = v.tag := by
  cases v with
  | failure => decide
  | foreign _ => rfl
  | num _ | str _ | bool _ | prim _ | closure _ _ _ =>
    simp only [text_num, text_str, text_bool, text_prim, text_closure, Text.toList_append]
    rfl

/-- Values with the same canonical text are the same. -/
theorem same_of_text_eq {v w : Value} (hv : v.Proper) (hw : w.Proper) (h : v.text = w.text) :
    Same v w := by
  have htag : v.tag = w.tag := by rw [← head?_text, h, head?_text]
  have hlist : v.text.toList ++ [] = w.text.toList ++ [] := by rw [h]
  cases v with
  | num m =>
    cases w with
    | num n =>
      simp only [text_num, Text.toList_append, List.append_assoc, Text.toList_close] at hlist
      exact (Text.decimal_unambiguous (List.append_cancel_left hlist)).1
    | foreign _ => exact hw.elim
    | _ => simp [tag] at htag
  | str s =>
    cases w with
    | str t =>
      rw [text_str, text_str] at hlist
      exact ((Text.tells_quoted s t).between hlist).1
    | foreign _ => exact hw.elim
    | _ => simp [tag] at htag
  | bool a =>
    cases w with
    | bool b =>
      rw [text_bool, text_bool] at hlist
      exact ((Expr.tells_boolText a b).between hlist).1
    | foreign _ => exact hw.elim
    | _ => simp [tag] at htag
  | prim op =>
    cases w with
    | prim op' =>
      rw [text_prim, text_prim] at hlist
      exact ((Text.tells_symbol op op').between hlist).1
    | foreign _ => exact hw.elim
    | _ => simp [tag] at htag
  | closure params body env =>
    cases w with
    | closure params' body' env' =>
      simp only [text_closure, Text.toList_append, List.append_assoc] at hlist
      have hparams := List.append_cancel_left hlist
      obtain ⟨hp, hrest⟩ := Expr.tells_paramsText params params' _ _ hparams
      have hbodies := List.append_cancel_left hrest
      exact ⟨hp, (Expr.tells_text hv hw _ _ hbodies).1⟩
    | foreign _ => exact hw.elim
    | _ => simp [tag] at htag
  | failure =>
    cases w with
    | failure => trivial
    | foreign _ => exact hw.elim
    | _ => simp [tag] at htag
  | foreign _ => exact hv.elim

/-- Proper values have the same canonical text exactly when they are the same. -/
theorem text_eq_iff_same {v w : Value} (hv : v.Proper) (hw : w.Proper) :
    v.text = w.text ↔ Same v w := ⟨same_of_text_eq hv hw, text_eq_of_same⟩

/-- How many activations the canonical text of a value takes: one for the value, and those of a
    closure's body. -/
def height : Value → Nat
  | .closure _ body _ => body.height + 1
  | .num _ | .str _ | .bool _ | .prim _ | .failure | .foreign _ => 1

theorem canonical_of_decimalsFit {v : Value} (hfit : v.decimalsFit = true) (depth : Nat) :
    v.canonical depth = within v.height depth v.text := by
  cases depth with
  | zero => cases v <;> rfl
  | succ depth =>
    cases v with
    | num n =>
      have hn : decimalText n = .ok (Text.decimal n) := if_pos hfit
      rw [canonical, hn]
      rfl
    | str _ | bool _ | prim _ | failure => rfl
    | foreign d =>
      have hd : d.written = .ok d.text := if_pos hfit
      rw [canonical, hd]
      rfl
    | closure params body env =>
      rw [canonical, body.canonical_of_decimalsFit depth hfit, height, within_succ]
      exact within_bind_pure _ _ _ _

end Value

/-! ## What `equal?` decides -/

/-- `equal?` compares the canonical texts of two values, if there is room to make them. -/
theorem equal_of_decimalsFit {v w : Value} (hv : v.decimalsFit = true)
    (hw : w.decimalsFit = true) (depth : Nat) :
    (Primitive.applySymbol depth ⟨"equal?"⟩ [v, w]).outcome =
      within (max v.height w.height) depth (.bool (v.text = w.text)) := by
  rw [show (⟨"equal?"⟩ : Symbol) = Primitive.same.symbol from rfl,
    Primitive.applySymbol_of_ofSymbol? (Primitive.ofSymbol?_symbol _), Primitive.apply_eq]
  show Primitive.compute depth .same [v, w] = _
  simp only [Primitive.compute, Value.canonical_of_decimalsFit hv,
    Value.canonical_of_decimalsFit hw]
  exact within_bind (within_bind_pure _ _ _ _)

/-- `equal?` decides whether two values are the same: it answers true on values that are, and
    false on values that are not, as long as there is room for the activations that their texts
    take, and runs out of it otherwise. So canonical texts are injective up to the environments of
    closures. -/
theorem equal_decides_same (v w : Value) (hv : v.Proper) (hw : w.Proper)
    (hvfit : v.decimalsFit = true) (hwfit : w.decimalsFit = true) (depth : Nat) :
    (max v.height w.height ≤ depth →
      (v.Same w → (Primitive.applySymbol depth ⟨"equal?"⟩ [v, w]).outcome = .ok (.bool true)) ∧
      (¬v.Same w → (Primitive.applySymbol depth ⟨"equal?"⟩ [v, w]).outcome = .ok (.bool false)) ∧
      (v.canonical depth = w.canonical depth ↔ v.Same w)) ∧
    (depth < max v.height w.height →
      (Primitive.applySymbol depth ⟨"equal?"⟩ [v, w]).outcome = .error .tooDeep) ∧
    (v.text = w.text ↔ v.Same w) := by
  have hsame := Value.text_eq_iff_same hv hw
  refine ⟨fun hroom => ⟨fun h => ?_, fun h => ?_, ?_⟩, fun hroom => ?_, hsame⟩
  · rw [equal_of_decimalsFit hvfit hwfit, within, if_pos hroom, decide_eq_true (hsame.mpr h)]
  · rw [equal_of_decimalsFit hvfit hwfit, within, if_pos hroom,
      decide_eq_false fun htext => h (hsame.mp htext)]
  · obtain ⟨hvroom, hwroom⟩ := Nat.max_le.mp hroom
    rw [Value.canonical_of_decimalsFit hvfit, Value.canonical_of_decimalsFit hwfit, within, within,
      if_pos hvroom, if_pos hwroom, Except.ok.injEq, hsame]
  · rw [equal_of_decimalsFit hvfit hwfit, within, if_neg (Nat.not_le.mpr hroom)]

/-- Two closures that differ in their environments only are equal, and one whose text imitates the
    end of the other's is not. -/
theorem equal_decides_same_closures :
    let call (s : Text) : Expr := .apply (.ident ⟨"f"⟩) [.str s]
    let v : Value := .closure [⟨"f"⟩] (call "it's") []
    let w : Value := .closure [⟨"f"⟩] (call "it's") [[(⟨"x"⟩, .bool true)]]
    let u : Value := .closure [⟨"f"⟩] (call "it's\"),)") []
    (Primitive.applySymbol 3 ⟨"equal?"⟩ [v, w]).outcome = .ok (.bool true) ∧
      (Primitive.applySymbol 3 ⟨"equal?"⟩ [v, u]).outcome = .ok (.bool false) := by
  intro call v w u
  have hcall : ∀ s, (call s).Proper := fun s =>
    .apply (.ident _) fun e he => List.mem_singleton.mp he ▸ .str s
  have hdiffer : ¬v.Same u := by
    rintro ⟨-, hbody⟩
    simp [call, Text.ofString_inj] at hbody
  exact ⟨((equal_decides_same v w (hcall _) (hcall _) rfl rfl 3).1 (by decide)).1 ⟨rfl, rfl⟩,
    ((equal_decides_same v u (hcall _) (hcall _) rfl rfl 3).1 (by decide)).2.1 hdiffer⟩

end MiniLisp
