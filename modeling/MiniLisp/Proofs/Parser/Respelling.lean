/-
  MiniLisp.Proofs.Parser.Respelling

  Surface data that differ in their spelling only. The same text is a keyword, a
  parameter or a literal, depending on where it stands; in the first two roles
  the symbol of that name serves as well, and a list serves as well as a tuple.
  `Datum.Respelled d d'` is one such change, anywhere in the datum.

  `Datum.Synonymous` says when two data can stand for each other in all roles: as
  names, as lists of parameters and as expressions. Items that are synonymous
  make up forms that parse alike (`sameKind_ofForm`), so each change makes
  synonymous data of synonymous ones (`Respelled.synonymous`). Faults are compared
  by their class: the message about a bad parameter shows how it is spelled.
-/
import MiniLisp.Proofs.Parser.Unparse
import Mathlib.Data.List.Nodup
import Mathlib.Data.Option.Defs
import Mathlib.Logic.Relation

namespace MiniLisp

open MiniLisp.Expr (items? functionForm? params paramsFrom ofDatum ofForm ofArgs)

variable {α β : Type}

/-! ## Computations that end alike -/

/-- Both computations have one and the same result, or stop at faults of one class. -/
inductive SameKind : Except Fault α → Except Fault α → Prop
  | ok (a : α) : SameKind (.ok a) (.ok a)
  | error {fault fault' : Fault} (h : fault.kind = fault'.kind) :
      SameKind (.error fault) (.error fault')

namespace SameKind

theorem refl (r : Except Fault α) : SameKind r r := by
  cases r with
  | ok a => exact .ok a
  | error fault => exact .error rfl

theorem trans {r r' r'' : Except Fault α} (h : SameKind r r') (h' : SameKind r' r'') :
    SameKind r r'' := by
  cases h with
  | ok a => exact h'
  | error h =>
    cases h' with
    | error h' => exact .error (h.trans h')

theorem bind {r r' : Except Fault α} {f f' : α → Except Fault β} (h : SameKind r r')
    (hf : ∀ a, SameKind (f a) (f' a)) : SameKind (r >>= f) (r' >>= f') := by
  cases h with
  | ok a => exact hf a
  | error h => exact .error h

theorem mapM {f : α → Except Fault β} {xs ys : List α}
    (h : List.Forall₂ (fun x y => SameKind (f x) (f y)) xs ys) :
    SameKind (xs.mapM f) (ys.mapM f) := by
  induction h with
  | nil => exact .refl _
  | cons hxy _ ih =>
    rw [List.mapM_cons, List.mapM_cons]
    exact hxy.bind fun b => ih.bind fun bs => .refl _

end SameKind

/-! ## Changes of spelling -/

namespace Datum

/-- The second datum is the first with one thing spelled otherwise, at any depth. A keyword or a
    parameter may be a symbol or the text of its name; lists and tuples are not told apart. -/
inductive Respelled : Datum → Datum → Prop
  /-- A list for a tuple of the same items, or a tuple for a list. -/
  | sequence {d d' : Datum} {items : List Datum} (hd : items? d = some items)
      (hd' : items? d' = some items) : Respelled d d'
  /-- The keyword `if` at the head of a list. -/
  | cond {d d' head head' : Datum} {rest : List Datum} (hd : items? d = some (head :: rest))
      (hd' : items? d' = some (head' :: rest)) (hif : head.isKeyword "if" = true)
      (hif' : head'.isKeyword "if" = true) : Respelled d d'
  /-- The keyword `=>` between a list and a third item. -/
  | arrow {d d' head arrow arrow' body : Datum} {ps : List Datum}
      (hd : items? d = some [head, arrow, body]) (hd' : items? d' = some [head, arrow', body])
      (hhead : items? head = some ps) (harrow : arrow.isKeyword "=>" = true)
      (harrow' : arrow'.isKeyword "=>" = true) : Respelled d d'
  /-- A name in the list before the keyword `=>` and a third item. -/
  | param {d d' head head' arrow body p p' : Datum} {before after : List Datum} {name : Text}
      (hd : items? d = some [head, arrow, body]) (hd' : items? d' = some [head', arrow, body])
      (hhead : items? head = some (before ++ p :: after))
      (hhead' : items? head' = some (before ++ p' :: after))
      (harrow : arrow.isKeyword "=>" = true) (hp : p.isKeyword name = true)
      (hp' : p'.isKeyword name = true) : Respelled d d'
  /-- Anything in an item. -/
  | item {d d' e e' : Datum} {before after : List Datum}
      (hd : items? d = some (before ++ e :: after))
      (hd' : items? d' = some (before ++ e' :: after)) (h : Respelled e e') : Respelled d d'
  /-- Anything in a field. -/
  | field {name : Text} {e e' : Datum} {before after : List (Text × Datum)}
      (h : Respelled e e') :
      Respelled (.record (before ++ (name, e) :: after)) (.record (before ++ (name, e') :: after))

/-! ## Data that stand for the same names -/

/-- The data are the same keyword or parameter, if they are any, and their numbers are as long. -/
structure NamesAlike (d d' : Datum) : Prop where
  keyword (name : Text) : d.isKeyword name = d'.isKeyword name
  decimalsFit : d.decimalsFit = d'.decimalsFit

theorem NamesAlike.refl (d : Datum) : NamesAlike d d := ⟨fun _ => rfl, rfl⟩

theorem isKeyword_of_asSymbol {d : Datum} {x : Symbol} (h : d.asSymbol = .sym x)
    (name : Text) : d.isKeyword name = decide (x.name = name) := by
  cases d with
  | sym y => cases h; rfl
  | str s => cases h; rfl
  | int _ | list _ | tuple _ | bool _ | nothing | real _ | bytes _ | record _ => cases h

/-- A datum is a name, or it is not taken for any. -/
theorem asSymbol_cases (d : Datum) :
    (∃ x, d.asSymbol = .sym x) ∨ ∀ name, d.isKeyword name = false := by
  cases d with
  | sym x => exact .inl ⟨x, rfl⟩
  | str s => exact .inl ⟨⟨s⟩, rfl⟩
  | int _ | list _ | tuple _ | bool _ | nothing | real _ | bytes _ | record _ =>
    exact .inr fun _ => rfl

theorem decimalsFit_of_asSymbol {d : Datum} {x : Symbol} (h : d.asSymbol = .sym x) :
    d.decimalsFit = true := by
  cases d with
  | sym y => rfl
  | str s => rfl
  | int _ | list _ | tuple _ | bool _ | nothing | real _ | bytes _ | record _ => cases h

/-- The text and the symbol of a name are alike. -/
theorem namesAlike_of_isKeyword {d d' : Datum} {name : Text} (h : d.isKeyword name = true)
    (h' : d'.isKeyword name = true) : NamesAlike d d' := by
  have hd := asSymbol_of_isKeyword h
  have hd' := asSymbol_of_isKeyword h'
  refine ⟨fun name' => ?_, ?_⟩
  · rw [isKeyword_of_asSymbol hd, isKeyword_of_asSymbol hd']
  · rw [decimalsFit_of_asSymbol hd, decimalsFit_of_asSymbol hd']

theorem decimalsFit_of_items? {d : Datum} {items : List Datum} (h : items? d = some items) :
    d.decimalsFit = allDecimalsFit items := by
  rcases eq_of_items?_eq_some h with rfl | rfl
  · rw [decimalsFit]
  · rw [decimalsFit]

theorem allDecimalsFit_eq {ds ds' : List Datum} (h : List.Forall₂ NamesAlike ds ds') :
    allDecimalsFit ds = allDecimalsFit ds' := by
  induction h with
  | nil => rfl
  | cons hd _ ih => rw [allDecimalsFit, allDecimalsFit, hd.decimalsFit, ih]

theorem namesAlike_of_items? {d d' : Datum} {ds ds' : List Datum} (hd : items? d = some ds)
    (hd' : items? d' = some ds') (h : List.Forall₂ NamesAlike ds ds') : NamesAlike d d' := by
  refine ⟨fun name => ?_, ?_⟩
  · rw [isKeyword_of_items? hd, isKeyword_of_items? hd']
  · rw [decimalsFit_of_items? hd, decimalsFit_of_items? hd', allDecimalsFit_eq h]

theorem fieldDecimalsFit_eq {name : Text} {e e' : Datum} (h : NamesAlike e e')
    (before after : List (Text × Datum)) :
    fieldDecimalsFit (before ++ (name, e) :: after) =
      fieldDecimalsFit (before ++ (name, e') :: after) := by
  induction before with
  | nil => rw [List.nil_append, List.nil_append, fieldDecimalsFit, fieldDecimalsFit, h.decimalsFit]
  | cons b before ih =>
    rw [List.cons_append, List.cons_append, fieldDecimalsFit, fieldDecimalsFit, ih]

end Datum

open Datum (NamesAlike Respelled)

/-! ## Parameters -/

/-- What is no name is no parameter. -/
theorem paramsFrom_of_no_name {d : Datum} (hd : ∀ name, d.isKeyword name = false)
    (done : List Symbol) (ds : List Datum) :
    paramsFrom done (d :: ds) =
      if d.decimalsFit then .error (.badParameter d.text) else .error .longDecimal := by
  cases d with
  | sym x => exact absurd (hd x.name) (by simp [Datum.isKeyword])
  | str s => exact absurd (hd s) (by simp [Datum.isKeyword])
  | int _ | list _ | tuple _ | bool _ | nothing | real _ | bytes _ | record _ => rfl

/-- Parameters that are alike are taken alike. -/
theorem sameKind_paramsFrom {ps ps' : List Datum} (h : List.Forall₂ NamesAlike ps ps')
    (done : List Symbol) : SameKind (paramsFrom done ps) (paramsFrom done ps') := by
  induction h generalizing done with
  | nil => exact .refl _
  | @cons p p' ps ps' hp _ ih =>
    rcases p.asSymbol_cases with ⟨x, hx⟩ | hno
    · have hx' : p'.asSymbol = .sym x := by
        have hname : p'.isKeyword x.name = true := by
          rw [← hp.keyword, Datum.isKeyword_of_asSymbol hx]
          exact decide_eq_true rfl
        exact Datum.asSymbol_of_isKeyword hname
      rw [paramsFrom_name hx, paramsFrom_name hx']
      by_cases hmem : x ∈ done
      · rw [if_pos hmem, if_pos hmem]
        exact .refl _
      · rw [if_neg hmem, if_neg hmem]
        exact ih _
    · have hno' : ∀ name, p'.isKeyword name = false := fun name => hp.keyword name ▸ hno name
      rw [paramsFrom_of_no_name hno, paramsFrom_of_no_name hno', ← hp.decimalsFit]
      split
      · exact .error rfl
      · exact .refl _

/-- Of several names, however they are spelled, the first that was taken before is refused. -/
theorem paramsFrom_of_repeated {ps : List Datum} {names done : List Symbol}
    (h : List.Forall₂ (fun p x => p.isKeyword x.name = true) ps names) (hdone : done.Nodup)
    (hdup : ¬(done ++ names).Nodup) :
    ∃ before x after, done ++ names = before ++ x :: after ∧ before.Nodup ∧ x ∈ before ∧
      paramsFrom done ps = .error (.repeatedParameter x) := by
  induction h generalizing done with
  | nil =>
    rw [List.append_nil] at hdup
    exact absurd hdone hdup
  | @cons p x ps names hp _ ih =>
    rw [paramsFrom_name (Datum.asSymbol_of_isKeyword hp)]
    by_cases hx : x ∈ done
    · exact ⟨done, x, names, rfl, hdone, hx, if_pos hx⟩
    · have hdone' : (done ++ [x]).Nodup := List.concat_eq_append ▸ hdone.concat hx
      have happend : done ++ x :: names = done ++ [x] ++ names := by simp
      rw [happend] at hdup ⊢
      rw [if_neg hx]
      exact ih hdone' hdup

/-! ## Data that can stand for each other -/

/-- The data are alike as names, as lists of parameters and as expressions. -/
structure Datum.Synonymous (d d' : Datum) : Prop where
  names : NamesAlike d d'
  params : Option.Rel (List.Forall₂ NamesAlike) (items? d) (items? d')
  parses (depth : Nat) : SameKind (ofDatum depth d) (ofDatum depth d')

open Datum (Synonymous)

theorem forall₂_namesAlike_refl (ds : List Datum) : List.Forall₂ NamesAlike ds ds :=
  List.forall₂_same.mpr fun d _ => .refl d

theorem Datum.Synonymous.refl (d : Datum) : Synonymous d d := by
  refine ⟨.refl d, ?_, fun depth => .refl _⟩
  cases items? d with
  | none => exact .none
  | some items => exact .some (forall₂_namesAlike_refl items)

/-- Items that can stand for each other are functions alike. -/
theorem functionForm?_of_synonymous {ds ds' : List Datum} (h : List.Forall₂ Synonymous ds ds') :
    (functionForm? ds = none ∧ functionForm? ds' = none) ∨
      ∃ ps ps' body body', functionForm? ds = some (ps, body) ∧
        functionForm? ds' = some (ps', body') ∧ List.Forall₂ NamesAlike ps ps' ∧
        Synonymous body body' := by
  -- Only three items can be a function.
  rcases h with _ | ⟨hhead, _ | ⟨harrow, _ | ⟨hbody, _ | ⟨_, _⟩⟩⟩⟩
  · exact .inl ⟨rfl, rfl⟩
  · exact .inl ⟨rfl, rfl⟩
  · exact .inl ⟨rfl, rfl⟩
  · rename_i head head' arrow arrow' body body'
    have hparams := hhead.params
    rw [functionForm?, functionForm?, harrow.names.keyword]
    generalize items? head = ps, items? head' = ps' at hparams ⊢
    split
    · cases hparams with
      | none => exact .inl ⟨rfl, rfl⟩
      | some hps => exact .inr ⟨_, _, body, body', rfl, rfl, hps, hbody⟩
    · exact .inl ⟨rfl, rfl⟩
  · exact .inl ⟨rfl, rfl⟩

/-- Items that can stand for each other make up forms that parse alike. -/
theorem sameKind_ofForm {ds ds' : List Datum} (h : List.Forall₂ Synonymous ds ds')
    (depth : Nat) : SameKind (ofForm depth ds) (ofForm depth ds') := by
  rcases depth with _ | depth
  · rw [ofForm, ofForm]
    exact .refl _
  rcases h with _ | ⟨hhead, hrest⟩
  · exact .refl _
  rename_i head head' rest rest'
  by_cases hif : head.isKeyword "if" = true
  · have hif' : head'.isKeyword "if" = true := hhead.names.keyword "if" ▸ hif
    by_cases hlen : rest.length = 3
    · obtain ⟨test, yes, no, rfl⟩ := List.length_eq_three.mp hlen
      rcases hrest with _ | ⟨htest, _ | ⟨hyes, _ | ⟨hno, _ | _⟩⟩⟩
      rw [ofForm_cond depth hif, ofForm_cond depth hif']
      exact (htest.parses depth).bind fun _ => (hyes.parses depth).bind fun _ =>
        (hno.parses depth).bind fun _ => .refl _
    · rw [ofForm_conditionalParts depth hif hlen,
        ofForm_conditionalParts depth hif' (hrest.length_eq ▸ hlen)]
      exact .error rfl
  · have hif : head.isKeyword "if" = false := eq_false_of_ne_true hif
    have hif' : head'.isKeyword "if" = false := hhead.names.keyword "if" ▸ hif
    rcases functionForm?_of_synonymous (.cons hhead hrest) with
      ⟨hform, hform'⟩ | ⟨ps, ps', body, body', hform, hform', hps, hbody⟩
    · rw [ofForm_apply depth hif hform, ofForm_apply depth hif' hform']
      refine (hhead.parses depth).bind fun _ => SameKind.bind ?_ fun _ => .refl _
      rcases depth with _ | depth
      · rw [ofArgs, ofArgs]
        exact .refl _
      · rw [ofArgs, ofArgs]
        exact .mapM (hrest.imp fun _ _ hd => hd.parses depth)
    · rw [ofForm_lambda depth hif hform, ofForm_lambda depth hif' hform']
      exact (sameKind_paramsFrom hps []).bind fun _ => (hbody.parses depth).bind fun _ => .refl _

/-! ## Every change of spelling is one between such data -/

/-- Lists can stand for each other when their items are alike as names and as a form. -/
theorem synonymous_of_items? {d d' : Datum} {ds ds' : List Datum} (hd : items? d = some ds)
    (hd' : items? d' = some ds') (hnames : List.Forall₂ NamesAlike ds ds')
    (hform : ∀ depth, SameKind (ofForm depth ds) (ofForm depth ds')) : Synonymous d d' := by
  refine ⟨Datum.namesAlike_of_items? hd hd' hnames, ?_, fun depth => ?_⟩
  · rw [hd, hd']
    exact .some hnames
  · rcases depth with _ | depth
    · rw [ofDatum, ofDatum]
      exact .refl _
    · rw [ofDatum_of_items? hd, ofDatum_of_items? hd']
      exact hform depth

/-- The keyword of a conditional may be spelled either way. -/
theorem ofForm_of_isKeyword {head head' : Datum} (hif : head.isKeyword "if" = true)
    (hif' : head'.isKeyword "if" = true) (rest : List Datum) (depth : Nat) :
    ofForm depth (head :: rest) = ofForm depth (head' :: rest) := by
  rcases depth with _ | depth
  · rw [ofForm, ofForm]
  · unfold ofForm
    rw [if_pos hif, if_pos hif']

theorem ofForm_function {head arrow : Datum} {ps : List Datum} (hhead : items? head = some ps)
    (harrow : arrow.isKeyword "=>" = true) (body : Datum) (depth : Nat) :
    ofForm (depth + 1) [head, arrow, body] = (do
      let names ← params ps
      let e ← ofDatum depth body
      pure (.lambda names e)) :=
  ofForm_lambda depth (isKeyword_of_items? hhead "if")
    (functionForm?_eq_some_iff.mpr ⟨head, arrow, rfl, hhead, harrow⟩)

/-- The keyword of a function may be spelled either way, and so may each of its parameters. -/
theorem sameKind_ofForm_lambda {head head' arrow arrow' : Datum} {ps ps' : List Datum}
    (hhead : items? head = some ps) (hhead' : items? head' = some ps')
    (harrow : arrow.isKeyword "=>" = true) (harrow' : arrow'.isKeyword "=>" = true)
    (hps : List.Forall₂ NamesAlike ps ps') (body : Datum) (depth : Nat) :
    SameKind (ofForm depth [head, arrow, body]) (ofForm depth [head', arrow', body]) := by
  rcases depth with _ | depth
  · rw [ofForm, ofForm]
    exact .refl _
  · rw [ofForm_function hhead harrow, ofForm_function hhead' harrow']
    exact (sameKind_paramsFrom hps []).bind fun _ => .refl _

/-- A relation between two items relates the lists that differ in them only. -/
theorem forall₂_of_item {R : Datum → Datum → Prop} (hrefl : ∀ d, R d d) {e e' : Datum}
    (h : R e e') (before after : List Datum) :
    List.Forall₂ R (before ++ e :: after) (before ++ e' :: after) :=
  List.rel_append (List.forall₂_same.mpr fun d _ => hrefl d)
    (.cons h (List.forall₂_same.mpr fun d _ => hrefl d))

theorem Datum.Respelled.synonymous {d d' : Datum} (h : Respelled d d') : Synonymous d d' := by
  induction h with
  | sequence hd hd' =>
    exact synonymous_of_items? hd hd' (forall₂_namesAlike_refl _) fun depth => .refl _
  | cond hd hd' hif hif' =>
    refine synonymous_of_items? hd hd' ?_ fun depth => ?_
    · exact .cons (namesAlike_of_isKeyword hif hif') (forall₂_namesAlike_refl _)
    · rw [ofForm_of_isKeyword hif hif']
      exact .refl _
  | arrow hd hd' hhead harrow harrow' =>
    refine synonymous_of_items? hd hd' ?_
      (sameKind_ofForm_lambda hhead hhead harrow harrow' (forall₂_namesAlike_refl _) _)
    exact .cons (.refl _) (.cons (namesAlike_of_isKeyword harrow harrow') (.cons (.refl _) .nil))
  | @param d d' head head' arrow body p p' before after name hd hd' hhead hhead' harrow hp hp' =>
    have hps : List.Forall₂ NamesAlike (before ++ p :: after) (before ++ p' :: after) :=
      forall₂_of_item .refl (namesAlike_of_isKeyword hp hp') before after
    refine synonymous_of_items? hd hd' ?_
      (sameKind_ofForm_lambda hhead hhead' harrow harrow hps body)
    exact .cons (namesAlike_of_items? hhead hhead' hps) (forall₂_namesAlike_refl _)
  | @item d d' e e' before after hd hd' _ ih =>
    have hitems := forall₂_of_item Synonymous.refl ih before after
    exact synonymous_of_items? hd hd' (hitems.imp fun _ _ h => h.names) (sameKind_ofForm hitems)
  | @field name e e' before after _ ih =>
    refine ⟨⟨fun _ => rfl, ?_⟩, .none, fun depth => ?_⟩
    · rw [decimalsFit, decimalsFit, fieldDecimalsFit_eq ih.names]
    · rcases depth with _ | depth
      · rw [ofDatum, ofDatum]
        exact .refl _
      · exact .refl _

/-! ## Parsing does not depend on the spelling -/

/-- Data that differ in their spelling only, in any number of places, parse to equal expressions or
    fail with faults of one class. And of the names of a function, however each of them is spelled,
    the first that was there before is refused. -/
theorem ofDatum_of_respelled (depth : Nat) :
    (∀ d d', Relation.ReflTransGen Respelled d d' →
      SameKind (ofDatum depth d) (ofDatum depth d')) ∧
    (∀ d head arrow body ps names, items? d = some [head, arrow, body] →
      items? head = some ps → arrow.isKeyword "=>" = true →
      List.Forall₂ (fun p x => p.isKeyword x.name = true) ps names → ¬names.Nodup →
      ∃ before x after, names = before ++ x :: after ∧ before.Nodup ∧ x ∈ before ∧
        ofDatum (depth + 2) d = .error (.repeatedParameter x)) := by
  refine ⟨fun d d' h => ?_, fun d head arrow body ps names hd hhead harrow hps hdup => ?_⟩
  · induction h with
    | refl => exact .refl _
    | tail _ hstep ih => exact ih.trans (hstep.synonymous.parses depth)
  · obtain ⟨before, x, after, hnames, hbefore, hx, herror⟩ :=
      paramsFrom_of_repeated hps List.nodup_nil hdup
    refine ⟨before, x, after, hnames, hbefore, hx, ?_⟩
    rw [ofDatum_of_items? hd, ofForm_function hhead harrow, params, herror]
    rfl

/-- A conditional and a function made up of lists, tuples, texts and symbols, against one that is
    made up of the others; and a function whose parameter is there as a text and as a symbol. -/
theorem ofDatum_of_respelled_mixed :
    let d : Datum := .list [.sym ⟨"if"⟩, .list [.tuple [.str "x"], .sym ⟨"=>"⟩, .str "x"], .int 1,
      .str "if"]
    let d' : Datum := .list [.str "if", .tuple [.tuple [.sym ⟨"x"⟩], .str "=>", .str "x"], .int 1,
      .str "if"]
    let twice : Datum := .tuple [.list [.str "x", .sym ⟨"x"⟩], .str "=>", .int 1]
    SameKind (ofDatum 9 d) (ofDatum 9 d') ∧
      ∃ before x after, [(⟨"x"⟩ : Symbol), ⟨"x"⟩] = before ++ x :: after ∧ before.Nodup ∧
        x ∈ before ∧ ofDatum (9 + 2) twice = .error (.repeatedParameter x) := by
  intro d d' twice
  obtain ⟨halike, hrepeated⟩ := ofDatum_of_respelled 9
  refine ⟨halike d d' ?_, hrepeated twice _ _ _ _ _ rfl rfl rfl
    (.cons rfl (.cons rfl .nil)) (by decide)⟩
  -- The keyword of the conditional, then the parameter, then the keyword of the function with the
  -- brackets around it.
  let f (p arrow : Datum) : Datum := .list [.tuple [p], arrow, .str "x"]
  let around (e : Datum) : Datum := .list [.str "if", e, .int 1, .str "if"]
  have hitem {e e' : Datum} (h : Respelled e e') : Respelled (around e) (around e') :=
    @Respelled.item _ _ e e' [.str "if"] [.int 1, .str "if"] rfl rfl h
  have hif : Respelled d (around (f (.str "x") (.sym ⟨"=>"⟩))) := .cond rfl rfl rfl rfl
  have hparam : Respelled (f (.str "x") (.sym ⟨"=>"⟩)) (f (.sym ⟨"x"⟩) (.sym ⟨"=>"⟩)) :=
    @Respelled.param _ _ _ _ _ _ _ _ [] [] "x" rfl rfl rfl rfl rfl rfl rfl
  have harrow : Respelled (f (.sym ⟨"x"⟩) (.sym ⟨"=>"⟩))
      (.tuple [.tuple [.sym ⟨"x"⟩], .str "=>", .str "x"]) :=
    .arrow rfl rfl rfl rfl rfl
  exact .tail (.tail (.single hif) (hitem hparam)) (hitem harrow)

end MiniLisp
