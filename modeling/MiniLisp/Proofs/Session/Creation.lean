/-
  MiniLisp.Proofs.Session.Creation

  Only closures that were created are entered. `Value.MadeIn past v` says that
  the closures in a value, captured ones included, were all created by events of
  the past, and `Event.Follows past ev` that an event can take place behind them.

  What a program does depends on its past, so the property of runs that is
  carried through evaluation has the past in it: `Run.Continues past good r` says
  that every event of `r` follows from those before it, and that the result is
  good in view of all of them. Evaluation continues any past that made the values
  in its environment (`continues`). The top level binds no closures, so each form
  continues the empty past, and the closures that it enters are its own
  (`justified_runForms`).
-/
import MiniLisp.Proofs.Primitive.Result
import MiniLisp.Proofs.Reader.Grammar
import MiniLisp.Proofs.Session.TopLevel

namespace MiniLisp

/-! ## Values with a past -/

/-- The closures in the value were created in the past. -/
inductive Value.MadeIn (past : List Event) : Value → Prop
  | other {v : Value} (h : ∀ params body env, v ≠ .closure params body env) : MadeIn past v
  | closure {params : List Symbol} {body : Expr} {env : Env}
      (h : .created params body env ∈ past) (henv : ∀ f ∈ env, ∀ b ∈ f, MadeIn past b.2) :
      MadeIn past (.closure params body env)

theorem Value.MadeIn.mono {past now : List Event} (hnow : past ⊆ now) {v : Value}
    (h : v.MadeIn past) : v.MadeIn now := by
  induction h with
  | other h => exact .other h
  | closure h _ ih => exact .closure (hnow h) ih

theorem Value.madeIn_of_isScalar {past : List Event} (v : Value) (h : v.isScalar = true) :
    v.MadeIn past :=
  Value.of_isScalar (fun _ => .other nofun) (fun _ => .other nofun) (fun _ => .other nofun) v h

theorem Env.holds_madeIn_mono {past now : List Event} (hnow : past ⊆ now) {env : Env}
    (h : Holds (Value.MadeIn past) env) : Holds (Value.MadeIn now) env :=
  fun f hf b hb => (h f hf b hb).mono hnow

/-- The event can take place behind those of the past: only a closure that was created is entered.
    The result of a form is no event of its evaluation. -/
def Event.Follows (past : List Event) : Event → Prop
  | .entered params _ => ∃ body env, .created params body env ∈ past
  | .finished _ => False
  | .printed _ | .created _ _ _ | .operated _ _ => True

/-- A member of two lists in a row is in the second list, behind all of the first, or in the
    first. -/
theorem cases_of_append_eq {es fs before after : List Event} {ev : Event}
    (h : es ++ fs = before ++ ev :: after) :
    (∃ front, before = es ++ front ∧ fs = front ++ ev :: after) ∨
      ∃ rest, es = before ++ ev :: rest := by
  rcases List.append_eq_append_iff.mp h with hsecond | ⟨back, rfl, hback⟩
  · exact .inl hsecond
  · rcases List.append_eq_cons_iff.mp hback.symm with ⟨rfl, rfl⟩ | ⟨rest, rfl, -⟩
    · -- the member is the first of the second list
      exact .inl ⟨[], by simp, rfl⟩
    · exact .inr ⟨rest, rfl⟩

/-! ## Runs with a past -/

namespace Run

variable {α β : Type} {past : List Event} {good : List Event → α → Prop}

/-- Every event follows from the past and from the events before it, and the result is `good` in
    view of all of them. -/
def Continues (past : List Event) (good : List Event → α → Prop) (r : Run α) : Prop :=
  (∀ before ev after, r.events = before ++ ev :: after → ev.Follows (past ++ before)) ∧
    ∀ a, r.outcome = .ok a → good (past ++ r.events) a

namespace Continues

theorem of_no_events {r : Run α} (hevents : r.events = [])
    (h : ∀ a, r.outcome = .ok a → good past a) : r.Continues past good := by
  refine ⟨?_, ?_⟩
  · intro before ev after hsplit
    rw [hevents] at hsplit
    simp at hsplit
  · rw [hevents, List.append_nil]
    exact h

theorem pure {a : α} (h : good past a) : (Pure.pure a : Run α).Continues past good :=
  of_no_events rfl fun _ ha => Except.ok.inj ha ▸ h

theorem fail (fault : Fault) : (Run.fail fault : Run α).Continues past good :=
  of_no_events rfl nofun

theorem emit {ev : Event} (h : ev.Follows past) :
    (Run.emit ev).Continues past fun now _ => now = past ++ [ev] := by
  refine ⟨?_, fun _ _ => rfl⟩
  intro before ev' after hsplit
  rcases List.append_eq_cons_iff.mp hsplit.symm with ⟨rfl, hsplit⟩ | ⟨rest, -, hsplit⟩
  · cases hsplit
    rwa [List.append_nil]
  · simp at hsplit

/-- The second of two runs has the first one in its past. -/
theorem bind {good' : List Event → β → Prop} {r : Run α} {next : α → Run β}
    (h : r.Continues past good)
    (hnext : ∀ now a, past ⊆ now → good now a → (next a).Continues now good') :
    (r >>= next).Continues past good' := by
  obtain ⟨events, fault | a⟩ := r
  · exact ⟨h.1, nofun⟩
  · obtain ⟨hevents, ha⟩ := h
    obtain ⟨hmore, hresult⟩ := hnext _ a (List.subset_append_left past events) (ha a rfl)
    refine ⟨?_, ?_⟩
    · intro before ev after hsplit
      rcases cases_of_append_eq hsplit with ⟨front, rfl, hfront⟩ | ⟨rest, hrest⟩
      · rw [← List.append_assoc]
        exact hmore front ev after hfront
      · exact hevents before ev rest hrest
    · intro b hb
      rw [bind_ok, ← List.append_assoc]
      exact hresult b hb

theorem mapM {f : β → Run Value} {xs : List β}
    (h : ∀ x ∈ xs, ∀ now, past ⊆ now → (f x).Continues now Value.MadeIn) :
    (xs.mapM f).Continues past fun now vs => ∀ v ∈ vs, v.MadeIn now := by
  induction xs generalizing past with
  | nil =>
    rw [List.mapM_nil]
    exact .pure nofun
  | cons x xs ih =>
    rw [List.mapM_cons]
    refine (h x List.mem_cons_self past (List.Subset.refl past)).bind fun now v hnow hv => ?_
    have hrest : ∀ y ∈ xs, ∀ later, now ⊆ later → (f y).Continues later Value.MadeIn :=
      fun y hy later hlater => h y (List.mem_cons_of_mem x hy) later (List.Subset.trans hnow hlater)
    refine (ih hrest).bind fun later vs hlater hvs => ?_
    exact .pure (List.forall_mem_cons.mpr ⟨hv.mono hlater, hvs⟩)

end Continues

end Run

/-! ## Evaluation -/

theorem Primitive.continues_applySymbol {past : List Event} {depth : Nat} (op : Symbol)
    {args : List Value} (h : ∀ v ∈ args, v.MadeIn past) :
    (applySymbol depth op args).Continues past Value.MadeIn := by
  have hdisplay (v : Value) : Ends (fun _ => True) (fun _ => True) v.display := by
    cases v.display with
    | ok _ => exact .ok trivial
    | error _ => exact .error trivial
  -- whatever the past is, an operation may be applied and a line printed
  obtain ⟨hevents, hends⟩ : (applySymbol depth op args).Keeps (fun ev => ∀ now, ev.Follows now)
      (Value.MadeIn past) fun _ => True :=
    keeps_applySymbol_of (fun p _ => keeps_apply_of (fun _ => trivial) (fun _ _ => trivial)
      (ends_compute_of depth p Value.madeIn_of_isScalar h (fun _ _ => trivial) fun v _ =>
        hdisplay v)) trivial
  refine ⟨?_, ?_⟩
  · intro before ev after hsplit
    exact hevents ev (hsplit ▸ List.mem_append_right _ List.mem_cons_self) _
  · intro v hv
    exact (hends.good_of_eq_ok hv).mono (List.subset_append_left past _)

/-- One activation continues the past if those with less depth do. -/
theorem continues_eval_succ {depth : Nat}
    (ihEval : ∀ past e env, Env.Holds (Value.MadeIn past) env →
      (eval depth e env).Continues past Value.MadeIn)
    (ihArgs : ∀ past es env, Env.Holds (Value.MadeIn past) env →
      (evalArgs depth es env).Continues past fun now vs => ∀ v ∈ vs, v.MadeIn now)
    (ihApply : ∀ past f vs, f.MadeIn past → (∀ v ∈ vs, v.MadeIn past) →
      (apply depth f vs).Continues past Value.MadeIn)
    {past : List Event} (e : Expr) {env : Env} (henv : Env.Holds (Value.MadeIn past) env) :
    (eval (depth + 1) e env).Continues past Value.MadeIn := by
  cases e with
  | num _ | str _ | bool _ => exact .pure (.other nofun)
  | ident x =>
    refine .of_no_events rfl fun v hv => ?_
    exact Env.good_of_find? henv (Env.lookup_eq_ok_iff.mp hv)
  | cond test yes no =>
    refine (ihEval past test env henv).bind fun now v hnow _ => ?_
    have henv' := Env.holds_madeIn_mono hnow henv
    split
    · exact ihEval now yes env henv'
    · exact ihEval now no env henv'
    · exact .fail _
  | lambda params body =>
    have hfollows : (Event.created params body env).Follows past := trivial
    refine (Run.Continues.emit hfollows).bind fun now _ hnow hpast => .pure ?_
    -- the closure has just been created
    refine .closure ?_ (Env.holds_madeIn_mono hnow henv)
    rw [hpast]
    exact List.mem_append_right past List.mem_cons_self
  | apply callee args =>
    refine (ihEval past callee env henv).bind fun now f hnow hf => ?_
    have henv' := Env.holds_madeIn_mono hnow henv
    refine (ihArgs now args env henv').bind fun later vs hlater hvs => ?_
    exact ihApply later f vs (hf.mono hlater) hvs
  | foreign d =>
    rw [eval_foreign]
    split
    · exact .fail _
    · exact .fail _

/-- A closure with a past was created in it, so it may be entered. -/
theorem continues_apply_succ {depth : Nat}
    (ihEval : ∀ past e env, Env.Holds (Value.MadeIn past) env →
      (eval depth e env).Continues past Value.MadeIn)
    {past : List Event} {f : Value} {vs : List Value} (hf : f.MadeIn past)
    (hvs : ∀ v ∈ vs, v.MadeIn past) : (apply (depth + 1) f vs).Continues past Value.MadeIn := by
  cases f with
  | prim op => exact Primitive.continues_applySymbol op hvs
  | closure params body env =>
    rw [apply_closure]
    cases hf with
    | other h => exact absurd rfl (h params body env)
    | closure hcreated henv =>
      by_cases hlen : params.length = vs.length
      · have hfollows : (Event.entered params vs).Follows past := ⟨body, env, hcreated⟩
        simp only [if_pos hlen, Env.extend]
        refine (Run.Continues.emit hfollows).bind fun now _ hnow _ => ?_
        exact ihEval now body _ (Env.holds_bind (Env.holds_madeIn_mono hnow henv) params
          fun v hv => (hvs v hv).mono hnow)
      · rw [if_neg hlen]
        exact .fail _
  | num _ | str _ | bool _ | failure | foreign _ => exact .fail _

/-- Evaluation and application continue any past that made the values they start from. -/
theorem continues (depth : Nat) :
    (∀ past e env, Env.Holds (Value.MadeIn past) env →
      (eval depth e env).Continues past Value.MadeIn) ∧
    (∀ past es env, Env.Holds (Value.MadeIn past) env →
      (evalArgs depth es env).Continues past fun now vs => ∀ v ∈ vs, v.MadeIn now) ∧
    (∀ past f vs, f.MadeIn past → (∀ v ∈ vs, v.MadeIn past) →
      (apply depth f vs).Continues past Value.MadeIn) := by
  induction depth with
  | zero => exact ⟨fun _ _ _ _ => .fail _, fun _ _ _ _ => .fail _, fun _ _ _ _ _ => .fail _⟩
  | succ depth ih =>
    obtain ⟨ihEval, ihArgs, ihApply⟩ := ih
    refine ⟨?_, ?_, ?_⟩
    · intro past e env henv
      exact continues_eval_succ ihEval ihArgs ihApply e henv
    · intro past es env henv
      exact .mapM fun e _ now hnow => ihEval now e env (Env.holds_madeIn_mono hnow henv)
    · intro past f vs hf hvs
      exact continues_apply_succ ihEval hf hvs

/-! ## Forms -/

/-- A form has no past. -/
theorem continues_report (depth : Nat) (form : Datum) :
    (report depth form).Continues [] fun _ _ => True := by
  have htop : Env.Holds (Value.MadeIn []) topEnv :=
    holds_topEnv_of (fun _ => .other nofun) fun _ => .other nofun
  have hparse : (Run.ofExcept (Expr.ofDatum depth form)).Continues [] fun _ _ => True :=
    .of_no_events rfl fun _ _ => trivial
  have hinterpret : (interpret depth form).Continues [] Value.MadeIn :=
    hparse.bind fun now e hnow _ =>
      (continues depth).1 now e topEnv (Env.holds_madeIn_mono hnow htop)
  exact hinterpret.bind fun _ _ _ _ => .of_no_events rfl fun _ _ => trivial

/-- Each closure that is entered was created before, and no form had a result in between. -/
def Justified (events : List Event) : Prop :=
  ∀ before params args after, events = before ++ .entered params args :: after →
    ∃ earlier body env later, before = earlier ++ .created params body env :: later ∧
      ∀ result, .finished result ∉ later

theorem Run.Continues.justified {α : Type} {good : List Event → α → Prop} {r : Run α}
    (h : r.Continues [] good) : Justified r.events := by
  intro before params args after hsplit
  obtain ⟨body, env, hcreated⟩ := h.1 before _ after hsplit
  obtain ⟨earlier, later, rfl⟩ := List.append_of_mem hcreated
  refine ⟨earlier, body, env, later, rfl, ?_⟩
  -- no event of the run is a result, as it would not follow from anything
  intro result hresult
  have hmem : .finished result ∈ r.events := by
    rw [hsplit]
    exact List.mem_append_left _ (List.mem_append_right _ (List.mem_cons_of_mem _ hresult))
  obtain ⟨front, back, hfront⟩ := List.append_of_mem hmem
  exact h.1 front _ back hfront

namespace Justified

theorem of_forall {events : List Event} (h : ∀ params args, .entered params args ∉ events) :
    Justified events := by
  rintro before params args after rfl
  exact absurd (List.mem_append_right before List.mem_cons_self) (h params args)

theorem append {es fs : List Event} (hes : Justified es) (hfs : Justified fs) :
    Justified (es ++ fs) := by
  intro before params args after hsplit
  rcases cases_of_append_eq hsplit with ⟨front, rfl, hfront⟩ | ⟨rest, hrest⟩
  · obtain ⟨earlier, body, env, later, rfl, hlater⟩ := hfs front params args after hfront
    exact ⟨es ++ earlier, body, env, later, (List.append_assoc ..).symm, hlater⟩
  · exact hes before params args rest hrest

theorem bind {α β : Type} {r : Run α} {next : α → Run β} (hr : Justified r.events)
    (hnext : ∀ a, Justified (next a).events) : Justified (r >>= next).events := by
  obtain ⟨events, fault | a⟩ := r
  · exact hr
  · exact hr.append (hnext a)

theorem pure {α : Type} (a : α) : Justified (Pure.pure a : Run α).events := of_forall nofun

end Justified

theorem justified_runForms (depth : Nat) (forms : List Datum) :
    Justified (runForms depth forms).events := by
  induction forms with
  | nil =>
    rw [runForms_eq, List.mapM_nil]
    exact .pure _
  | cons form forms ih =>
    have hfinished (result : Text) : Justified (Run.emit (.finished result)).events :=
      .of_forall fun _ _ h => nomatch List.mem_singleton.mp h
    rw [runForms_eq, List.mapM_cons]
    refine .bind (.bind (continues_report depth form).justified fun result => ?_) fun result => ?_
    · exact (hfinished result).bind fun _ => .pure result
    · exact ih.bind fun _ => .pure _

theorem justified_runText [Host] (depth : Nat) (source : Text) :
    Justified (runText depth source).events := by
  have hread : Justified (Run.ofExcept (read depth source)).events :=
    .of_forall fun _ _ => List.not_mem_nil
  exact hread.bind fun forms => justified_runForms depth forms

/-! ## Records -/

namespace Event

/-- The character at place 33 of the event's record, which differs from kind to kind. -/
def mark? : Event → Option CodePoint
  | .printed _ => none
  | .created _ _ _ => some 'c'
  | .entered _ _ => some 'a'
  | .operated _ _ => some 'i'
  | .finished _ => some ' '

theorem char_append {place : Nat} {c : CodePoint} {text more : Text}
    (h : text.toList[place]? = some c) :
    (text ++ more).toList[place]? = some c := by
  have hlt : place < text.toList.length := (List.getElem?_eq_some_iff.mp h).1
  rw [Text.toList_append, List.getElem?_append_left hlt, h]

theorem bind_record? (ev : Event) : (ev.record?.bind fun text => text.toList[33]?) = ev.mark? := by
  cases ev with
  | printed _ => rfl
  | created _ _ _ | entered _ _ | operated _ _ => exact char_append (char_append rfl)
  | finished _ => exact char_append rfl

/-- Events of different kinds are recorded by different texts. -/
theorem mark?_eq_of_record?_eq {ev ev' : Event} (h : ev.record? = ev'.record?) :
    ev.mark? = ev'.mark? := by
  rw [← bind_record?, h, bind_record?]

/-- Only entering a closure is recorded as its application, and it shows the parameters. -/
theorem exists_of_record?_applied {ev : Event} {shown : Text}
    (h : ev.record? = some (Record.applied shown)) :
    ∃ params args, ev = .entered params args ∧ Symbol.spaced params = shown := by
  -- a closure whose only parameter has that name would be recorded in the same way
  have hmark := @mark?_eq_of_record?_eq ev (.entered [⟨shown⟩] []) h
  cases ev with
  | entered params args =>
    have htexts := (Text.append_left_inj _).mp (Option.some.inj h)
    exact ⟨params, args, rfl, (Text.append_right_inj _).mp htexts⟩
  | printed _ | created _ _ _ | operated _ _ | finished _ => simp [mark?] at hmark

/-- Only the result of a form is recorded as such. -/
theorem exists_of_record?_result {ev : Event} {text : Text}
    (h : ev.record? = some (Record.result text)) : ∃ result, ev = .finished result := by
  have hmark := @mark?_eq_of_record?_eq ev (.finished text) h
  cases ev with
  | finished result => exact ⟨result, rfl⟩
  | printed _ | created _ _ _ | entered _ _ | operated _ _ => simp [mark?] at hmark

end Event

/-- What is so of the events shows in the records. -/
theorem Justified.records {α : Type} {r : Run α} (h : Justified r.events)
    {before after : List Text} {shown : Text}
    (hsplit : r.records = before ++ Record.applied shown :: after) :
    ∃ earlier later, before = earlier ++ Record.created shown :: later ∧
      ∀ text, Record.result text ∉ later := by
  obtain ⟨front, back, hevents, rfl, hback⟩ := List.filterMap_eq_append_iff.mp hsplit
  obtain ⟨silent, ev, rest, rfl, hsilent, hev, -⟩ := List.filterMap_eq_cons_iff.mp hback
  obtain ⟨params, args, rfl, rfl⟩ := Event.exists_of_record?_applied hev
  rw [← List.append_assoc] at hevents
  obtain ⟨earlier, body, env, later, hbefore, hlater⟩ :=
    h (front ++ silent) params args rest hevents
  refine ⟨earlier.filterMap Event.record?, later.filterMap Event.record?, ?_, ?_⟩
  · -- the printed lines between the two events leave no record
    have hfront : (front ++ silent).filterMap Event.record? = front.filterMap Event.record? := by
      rw [List.filterMap_append, List.filterMap_eq_nil_iff.mpr hsilent, List.append_nil]
    rw [← hfront, hbefore, List.filterMap_append]
    rfl
  · intro text htext
    obtain ⟨ev, hmem, hrecord⟩ := List.mem_filterMap.mp htext
    obtain ⟨result, rfl⟩ := Event.exists_of_record?_result hrecord
    exact hlater result hmem

/-- **Only closures made by the same form are entered.** While a text is run, each closure that is
    entered was created before, and no form had its result in between, so it is the same form that
    created it. The records show it: a record that a closure with certain parameters is applied has
    a record of the creation of such a closure before it, without the result of a form in between.
    This is so whether or not the form, and the text, has a result in the end. -/
theorem entered_closures_were_created [Host] (depth : Nat) (source : Text) :
    (∀ before params args after,
      (runText depth source).events = before ++ .entered params args :: after →
        ∃ earlier body env later, before = earlier ++ .created params body env :: later ∧
          ∀ result, .finished result ∉ later) ∧
    ∀ (before after : List Text) (shown : Text),
      (runText depth source).records = before ++ Record.applied shown :: after →
        ∃ earlier later, before = earlier ++ Record.created shown :: later ∧
          ∀ text, Record.result text ∉ later :=
  ⟨justified_runText depth source, fun _ _ _ h => (justified_runText depth source).records h⟩

/-- A form that has a result, and one that enters a closure and then divides by zero. -/
theorem entered_closures_were_created_failing :
    letI := Host.bare
    (runText 20 "true ([(x y) => (/ x y)] 2 0)").outcome = .error .zeroDivision ∧
      (runText 20 "true ([(x y) => (/ x y)] 2 0)").records =
        [Record.result "true", Record.created "x y"] ++ Record.applied "x y" ::
          ["DEBUG aaqz.builtin.primitives: primitive / applied to 2 argument(s)"] ∧
      ∃ earlier later, [Record.result "true", Record.created "x y"] =
          earlier ++ Record.created "x y" :: later ∧ ∀ text, Record.result text ∉ later := by
  let _ := Host.bare
  have hlex : lex "true ([(x y) => (/ x y)] 2 0)" =
      ⟨[⟨.word, "true"⟩, ⟨.opener, "("⟩, ⟨.opener, "["⟩, ⟨.opener, "("⟩, ⟨.word, "x"⟩, ⟨.word, "y"⟩,
        ⟨.closer, ")"⟩, ⟨.word, "=>"⟩, ⟨.opener, "("⟩, ⟨.word, "/"⟩, ⟨.word, "x"⟩, ⟨.word, "y"⟩,
        ⟨.closer, ")"⟩, ⟨.closer, "]"⟩, ⟨.word, "2"⟩, ⟨.word, "0"⟩, ⟨.closer, ")"⟩], none⟩ := by
    decide +kernel
  have hread : read 20 "true ([(x y) => (/ x y)] 2 0)" =
      .ok [.sym ⟨"true"⟩, .list [.list [.list [.sym ⟨"x"⟩, .sym ⟨"y"⟩], .sym ⟨"=>"⟩,
        .list [.sym ⟨"/"⟩, .sym ⟨"x"⟩, .sym ⟨"y"⟩]], .int 2, .int 0]] := by
    rw [read_eq, hlex]
    cbv
  have hrun : runText 20 "true ([(x y) => (/ x y)] 2 0)" =
      runForms 20 [.sym ⟨"true"⟩, .list [.list [.list [.sym ⟨"x"⟩, .sym ⟨"y"⟩], .sym ⟨"=>"⟩,
        .list [.sym ⟨"/"⟩, .sym ⟨"x"⟩, .sym ⟨"y"⟩]], .int 2, .int 0]] := by
    rw [runText_eq, hread]
    rfl
  have hrecords : (runText 20 "true ([(x y) => (/ x y)] 2 0)").records =
      [Record.result "true", Record.created "x y"] ++ Record.applied "x y" ::
        ["DEBUG aaqz.builtin.primitives: primitive / applied to 2 argument(s)"] := by
    rw [hrun]
    rfl
  exact ⟨by rw [hrun]; rfl, hrecords, (entered_closures_were_created 20 _).2 _ _ "x y" hrecords⟩

end MiniLisp
