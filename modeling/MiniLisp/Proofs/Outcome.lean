/-
  MiniLisp.Proofs.Outcome

  How computations end. `Ends good allowed r` says that a result of `r` is
  `good` and that a fault of `r` is `allowed`. It is carried through `bind` and
  `mapM`, so that a property of a whole computation follows from the same
  property of its steps, faults included.

  `Run.Keeps` says the same of a run, and of its events. A result that needs a
  certain number of nested activations is written by `within`.

  `Alike same r r'` compares two computations: they have results that are the
  `same`, or stop at one and the same fault. `Run.Alike` compares two runs, event
  by event.
-/
import MiniLisp.Run
import Mathlib.Data.List.Forall2

namespace MiniLisp

variable {α β : Type}

/-- A result satisfies `good`, and a fault satisfies `allowed`. -/
inductive Ends (good : α → Prop) (allowed : Fault → Prop) : Except Fault α → Prop
  | ok {a : α} (h : good a) : Ends good allowed (.ok a)
  | error {fault : Fault} (h : allowed fault) : Ends good allowed (.error fault)

/-! ## Computations with a result or a fault -/

/-- What a computation in two steps has for a result comes from a result of the first step. -/
theorem exists_of_bind_eq_ok {x : Except Fault α} {f : α → Except Fault β} {b : β}
    (h : x >>= f = .ok b) : ∃ a, x = .ok a ∧ f a = .ok b := by
  cases x with
  | error fault => cases h
  | ok a => exact ⟨a, rfl, h⟩

/-- The results of a computation on each member of a list are results on those members. -/
theorem exists_of_mapM_eq_ok {f : α → Except Fault β} {xs : List α} {ys : List β}
    (h : xs.mapM f = .ok ys) :
    ∃ ps : List (α × β), xs = ps.map Prod.fst ∧ ys = ps.map Prod.snd ∧
      ∀ p ∈ ps, f p.1 = .ok p.2 := by
  induction xs generalizing ys with
  | nil =>
    rw [List.mapM_nil] at h
    cases h
    exact ⟨[], rfl, rfl, by simp⟩
  | cons x xs ih =>
    rw [List.mapM_cons] at h
    obtain ⟨y, hy, h⟩ := exists_of_bind_eq_ok h
    obtain ⟨zs, hzs, h⟩ := exists_of_bind_eq_ok h
    cases h
    obtain ⟨ps, rfl, rfl, hps⟩ := ih hzs
    exact ⟨(x, y) :: ps, rfl, rfl, List.forall_mem_cons.mpr ⟨hy, hps⟩⟩

/-- A computation in two steps stops in the first step, or in the second behind a result of the
    first. -/
theorem cases_of_bind_eq_error {x : Except Fault α} {f : α → Except Fault β} {fault : Fault}
    (h : x >>= f = .error fault) : x = .error fault ∨ ∃ a, x = .ok a ∧ f a = .error fault := by
  cases x with
  | error fault' => cases h; exact .inl rfl
  | ok a => exact .inr ⟨a, rfl, h⟩

/-- A computation that takes the members of a list one after the other stops at one of them, when
    it has taken those before it. -/
theorem exists_of_foldlM_eq_error {f : β → α → Except Fault β} {xs : List α} {b : β}
    {fault : Fault} (h : xs.foldlM f b = .error fault) :
    ∃ front x back b', xs = front ++ x :: back ∧ front.foldlM f b = .ok b' ∧
      f b' x = .error fault := by
  induction xs generalizing b with
  | nil => cases h
  | cons x xs ih =>
    rw [List.foldlM_cons] at h
    obtain hx | ⟨b₁, hx, hxs⟩ := cases_of_bind_eq_error h
    · exact ⟨[], x, xs, b, rfl, rfl, hx⟩
    · obtain ⟨front, y, back, b', rfl, hfront, hy⟩ := ih hxs
      refine ⟨x :: front, y, back, b', rfl, ?_, hy⟩
      rw [List.foldlM_cons, hx]
      exact hfront

namespace Ends

variable {good : α → Prop} {allowed : Fault → Prop}

theorem good_of_eq_ok {r : Except Fault α} {a : α} (h : Ends good allowed r) (hr : r = .ok a) :
    good a := by
  cases h with
  | ok h => cases hr; exact h
  | error _ => cases hr

theorem allowed_of_eq_error {r : Except Fault α} {fault : Fault} (h : Ends good allowed r)
    (hr : r = .error fault) : allowed fault := by
  cases h with
  | ok _ => cases hr
  | error h => cases hr; exact h

theorem mono {good' : α → Prop} {allowed' : Fault → Prop} {r : Except Fault α}
    (h : Ends good allowed r) (hgood : ∀ a, good a → good' a)
    (hallowed : ∀ fault, allowed fault → allowed' fault) : Ends good' allowed' r := by
  cases h with
  | ok h => exact .ok (hgood _ h)
  | error h => exact .error (hallowed _ h)

theorem ite {c : Prop} [Decidable c] {r s : Except Fault α} (hr : Ends good allowed r)
    (hs : Ends good allowed s) : Ends good allowed (if c then r else s) := by
  by_cases h : c
  · rw [if_pos h]
    exact hr
  · rw [if_neg h]
    exact hs

theorem bind {good' : β → Prop} {r : Except Fault α} {f : α → Except Fault β}
    (h : Ends good allowed r) (hf : ∀ a, good a → Ends good' allowed (f a)) :
    Ends good' allowed (r >>= f) := by
  cases h with
  | ok h => exact hf _ h
  | error h => exact .error h

theorem mapM {good' : β → Prop} {f : α → Except Fault β} {xs : List α}
    (h : ∀ x ∈ xs, Ends good' allowed (f x)) :
    Ends (fun ys => ∀ y ∈ ys, good' y) allowed (xs.mapM f) := by
  induction xs with
  | nil =>
    rw [List.mapM_nil]
    exact .ok fun y hy => absurd hy List.not_mem_nil
  | cons x xs ih =>
    rw [List.mapM_cons]
    refine (h x List.mem_cons_self).bind fun y hy => ?_
    refine (ih fun z hz => h z (List.mem_cons_of_mem x hz)).bind fun ys hys => ?_
    exact .ok (List.forall_mem_cons.mpr ⟨hy, hys⟩)

end Ends

/-! ## Results that take a certain depth -/

/-- A result that takes `need` nested activations, of which `depth` are allowed. -/
def within (need depth : Nat) (a : α) : Except Fault α :=
  if need ≤ depth then .ok a else .error .tooDeep

/-- One more activation, of one more allowed. -/
theorem within_succ (need depth : Nat) (a : α) :
    within (need + 1) (depth + 1) a = within need depth a := by
  rw [within, within]
  simp

theorem within_eq_ok_iff {need depth : Nat} {a b : α} :
    within need depth a = .ok b ↔ need ≤ depth ∧ a = b := by
  unfold within
  split
  · rename_i h
    simp [h]
  · rename_i h
    simp [h]

/-- Two steps take as many activations as the one that takes more. -/
theorem within_bind {need need' depth : Nat} {a : α} {b : β} {f : α → Except Fault β}
    (hf : f a = within need' depth b) :
    (within need depth a >>= f) = within (max need need') depth b := by
  by_cases h : need ≤ depth
  · have ha : within need depth a = .ok a := if_pos h
    rw [ha]
    show f a = _
    rw [hf, within, within]
    simp only [Nat.max_le, h, true_and]
  · have ha : within need depth a = .error .tooDeep := if_neg h
    have hb : within (max need need') depth b = .error .tooDeep :=
      if_neg fun h' => h (Nat.le_trans (Nat.le_max_left need need') h')
    rw [ha, hb]
    rfl

/-- What is done with a result takes no activation. -/
theorem within_bind_pure (need depth : Nat) (a : α) (g : α → β) :
    (within need depth a >>= fun x => pure (g x)) = within need depth (g a) := by
  unfold within
  split
  · rfl
  · rfl

/-! ## Runs -/

namespace Run

/-- One run after another ends as their outcomes do, one after the other. -/
theorem outcome_bind (r : Run α) (next : α → Run β) :
    (r >>= next).outcome = r.outcome >>= fun a => (next a).outcome := by
  rcases r with ⟨events, fault | a⟩
  · rfl
  · rfl

theorem bind_of_outcome_ok {r : Run α} {next : α → Run β} {a : α} (h : r.outcome = .ok a) :
    r >>= next = ⟨r.events ++ (next a).events, (next a).outcome⟩ := by
  obtain ⟨events, outcome⟩ := r
  obtain rfl : outcome = .ok a := h
  rfl

theorem bind_of_outcome_error {r : Run α} {next : α → Run β} {fault : Fault}
    (h : r.outcome = .error fault) : r >>= next = ⟨r.events, .error fault⟩ := by
  obtain ⟨events, outcome⟩ := r
  obtain rfl : outcome = .error fault := h
  rfl

/-- Only the result is changed by a function of the result. -/
theorem map_eq (f : α → β) (r : Run α) : f <$> r = ⟨r.events, r.outcome.map f⟩ := by
  rcases r with ⟨events, fault | a⟩
  · rfl
  · show Run.mk (events ++ []) (.ok (f a)) = _
    rw [List.append_nil]
    rfl

theorem outcome_mapM (f : α → Run β) (xs : List α) :
    (xs.mapM f).outcome = xs.mapM fun x => (f x).outcome := by
  induction xs with
  | nil => rfl
  | cons x xs ih =>
    rw [List.mapM_cons, List.mapM_cons, outcome_bind]
    congr 1
    funext y
    rw [outcome_bind, ih]
    rfl

/-- All events are `noted`, and the run ends in a `good` result or an `allowed` fault. -/
def Keeps (noted : Event → Prop) (good : α → Prop) (allowed : Fault → Prop) (r : Run α) : Prop :=
  (∀ ev ∈ r.events, noted ev) ∧ Ends good allowed r.outcome

namespace Keeps

variable {noted : Event → Prop} {good : α → Prop} {allowed : Fault → Prop}

theorem pure {a : α} (h : good a) : (Pure.pure a : Run α).Keeps noted good allowed :=
  ⟨fun _ hev => absurd hev List.not_mem_nil, .ok h⟩

theorem fail {fault : Fault} (h : allowed fault) :
    (Run.fail fault : Run α).Keeps noted good allowed :=
  ⟨fun _ hev => absurd hev List.not_mem_nil, .error h⟩

theorem ofExcept {r : Except Fault α} (h : Ends good allowed r) :
    (Run.ofExcept r).Keeps noted good allowed :=
  ⟨fun _ hev => absurd hev List.not_mem_nil, h⟩

theorem emit {e : Event} (h : noted e) : (Run.emit e).Keeps noted (fun _ => True) allowed :=
  ⟨fun _ hev => List.mem_singleton.mp hev ▸ h, .ok trivial⟩

theorem bind {good' : β → Prop} {r : Run α} {next : α → Run β} (h : r.Keeps noted good allowed)
    (hnext : ∀ a, good a → (next a).Keeps noted good' allowed) :
    (r >>= next).Keeps noted good' allowed := by
  rcases r with ⟨events, fault | a⟩
  · exact ⟨h.1, .error (h.2.allowed_of_eq_error rfl)⟩
  · obtain ⟨hevents, ha⟩ := h
    obtain ⟨hmore, hend⟩ := hnext a (ha.good_of_eq_ok rfl)
    refine ⟨?_, hend⟩
    intro ev hev
    rcases List.mem_append.mp hev with hev | hev
    · exact hevents ev hev
    · exact hmore ev hev

theorem mapM {good' : β → Prop} {f : α → Run β} {xs : List α}
    (h : ∀ x ∈ xs, (f x).Keeps noted good' allowed) :
    (xs.mapM f).Keeps noted (fun ys => ∀ y ∈ ys, good' y) allowed := by
  induction xs with
  | nil =>
    rw [List.mapM_nil]
    exact .pure fun y hy => absurd hy List.not_mem_nil
  | cons x xs ih =>
    rw [List.mapM_cons]
    refine (h x List.mem_cons_self).bind fun y hy => ?_
    refine (ih fun z hz => h z (List.mem_cons_of_mem x hz)).bind fun ys hys => ?_
    exact .pure (List.forall_mem_cons.mpr ⟨hy, hys⟩)

end Keeps

end Run

/-! ## Two computations side by side -/

/-- Two results are the `same`, and two faults are equal. -/
inductive Alike (same : α → β → Prop) : Except Fault α → Except Fault β → Prop
  | ok {a : α} {b : β} (h : same a b) : Alike same (.ok a) (.ok b)
  | error (fault : Fault) : Alike same (.error fault) (.error fault)

theorem Alike.mono {same same' : α → β → Prop} {r : Except Fault α} {r' : Except Fault β}
    (h : Alike same r r') (himp : ∀ a b, same a b → same' a b) : Alike same' r r' := by
  cases h with
  | ok h => exact .ok (himp _ _ h)
  | error fault => exact .error fault

theorem Alike.error_left {same : α → β → Prop} {r : Except Fault α} {r' : Except Fault β}
    {fault : Fault} (h : Alike same r r') (hr' : r' = .error fault) : r = .error fault := by
  cases h with
  | ok _ => cases hr'
  | error _ => cases hr'; rfl

/-- A computation is like itself where its results are the same as themselves. -/
theorem Alike.of_ends {good : α → Prop} {allowed : Fault → Prop} {same : α → α → Prop}
    {r : Except Fault α} (h : Ends good allowed r) (hrefl : ∀ a, good a → same a a) :
    Alike same r r := by
  cases h with
  | ok h => exact .ok (hrefl _ h)
  | error _ => exact .error _

namespace Run

/-- The events of two runs are the same one for one, and so are the ends. -/
def Alike (sameEvent : Event → Event → Prop) (same : α → β → Prop) (r : Run α) (r' : Run β) :
    Prop :=
  List.Forall₂ sameEvent r.events r'.events ∧ MiniLisp.Alike same r.outcome r'.outcome

namespace Alike

variable {sameEvent : Event → Event → Prop} {same : α → β → Prop}

theorem pure {a : α} {b : β} (h : same a b) :
    (Pure.pure a : Run α).Alike sameEvent same (Pure.pure b) := ⟨.nil, .ok h⟩

theorem fail (fault : Fault) : (Run.fail fault : Run α).Alike sameEvent same (Run.fail fault) :=
  ⟨.nil, .error fault⟩

theorem ofExcept {r : Except Fault α} {r' : Except Fault β} (h : MiniLisp.Alike same r r') :
    (Run.ofExcept r).Alike sameEvent same (Run.ofExcept r') := ⟨.nil, h⟩

theorem emit {e e' : Event} (h : sameEvent e e') :
    (Run.emit e).Alike sameEvent (fun _ _ => True) (Run.emit e') :=
  ⟨.cons h .nil, .ok trivial⟩

theorem bind {γ δ : Type} {same' : γ → δ → Prop} {r : Run α} {r' : Run β} {next : α → Run γ}
    {next' : β → Run δ} (h : r.Alike sameEvent same r')
    (hnext : ∀ a b, same a b → (next a).Alike sameEvent same' (next' b)) :
    (r >>= next).Alike sameEvent same' (r' >>= next') := by
  obtain ⟨events, outcome⟩ := r
  obtain ⟨events', outcome'⟩ := r'
  obtain ⟨hevents, hends⟩ := h
  cases hends with
  | error fault => exact ⟨hevents, .error fault⟩
  | ok hab =>
    obtain ⟨hmore, hend⟩ := hnext _ _ hab
    exact ⟨List.rel_append hevents hmore, hend⟩

theorem mapM {γ δ : Type} {f : γ → Run α} {f' : δ → Run β} {xs : List γ} {ys : List δ}
    (h : List.Forall₂ (fun x y => (f x).Alike sameEvent same (f' y)) xs ys) :
    (xs.mapM f).Alike sameEvent (List.Forall₂ same) (ys.mapM f') := by
  induction h with
  | nil =>
    rw [List.mapM_nil, List.mapM_nil]
    exact .pure .nil
  | cons hxy _ ih =>
    rw [List.mapM_cons, List.mapM_cons]
    exact hxy.bind fun a b hab => ih.bind fun as bs habs => .pure (.cons hab habs)

end Alike

/-- Events that are the same one for one print the same lines, if the same events do, and log the
    same records. -/
theorem filterMap_eq_of_forall₂ {sameEvent : Event → Event → Prop} {f : Event → Option Text}
    {events events' : List Event} (hf : ∀ ev ev', sameEvent ev ev' → f ev = f ev')
    (h : List.Forall₂ sameEvent events events') : events.filterMap f = events'.filterMap f := by
  induction h with
  | nil => rfl
  | cons hev _ ih => rw [List.filterMap_cons, List.filterMap_cons, hf _ _ hev, ih]

end Run

end MiniLisp
