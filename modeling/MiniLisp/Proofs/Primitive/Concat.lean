/-
  MiniLisp.Proofs.Primitive.Concat

  Joining values to one text. A text contributes its characters to `++`, and any
  other value what it is displayed as (`Contributes`); the values that contribute
  nothing are `Mute`. The arguments of `++` are taken in order, so either all of
  them contribute or the first mute one stops the operation (`joined_cases`).

  The text of two lists of arguments, one behind the other, is the text of the first
  and then that of the second (`joined_append`). So arguments can be joined in
  groups, and the texts of the groups joined afterwards (`joined_flatten`).
-/
import MiniLisp.Proofs.Primitive.Result
import MiniLisp.Proofs.Text.Numeral

namespace MiniLisp

/-! ## What a value contributes -/

/-- What a value is as a part of a longer text: a text is taken as it is, and anything else as it is
    displayed. -/
inductive Contributes : Value → Text → Prop
  | raw (s : Text) : Contributes (.str s) s
  | shown {v : Value} {t : Text} (hv : ∀ s, v ≠ .str s) (ht : v.display = .ok t) :
      Contributes v t

/-- The values that have no text: the mark of a failure, what is no value, and numbers of too many
    digits. -/
inductive Value.Mute : Value → Prop
  | failure : Mute .failure
  | foreign (d : Datum) : Mute (.foreign d)
  | num {n : Int} (h : Text.maxDigits < (Nat.toDigits 10 n.natAbs).length) : Mute (.num n)

namespace Primitive

theorem part_of_contributes {v : Value} {t : Text} (h : Contributes v t) : part v = .ok t := by
  cases h with
  | raw s => rfl
  | shown hv ht => rw [part_eq_display hv, ht]

/-- A mute value stops `++` at the fault of displaying it. -/
theorem part_of_mute {v : Value} (h : v.Mute) :
    ∃ fault, v.display = .error fault ∧ part v = .error fault := by
  cases h with
  | failure => exact ⟨_, rfl, rfl⟩
  | foreign d => exact ⟨_, rfl, rfl⟩
  | @num n h =>
    have hfits : ¬Text.decimalFits n = true := by
      rw [Text.Numeral.decimalFits_iff]
      omega
    have hdisplay : (Value.num n).display = .error .longDecimal := by
      rw [Value.display, decimalText, if_neg hfits]
    exact ⟨.longDecimal, hdisplay, (part_eq_display fun s h => by cases h).trans hdisplay⟩

theorem contributes_or_mute (v : Value) : (∃ t, Contributes v t) ∨ v.Mute := by
  cases v with
  | str s => exact .inl ⟨s, .raw s⟩
  | num n =>
    rcases Nat.lt_or_ge Text.maxDigits (Nat.toDigits 10 n.natAbs).length with hlong | hfits
    · exact .inr (.num hlong)
    · refine .inl ⟨Text.decimal n, .shown (fun s h => by cases h) ?_⟩
      rw [Value.display, decimalText, if_pos (Text.Numeral.decimalFits_iff.mpr hfits)]
  | bool b => exact .inl ⟨_, .shown (fun s h => by cases h) rfl⟩
  | prim op => exact .inl ⟨_, .shown (fun s h => by cases h) rfl⟩
  | closure params body env => exact .inl ⟨_, .shown (fun s h => by cases h) rfl⟩
  | failure => exact .inr .failure
  | foreign d => exact .inr (.foreign d)

theorem mute_iff {v : Value} : v.Mute ↔ ∀ t, ¬Contributes v t := by
  constructor
  · intro hmute t ht
    obtain ⟨fault, -, hpart⟩ := part_of_mute hmute
    rw [part_of_contributes ht] at hpart
    cases hpart
  · intro hnone
    rcases contributes_or_mute v with ⟨t, ht⟩ | hmute
    · exact absurd ht (hnone t)
    · exact hmute

/-! ## What a list of values contributes -/

theorem joined_append (xs ys : List Value) :
    joined (xs ++ ys) = (do
      let s ← joined xs
      let t ← joined ys
      pure (s ++ t)) := by
  rw [joined, joined, joined, List.mapM_append]
  cases xs.mapM part with
  | error fault => rfl
  | ok ss =>
    cases ys.mapM part with
    | error fault => rfl
    | ok ts => exact congrArg Except.ok (Text.join_append ss ts)

theorem joined_singleton (v : Value) : joined [v] = part v := by
  rw [joined, List.mapM_cons, List.mapM_nil]
  cases part v with
  | error fault => rfl
  | ok t =>
    have hjoin : Text.join [t] = t := by rw [Text.join_cons, Text.join_nil, Text.append_empty]
    exact congrArg Except.ok hjoin

/-- All values contribute, or the first mute one decides. -/
theorem joined_cases (vs : List Value) :
    (∃ texts, List.Forall₂ Contributes vs texts ∧ joined vs = .ok (Text.join texts)) ∨
      ∃ front v back fault, vs = front ++ v :: back ∧ (∀ w ∈ front, ¬w.Mute) ∧ v.Mute ∧
        v.display = .error fault ∧ joined vs = .error fault := by
  induction vs with
  | nil => exact .inl ⟨[], .nil, rfl⟩
  | cons v vs ih =>
    rw [← List.singleton_append, joined_append, joined_singleton]
    rcases contributes_or_mute v with ⟨t, ht⟩ | hmute
    · rw [part_of_contributes ht]
      rcases ih with ⟨texts, htexts, hvs⟩ | ⟨front, w, back, fault, rfl, hfront, hw, hdisplay, hvs⟩
      · rw [hvs]
        exact .inl ⟨t :: texts, .cons ht htexts, congrArg Except.ok (Text.join_cons t texts).symm⟩
      · rw [hvs]
        have hv : ¬v.Mute := fun h => mute_iff.mp h t ht
        exact .inr ⟨v :: front, w, back, fault, rfl, List.forall_mem_cons.mpr ⟨hv, hfront⟩, hw,
          hdisplay, rfl⟩
    · obtain ⟨fault, hdisplay, hpart⟩ := part_of_mute hmute
      rw [hpart]
      exact .inr ⟨[], v, vs, fault, rfl, nofun, hmute, hdisplay, rfl⟩

/-- Values can be joined in groups. -/
theorem joined_flatten (xss : List (List Value)) :
    joined xss.flatten = Text.join <$> xss.mapM joined := by
  induction xss with
  | nil => rfl
  | cons xs xss ih =>
    rw [List.flatten_cons, joined_append, ih, List.mapM_cons]
    cases joined xs with
    | error fault => rfl
    | ok s =>
      cases xss.mapM joined with
      | error fault => rfl
      | ok ts => exact congrArg Except.ok (Text.join_cons s ts).symm

/-- Texts are joined as they are. -/
theorem joined_texts (ts : List Text) : joined (ts.map .str) = .ok (Text.join ts) := by
  have hparts : (ts.map Value.str).mapM part = .ok ts := by
    rw [List.mapM_map]
    exact (List.mapM_pure (m := Except Fault)).trans (congrArg Except.ok (List.map_id ts))
  rw [joined, hparts]
  rfl

/-! ## The operation -/

theorem outcome_concat (depth : Nat) {args : List Value} (h : args ≠ []) :
    (applySymbol depth concat.symbol args).outcome = Value.str <$> joined args := by
  have hempty : args.isEmpty = false := List.isEmpty_eq_false_iff.mpr h
  rw [outcome_applySymbol]
  unfold compute
  dsimp only
  rw [hempty]
  rfl

/-- Joining the groups one after the other gives the texts of the groups. -/
theorem mapM_outcome_concat (depth : Nat) {xss : List (List Value)} (h : ∀ xs ∈ xss, xs ≠ []) :
    xss.mapM (fun xs => (applySymbol depth concat.symbol xs).outcome) =
      List.map Value.str <$> xss.mapM joined := by
  induction xss with
  | nil => rfl
  | cons xs xss ih =>
    obtain ⟨hxs, hxss⟩ := List.forall_mem_cons.mp h
    rw [List.mapM_cons, List.mapM_cons, outcome_concat depth hxs, ih hxss]
    cases joined xs with
    | error fault => rfl
    | ok s =>
      cases xss.mapM joined with
      | error fault => rfl
      | ok ts => rfl

/-- Joining the groups and then their texts is joining all values. -/
theorem outcome_concat_groups (depth : Nat) {xss : List (List Value)} (hne : xss ≠ [])
    (h : ∀ xs ∈ xss, xs ≠ []) :
    (xss.mapM (applySymbol depth concat.symbol) >>= applySymbol depth concat.symbol).outcome =
      Value.str <$> joined xss.flatten := by
  rw [Run.outcome_bind, Run.outcome_mapM, mapM_outcome_concat depth h, joined_flatten]
  cases htexts : xss.mapM joined with
  | error fault => rfl
  | ok ts =>
    -- There is a text for each group, so the outer joining has arguments too.
    have hts : ts.map Value.str ≠ [] := by
      obtain ⟨groups, rfl, rfl, -⟩ := exists_of_mapM_eq_ok htexts
      intro hnil
      simp only [List.map_eq_nil_iff] at hnil
      exact hne (by rw [hnil]; rfl)
    show (applySymbol depth concat.symbol (ts.map .str)).outcome = .ok (.str (Text.join ts))
    rw [outcome_concat depth hts, joined_texts]
    rfl

/-- **Joining can be regrouped.** Joining values in groups and then the texts of the groups ends as
    joining all of them at once does: in the text that they contribute one after the other, or, if
    some of them are mute, in the fault of the first of those. What a value contributes is what it
    is displayed as, except that a text is displayed between double quotes, which are left out. -/
theorem concat_regroups (depth : Nat) {xss : List (List Value)} (hne : xss ≠ [])
    (hgroups : ∀ xs ∈ xss, xs ≠ []) :
    let concat (args : List Value) : Run Value := applySymbol depth Primitive.concat.symbol args
    (xss.mapM concat >>= concat).outcome = (concat xss.flatten).outcome ∧
      ((∃ texts, List.Forall₂ Contributes xss.flatten texts ∧
          (concat xss.flatten).outcome = .ok (.str (Text.join texts))) ∨
        ∃ front v back fault, xss.flatten = front ++ v :: back ∧ (∀ w ∈ front, ¬w.Mute) ∧
          v.Mute ∧ v.display = .error fault ∧ (concat xss.flatten).outcome = .error fault) ∧
      (∀ v : Value, v.Mute ↔ ∀ t, ¬Contributes v t) ∧
      (∀ v : Value, (∀ s, v ≠ .str s) → (concat [v]).outcome = Value.str <$> v.display) ∧
      ∀ s : Text, (concat [.str s]).outcome = .ok (.str s) ∧
        (Value.str s).display = .ok ("\x22" ++ s ++ "\x22") := by
  intro concat
  have hall : xss.flatten ≠ [] := by
    obtain ⟨xs, hxs⟩ := List.exists_mem_of_ne_nil xss hne
    exact fun hnil => hgroups xs hxs (List.flatten_eq_nil_iff.mp hnil xs hxs)
  have hwhole : (concat xss.flatten).outcome = Value.str <$> joined xss.flatten :=
    outcome_concat depth hall
  have hone (v : Value) : (concat [v]).outcome = Value.str <$> part v := by
    rw [outcome_concat depth (List.cons_ne_nil v []), joined_singleton]
  refine ⟨(outcome_concat_groups depth hne hgroups).trans hwhole.symm, ?_, fun v => mute_iff, ?_,
    ?_⟩
  · rw [hwhole]
    rcases joined_cases xss.flatten with
      ⟨texts, htexts, hok⟩ | ⟨front, v, back, fault, hsplit, hfront, hv, hdisplay, herror⟩
    · rw [hok]
      exact .inl ⟨texts, htexts, rfl⟩
    · rw [herror]
      exact .inr ⟨front, v, back, fault, hsplit, hfront, hv, hdisplay, rfl⟩
  · intro v hv
    rw [hone, part_eq_display hv]
  · intro s
    exact ⟨hone (.str s), rfl⟩

/-- A truth value, a text with a double quote in it and an operation, in two groups; and two values
    that have no text, of which the first is behind a text. -/
theorem concat_regroups_mixed :
    let concat (args : List Value) : Run Value := applySymbol 0 ⟨"++"⟩ args
    let whole : List (List Value) := [[.bool true, .str "\x22a"], [.prim ⟨"+"⟩]]
    let broken : List (List Value) := [[.str "a"], [.failure, .foreign .nothing]]
    (whole ≠ [] ∧ ∀ xs ∈ whole, xs ≠ []) ∧ (broken ≠ [] ∧ ∀ xs ∈ broken, xs ≠ []) ∧
      (whole.mapM concat >>= concat).outcome = .ok (.str "true\x22a#<primop>") ∧
      (broken.mapM concat >>= concat).outcome = .error (.unprintableKind "ErrorValue") := by
  intro concat whole broken
  have hwhole : whole ≠ [] ∧ ∀ xs ∈ whole, xs ≠ [] := by simp [whole]
  have hbroken : broken ≠ [] ∧ ∀ xs ∈ broken, xs ≠ [] := by simp [broken]
  obtain ⟨htext, -⟩ := concat_regroups 0 hwhole.1 hwhole.2
  obtain ⟨hfault, -⟩ := concat_regroups 0 hbroken.1 hbroken.2
  have hjoin : Text.join ["true", "\x22a", "#<primop>"] = "true\x22a#<primop>" := by decide
  exact ⟨hwhole, hbroken, htext.trans (congrArg (fun t => Except.ok (Value.str t)) hjoin),
    hfault.trans rfl⟩

end Primitive

end MiniLisp
