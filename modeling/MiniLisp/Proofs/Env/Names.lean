/-
  MiniLisp.Proofs.Env.Names

  The names that frames and environments bind. A frame that binds names to
  values one after the other binds just those names (`mem_names_ofPairs`), and
  in their order if they are distinct (`names_ofPairs_zip`). A name has a value
  exactly when a frame binds it (`Frame.find?_eq_none_iff`,
  `Env.find?_append_eq_none_iff`).
-/
import MiniLisp.Env

namespace MiniLisp

namespace Frame

variable {x : Symbol} {v : Value} {f : Frame}

/-- The names that a frame binds, in the order in which they were first bound. -/
def names (f : Frame) : List Symbol := f.map Prod.fst

/-- A name has no value in a frame that does not bind it, and in no other. -/
theorem find?_eq_none_iff : find? x f = none ↔ x ∉ f.names := by
  induction f with
  | nil => simp [find?, names]
  | cons b f ih =>
    obtain ⟨y, w⟩ := b
    have hnames : names ((y, w) :: f) = y :: names f := rfl
    rw [find?, hnames, List.mem_cons, not_or]
    by_cases hy : y = x
    · simp [hy]
    · rw [if_neg hy, ih]
      exact ⟨fun h => ⟨Ne.symm hy, h⟩, fun h => h.2⟩

theorem mem_of_find? (h : find? x f = some v) : (x, v) ∈ f := by
  induction f with
  | nil => cases h
  | cons b f ih =>
    obtain ⟨y, w⟩ := b
    rw [find?] at h
    split at h
    · rename_i hy
      cases h
      exact hy ▸ List.mem_cons_self
    · exact List.mem_cons_of_mem _ (ih h)

/-- A name that is bound already keeps its place. -/
theorem names_insert_of_mem (h : x ∈ f.names) : (insert x v f).names = f.names := by
  induction f with
  | nil => cases h
  | cons b f ih =>
    obtain ⟨y, w⟩ := b
    rw [insert]
    by_cases hy : y = x
    · rw [if_pos hy]
      rfl
    · have hx : x ∈ names f := (List.mem_cons.mp h).resolve_left (Ne.symm hy)
      rw [if_neg hy]
      exact congrArg (y :: ·) (ih hx)

/-- A new name takes the last place. -/
theorem insert_of_not_mem (h : x ∉ f.names) : insert x v f = f ++ [(x, v)] := by
  induction f with
  | nil => rfl
  | cons b f ih =>
    obtain ⟨y, w⟩ := b
    have hnot : ¬(x = y ∨ x ∈ names f) := fun hx => h (List.mem_cons.mpr hx)
    rw [not_or] at hnot
    rw [insert, if_neg (Ne.symm hnot.1)]
    exact congrArg ((y, w) :: ·) (ih hnot.2)

theorem names_insert_of_not_mem (h : x ∉ f.names) : (insert x v f).names = f.names ++ [x] := by
  rw [insert_of_not_mem h, names, names, List.map_append]
  rfl

theorem mem_names_insert {y : Symbol} : y ∈ (insert x v f).names ↔ y ∈ f.names ∨ y = x := by
  by_cases hx : x ∈ f.names
  · rw [names_insert_of_mem hx]
    constructor
    · exact .inl
    · rintro (hy | rfl)
      · exact hy
      · exact hx
  · rw [names_insert_of_not_mem hx, List.mem_append, List.mem_singleton]

/-- A frame made from pairs binds the names in the pairs. -/
theorem mem_names_ofPairs {pairs : List (Symbol × Value)} :
    x ∈ (ofPairs pairs).names ↔ x ∈ pairs.map Prod.fst := by
  have hfold : ∀ f : Frame, x ∈ (pairs.foldl (fun f p => insert p.1 p.2 f) f).names ↔
      x ∈ f.names ∨ x ∈ pairs.map Prod.fst := by
    induction pairs with
    | nil => simp
    | cons p pairs ih =>
      intro f
      rw [List.foldl_cons, ih, mem_names_insert, List.map_cons, List.mem_cons, or_assoc]
  exact (hfold []).trans (by simp [names])

/-- Distinct names are bound just as they are paired with values. -/
theorem ofPairs_of_nodup {pairs : List (Symbol × Value)} (h : (pairs.map Prod.fst).Nodup) :
    ofPairs pairs = pairs := by
  have hfold : ∀ f : Frame, (f.names ++ pairs.map Prod.fst).Nodup →
      pairs.foldl (fun f p => insert p.1 p.2 f) f = f ++ pairs := by
    clear h
    induction pairs with
    | nil => simp
    | cons p pairs ih =>
      intro f hnodup
      rw [List.map_cons, List.append_cons] at hnodup
      have hnew : p.1 ∉ f.names := by
        have hfirst := (List.nodup_append.mp hnodup).1
        exact fun h => (List.nodup_append.mp hfirst).2.2 _ h _ List.mem_cons_self rfl
      have hinsert : insert p.1 p.2 f = f ++ [p] := insert_of_not_mem hnew
      have hnames : (f ++ [p]).names = f.names ++ [p.1] := by
        rw [← hinsert]
        exact names_insert_of_not_mem hnew
      rw [List.foldl_cons, hinsert, ih _ (by rwa [hnames]), List.append_assoc]
      rfl
  exact hfold [] h

/-- A frame that binds distinct names has them in their order. -/
theorem names_ofPairs_zip {params : List Symbol} {vs : List Value} (hnodup : params.Nodup)
    (hlength : params.length = vs.length) : (ofPairs (params.zip vs)).names = params := by
  have hzip : (params.zip vs).map Prod.fst = params :=
    List.map_fst_zip (Nat.le_of_eq hlength)
  rw [ofPairs_of_nodup (by rwa [hzip]), names, hzip]

end Frame

namespace Env

variable {x : Symbol}

theorem lookup_eq_ok_iff {env : Env} {v : Value} :
    env.lookup x = .ok v ↔ env.find? x = some v := by
  rw [lookup]
  cases env.find? x with
  | none => simp
  | some w => simp

/-- A name that is no parameter is looked up behind the new frame. -/
theorem find?_bind_of_not_mem {params : List Symbol} {vs : List Value} {env : Env}
    (h : x ∉ params) : (bind params vs env).find? x = env.find? x := by
  have hframe : Frame.find? x (Frame.ofPairs (params.zip vs)) = none := by
    rw [Frame.find?_eq_none_iff, Frame.mem_names_ofPairs]
    intro hx
    obtain ⟨p, hp, rfl⟩ := List.mem_map.mp hx
    exact h (List.of_mem_zip hp).1
  rw [bind, find?, hframe, Option.none_or]

/-- Frames are searched before the environment behind them. -/
theorem find?_append {frames env : Env} :
    find? x (frames ++ env) = (find? x frames).or (find? x env) := by
  induction frames with
  | nil => rfl
  | cons f frames ih => rw [List.cons_append, find?, find?, ih, Option.or_assoc]

/-- A name has no value behind frames that do not bind it, if it has none in the rest. -/
theorem find?_append_eq_none_iff {frames env : Env} :
    find? x (frames ++ env) = none ↔ (∀ f ∈ frames, x ∉ f.names) ∧ find? x env = none := by
  induction frames with
  | nil => simp
  | cons f frames ih =>
    rw [List.cons_append, find?, Option.or_eq_none_iff, Frame.find?_eq_none_iff, ih,
      List.forall_mem_cons, and_assoc]

theorem find?_eq_none_iff {env : Env} : find? x env = none ↔ ∀ f ∈ env, x ∉ f.names := by
  have h := @find?_append_eq_none_iff x env []
  rw [List.append_nil] at h
  exact h.trans (and_iff_left rfl)

end Env

end MiniLisp
