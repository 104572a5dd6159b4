/-
  MiniLisp.Proofs.Env.Layers

  Environments as layered maps. The layers of an environment are the bindings
  that it was made from, innermost first, just as they were given: names may be
  repeated within a layer, where the last binding counts (`IsLast`), and in
  several layers, where the innermost one counts (`Nearest`).

  `Env.Built layers env` says how environments are made. Searching a frame finds
  the last binding of a name (`Frame.find?_ofPairs_eq_some_iff`), and searching
  the chain finds the nearest layer, from the innermost on
  (`Env.find?_map_eq_some_iff`, `Env.hops?_map_eq_some_iff`).
-/
import MiniLisp.Proofs.Env.Names
import Mathlib.Data.List.Induction

namespace MiniLisp

/-! ## Layers -/

/-- The last of the pairs that bind the name binds it to the value. -/
def IsLast (x : Symbol) (v : Value) (pairs : List (Symbol × Value)) : Prop :=
  ∃ before after, pairs = before ++ (x, v) :: after ∧ x ∉ after.map Prod.fst

/-- Behind `n` layers that do not bind the name there is one that binds it to the value. -/
def Nearest (x : Symbol) (n : Nat) (v : Value) (layers : List (List (Symbol × Value))) : Prop :=
  ∃ inner pairs outer, layers = inner ++ pairs :: outer ∧ inner.length = n ∧
    (∀ ps ∈ inner, x ∉ ps.map Prod.fst) ∧ IsLast x v pairs

/-- The environment is made from the layers: by a frame, around another environment or not, or by
    extending another environment. -/
inductive Env.Built : List (List (Symbol × Value)) → Env → Prop
  | root (pairs : List (Symbol × Value)) : Built [pairs] [Frame.ofPairs pairs]
  | frame {layers : List (List (Symbol × Value))} {env : Env} (pairs : List (Symbol × Value))
      (h : Built layers env) : Built (pairs :: layers) (Frame.ofPairs pairs :: env)
  | extend {layers : List (List (Symbol × Value))} {env env' : Env} {names : List Symbol}
      {values : List Value} (h : Built layers env) (henv' : env.extend names values = .ok env') :
      Built (names.zip values :: layers) env'

/-! ## One frame -/

variable {x : Symbol} {v : Value}

/-- A pair behind the others is the last one for its name, and changes nothing for other names. -/
theorem isLast_concat_iff {pairs : List (Symbol × Value)} {y : Symbol} {w : Value} :
    IsLast x v (pairs ++ [(y, w)]) ↔ (y = x ∧ w = v) ∨ (y ≠ x ∧ IsLast x v pairs) := by
  constructor
  · rintro ⟨before, after, hpairs, hafter⟩
    rcases List.eq_nil_or_concat after with rfl | ⟨after, q, rfl⟩
    · have hlast := (List.append_inj' hpairs rfl).2
      cases hlast
      exact .inl ⟨rfl, rfl⟩
    · rw [List.concat_eq_append, ← List.cons_append, ← List.append_assoc] at hpairs
      obtain ⟨rfl, hlast⟩ := List.append_inj' hpairs rfl
      cases hlast
      rw [List.concat_eq_append, List.map_append, List.mem_append, not_or] at hafter
      exact .inr ⟨fun h => hafter.2 (List.mem_singleton.mpr h.symm), before, after, rfl, hafter.1⟩
  · rintro (⟨rfl, rfl⟩ | ⟨hne, before, after, rfl, hafter⟩)
    · exact ⟨pairs, [], rfl, List.not_mem_nil⟩
    · refine ⟨before, after ++ [(y, w)], by rw [List.append_assoc, List.cons_append], ?_⟩
      rw [List.map_append, List.mem_append, not_or]
      exact ⟨hafter, fun h => hne (List.mem_singleton.mp h).symm⟩

/-- The last pair of a name has a place: the last one among the names that holds the name. -/
theorem IsLast.exists_place {pairs : List (Symbol × Value)} (h : IsLast x v pairs) :
    ∃ i : Nat, (pairs.map Prod.fst)[i]? = some x ∧ (pairs.map Prod.snd)[i]? = some v ∧
      ∀ j, i < j → (pairs.map Prod.fst)[j]? ≠ some x := by
  obtain ⟨before, after, rfl, hafter⟩ := h
  have hplace : ∀ {α : Type} (f : Symbol × Value → α) (k : Nat),
      ((before ++ (x, v) :: after).map f)[before.length + k]? = (f (x, v) :: after.map f)[k]? := by
    intro α f k
    rw [List.map_append, List.map_cons, List.getElem?_append_right (by simp)]
    simp
  refine ⟨before.length, hplace Prod.fst 0, hplace Prod.snd 0, ?_⟩
  intro j hj hx
  obtain ⟨k, rfl⟩ := Nat.exists_eq_add_of_lt hj
  rw [Nat.add_assoc, hplace] at hx
  exact hafter (List.mem_of_getElem? hx)

namespace Frame

theorem ofPairs_concat (pairs : List (Symbol × Value)) (y : Symbol) (w : Value) :
    ofPairs (pairs ++ [(y, w)]) = insert y w (ofPairs pairs) := List.foldl_append

/-- A frame holds the last binding of each name. -/
theorem find?_ofPairs_eq_some_iff {pairs : List (Symbol × Value)} :
    find? x (ofPairs pairs) = some v ↔ IsLast x v pairs := by
  induction pairs using List.reverseRecOn with
  | nil =>
    constructor
    · intro h
      cases h
    · rintro ⟨before, after, h, -⟩
      simp at h
  | append_singleton pairs p ih =>
    obtain ⟨y, w⟩ := p
    rw [ofPairs_concat, find?_insert, isLast_concat_iff, ← ih]
    by_cases hy : y = x
    · simp [hy]
    · simp [hy]

theorem find?_ofPairs_eq_none_iff {pairs : List (Symbol × Value)} :
    find? x (ofPairs pairs) = none ↔ x ∉ pairs.map Prod.fst := by
  rw [find?_eq_none_iff, mem_names_ofPairs]

end Frame

/-! ## The chain -/

namespace Env

variable {layers : List (List (Symbol × Value))} {env : Env} {n : Nat}

/-- The frames of an environment are made from its layers. -/
theorem Built.eq_map (h : Built layers env) : env = layers.map Frame.ofPairs := by
  induction h with
  | root pairs => rfl
  | frame pairs _ ih => rw [List.map_cons, ih]
  | extend _ henv' ih =>
    rw [Env.extend] at henv'
    split at henv'
    · cases henv'
      rw [List.map_cons, ← ih]
      rfl
    · cases henv'

/-- The nearest layer is the innermost one, or it is the nearest of the others if the innermost one
    does not bind the name. -/
theorem nearest_cons_iff {pairs : List (Symbol × Value)} :
    Nearest x n v (pairs :: layers) ↔ (n = 0 ∧ IsLast x v pairs) ∨
      ∃ m, n = m + 1 ∧ x ∉ pairs.map Prod.fst ∧ Nearest x m v layers := by
  constructor
  · rintro ⟨inner, ps, outer, hlayers, rfl, hinner, hlast⟩
    cases inner with
    | nil =>
      cases hlayers
      exact .inl ⟨rfl, hlast⟩
    | cons q inner =>
      cases hlayers
      obtain ⟨hq, hinner⟩ := List.forall_mem_cons.mp hinner
      exact .inr ⟨inner.length, rfl, hq, inner, ps, outer, rfl, rfl, hinner, hlast⟩
  · rintro (⟨rfl, hlast⟩ | ⟨m, rfl, hpairs, inner, ps, outer, rfl, rfl, hinner, hlast⟩)
    · exact ⟨[], pairs, layers, rfl, rfl, fun _ h => absurd h List.not_mem_nil, hlast⟩
    · exact ⟨pairs :: inner, ps, outer, rfl, rfl, List.forall_mem_cons.mpr ⟨hpairs, hinner⟩, hlast⟩

theorem not_nearest_nil : ¬Nearest x n v [] := by
  rintro ⟨inner, ps, outer, h, -⟩
  simp at h

/-- Searching from the innermost frame on finds the binding in the nearest layer. -/
theorem find?_map_eq_some_iff :
    find? x (layers.map Frame.ofPairs) = some v ↔ ∃ n, Nearest x n v layers := by
  induction layers with
  | nil =>
    constructor
    · intro h
      cases h
    · rintro ⟨n, h⟩
      exact absurd h not_nearest_nil
  | cons pairs layers ih =>
    rw [List.map_cons, find?, Option.or_eq_some_iff, Frame.find?_ofPairs_eq_some_iff,
      Frame.find?_ofPairs_eq_none_iff, ih]
    constructor
    · rintro (hlast | ⟨hpairs, n, hnearest⟩)
      · exact ⟨0, nearest_cons_iff.mpr (.inl ⟨rfl, hlast⟩)⟩
      · exact ⟨n + 1, nearest_cons_iff.mpr (.inr ⟨n, rfl, hpairs, hnearest⟩)⟩
    · rintro ⟨n, hnearest⟩
      rcases nearest_cons_iff.mp hnearest with ⟨-, hlast⟩ | ⟨m, -, hpairs, hnearest⟩
      · exact .inl hlast
      · exact .inr ⟨hpairs, m, hnearest⟩

/-- Counting frames from the innermost on gives the number of layers before the nearest one. -/
theorem hops?_map_eq_some_iff :
    hops? x (layers.map Frame.ofPairs) = some n ↔ ∃ v, Nearest x n v layers := by
  induction layers generalizing n with
  | nil =>
    constructor
    · intro h
      cases h
    · rintro ⟨v, h⟩
      exact absurd h not_nearest_nil
  | cons pairs layers ih =>
    -- the count starts anew behind a layer without the name, so `n` varies in the induction
    rw [List.map_cons, hops?]
    cases hframe : Frame.find? x (Frame.ofPairs pairs) with
    | some w =>
      have hlast := Frame.find?_ofPairs_eq_some_iff.mp hframe
      rw [Option.isSome_some, if_pos rfl, Option.some.injEq]
      constructor
      · rintro rfl
        exact ⟨w, nearest_cons_iff.mpr (.inl ⟨rfl, hlast⟩)⟩
      · rintro ⟨v, hnearest⟩
        rcases nearest_cons_iff.mp hnearest with ⟨rfl, -⟩ | ⟨_, -, hpairs, -⟩
        · rfl
        · rw [Frame.find?_ofPairs_eq_none_iff.mpr hpairs] at hframe
          cases hframe
    | none =>
      have hpairs := Frame.find?_ofPairs_eq_none_iff.mp hframe
      rw [Option.isSome_none, if_neg Bool.false_ne_true, Option.map_eq_some_iff]
      constructor
      · rintro ⟨m, hm, rfl⟩
        obtain ⟨v, hnearest⟩ := ih.mp hm
        exact ⟨v, nearest_cons_iff.mpr (.inr ⟨m, rfl, hpairs, hnearest⟩)⟩
      · rintro ⟨v, hnearest⟩
        rcases nearest_cons_iff.mp hnearest with ⟨-, hlast⟩ | ⟨m, rfl, -, hnearest⟩
        · rw [Frame.find?_ofPairs_eq_some_iff.mpr hlast] at hframe
          cases hframe
        · exact ⟨m, ih.mpr ⟨v, hnearest⟩, rfl⟩

/-- A name that is not found is reported as a name without a value. -/
theorem lookup_fails_iff :
    (∃ fault, env.lookup x = .error fault ∧ fault.kind = .name) ↔ env.find? x = none := by
  rw [lookup]
  cases env.find? x with
  | none => exact ⟨fun _ => rfl, fun _ => ⟨.unbound x, rfl, rfl⟩⟩
  | some w =>
    constructor
    · rintro ⟨fault, h, -⟩
      cases h
    · intro h
      cases h

/-- A name is found somewhere exactly if it has a value. -/
theorem exists_hops?_map_iff :
    (∃ n, hops? x (layers.map Frame.ofPairs) = some n) ↔
      ∃ v, find? x (layers.map Frame.ofPairs) = some v := by
  simp only [hops?_map_eq_some_iff, find?_map_eq_some_iff]
  exact exists_comm

theorem contains_map_iff {d : Datum} :
    contains (layers.map Frame.ofPairs) d = true ↔
      ∃ y n, d = .sym y ∧ hops? y (layers.map Frame.ofPairs) = some n := by
  cases d with
  | sym y =>
    rw [contains, Option.isSome_iff_exists, ← exists_hops?_map_iff]
    constructor
    · rintro ⟨n, hn⟩
      exact ⟨y, n, rfl, hn⟩
    · rintro ⟨y, n, ⟨⟩, hn⟩
      exact ⟨n, hn⟩
  | _ => exact ⟨nofun, nofun⟩

/-! ## Extending -/

section

variable {names : List Symbol} {values : List Value}

/-- A name among the new ones gets the value at its last place. -/
theorem exists_find?_bind (hlength : names.length = values.length) (hx : x ∈ names) (env : Env) :
    ∃ (i : Nat) (v : Value), names[i]? = some x ∧ values[i]? = some v ∧
      (∀ j, i < j → names[j]? ≠ some x) ∧ find? x (bind names values env) = some v := by
  -- the numbers agree, so no name is left without a value
  have hnames : (names.zip values).map Prod.fst = names :=
    List.map_fst_zip (Nat.le_of_eq hlength)
  have hvalues : (names.zip values).map Prod.snd = values :=
    List.map_snd_zip (Nat.le_of_eq hlength.symm)
  obtain ⟨v, hv⟩ : ∃ v, Frame.find? x (Frame.ofPairs (names.zip values)) = some v := by
    rw [← Option.ne_none_iff_exists', ne_eq, Frame.find?_ofPairs_eq_none_iff, hnames]
    exact not_not_intro hx
  obtain ⟨i, hi, hvi, hlast⟩ := (Frame.find?_ofPairs_eq_some_iff.mp hv).exists_place
  rw [hnames] at hi hlast
  rw [hvalues] at hvi
  exact ⟨i, v, hi, hvi, hlast, by rw [bind, find?, hv, Option.some_or]⟩

theorem extend_of_length_eq (hlength : names.length = values.length) (env : Env) :
    env.extend names values = .ok (bind names values env) := if_pos hlength

theorem extend_of_length_ne (hlength : names.length ≠ values.length) (env : Env) :
    env.extend names values = .error (.frameArity values.length names.length) := if_neg hlength

end

/-! ## Layered maps -/

/-- **Environments are layered maps.** A name has the value that its last binding in the nearest
    layer gives it, counting from the innermost layer outwards, and it is found in that layer, as
    many layers out as there are layers without the name before it. It is bound if it is found
    somewhere, and then, and only then, looking it up does not fail for the name.

    Extending adds one layer: a new name has the value at its last place among the new names, so
    distinct names have just their values, and every other name has the value that it had. Names
    and values that differ in number are refused. -/
theorem is_layered_map (h : Built layers env) (x : Symbol) :
    (∀ v, env.lookup x = .ok v ↔ ∃ n, Nearest x n v layers) ∧
      (∀ n, env.hops? x = some n ↔ ∃ v, Nearest x n v layers) ∧
      (∀ d, env.contains d = true ↔ ∃ y n, d = .sym y ∧ env.hops? y = some n) ∧
      ((∃ n, env.hops? x = some n) ↔
        ¬∃ fault, env.lookup x = .error fault ∧ fault.kind = .name) ∧
      env.depth = layers.length ∧
      (∀ (names : List Symbol) (values : List Value), names.length = values.length →
        ∃ inner, env.extend names values = .ok inner ∧ inner.depth = env.depth + 1 ∧
          (x ∈ names → ∃ (i : Nat) (v : Value), names[i]? = some x ∧ values[i]? = some v ∧
            (∀ j, i < j → names[j]? ≠ some x) ∧ inner.lookup x = .ok v) ∧
          (names.Nodup → ∀ (i : Nat) (v : Value), names[i]? = some x → values[i]? = some v →
            inner.lookup x = .ok v) ∧
          (x ∉ names → inner.lookup x = env.lookup x)) ∧
      ∀ (names : List Symbol) (values : List Value), names.length ≠ values.length →
        ∃ fault, env.extend names values = .error fault ∧ fault.kind = .arity := by
  obtain rfl := h.eq_map
  refine ⟨fun v => ?value, fun n => ?hops, fun d => ?contains, ?named, ?depth,
    fun names values hlength => ⟨bind names values _, extend_of_length_eq hlength _, rfl,
      fun hx => ?new, fun hnodup i v hi hv => ?distinct, fun hx => ?old⟩,
    fun names values hlength => ⟨_, extend_of_length_ne hlength _, rfl⟩⟩
  case value => rw [lookup_eq_ok_iff, find?_map_eq_some_iff]
  case hops => exact hops?_map_eq_some_iff
  case contains => exact contains_map_iff
  case named => rw [exists_hops?_map_iff, lookup_fails_iff, ← ne_eq, Option.ne_none_iff_exists']
  case depth => exact List.length_map _
  case new =>
    obtain ⟨i, v, hi, hv, hlast, hfind⟩ := exists_find?_bind hlength hx (layers.map Frame.ofPairs)
    exact ⟨i, v, hi, hv, hlast, lookup_eq_ok_iff.mpr hfind⟩
  case distinct =>
    obtain ⟨j, w, hj, hw, -, hfind⟩ := exists_find?_bind hlength (List.mem_of_getElem? hi)
      (layers.map Frame.ofPairs)
    -- distinct names have one place each, which is then the last one
    have hlt : i < names.length := (List.getElem?_eq_some_iff.mp hi).1
    obtain rfl : i = j := (List.getElem?_inj hlt hnodup).mp (hi.trans hj.symm)
    obtain rfl : v = w := Option.some.inj (hv.symm.trans hw)
    exact lookup_eq_ok_iff.mpr hfind
  case old => rw [lookup, lookup, find?_bind_of_not_mem hx]

/-- A frame that binds `x` twice, extended by the name `y` twice. -/
theorem is_layered_map_repeated :
    ∃ inner, Env.extend [Frame.ofPairs [(⟨"x"⟩, .num 1), (⟨"y"⟩, .num 2), (⟨"x"⟩, .num 3)]]
        [⟨"y"⟩, ⟨"y"⟩] [.num 4, .num 5] = .ok inner ∧
      Built [[(⟨"y"⟩, .num 4), (⟨"y"⟩, .num 5)],
        [(⟨"x"⟩, .num 1), (⟨"y"⟩, .num 2), (⟨"x"⟩, .num 3)]] inner ∧
      inner.lookup ⟨"x"⟩ = .ok (.num 3) ∧ inner.hops? ⟨"x"⟩ = some 1 ∧
      inner.lookup ⟨"y"⟩ = .ok (.num 5) := by
  have hbuilt := Built.extend (.root [(⟨"x"⟩, .num 1), (⟨"y"⟩, .num 2), (⟨"x"⟩, .num 3)])
    (@extend_of_length_eq [⟨"y"⟩, ⟨"y"⟩] [.num 4, .num 5] rfl _)
  have hx : Nearest ⟨"x"⟩ 1 (.num 3) [[(⟨"y"⟩, .num 4), (⟨"y"⟩, .num 5)],
      [(⟨"x"⟩, .num 1), (⟨"y"⟩, .num 2), (⟨"x"⟩, .num 3)]] :=
    ⟨[_], _, [], rfl, rfl, by simp, [_, _], [], rfl, List.not_mem_nil⟩
  have hy : Nearest ⟨"y"⟩ 0 (.num 5) [[(⟨"y"⟩, .num 4), (⟨"y"⟩, .num 5)],
      [(⟨"x"⟩, .num 1), (⟨"y"⟩, .num 2), (⟨"x"⟩, .num 3)]] :=
    ⟨[], _, [_], rfl, rfl, nofun, [_], [], rfl, List.not_mem_nil⟩
  obtain ⟨hvalue, hhops, -⟩ := is_layered_map hbuilt ⟨"x"⟩
  exact ⟨_, rfl, hbuilt, (hvalue _).mpr ⟨1, hx⟩, (hhops 1).mpr ⟨_, hx⟩,
    ((is_layered_map hbuilt ⟨"y"⟩).1 _).mpr ⟨0, hy⟩⟩

end Env

end MiniLisp
