/-
  MiniLisp.Proofs.Session.TopLevel

  The top-level environment: the names that it binds, and the values that it
  binds them to.
-/
import MiniLisp.Proofs.Env.Names
import MiniLisp.Proofs.Eval.Invariant
import MiniLisp.Session

namespace MiniLisp

/-- The names of the built-in operations and of the two truth values. -/
def topNames : List Symbol := Primitive.all.map Primitive.symbol ++ [⟨"true"⟩, ⟨"false"⟩]

theorem find?_topEnv_eq_none_iff {x : Symbol} : topEnv.find? x = none ↔ x ∉ topNames := by
  have htop : topEnv.find? x = (Frame.find? x (topEnv.headD [])).or none := rfl
  have hnames : Frame.names (topEnv.headD []) = topNames := rfl
  rw [htop, Option.or_none, Frame.find?_eq_none_iff, hnames]

/-- The top level binds the symbol of an operation to that operation, and the rest to truth
    values. -/
theorem find?_topEnv_cases {x : Symbol} {v : Value} (h : topEnv.find? x = some v) :
    v = .prim x ∨ ∃ b, v = .bool b := by
  have htop : topEnv.find? x = (Frame.find? x (topEnv.headD [])).or none := rfl
  rw [htop, Option.or_none] at h
  rcases List.mem_append.mp (Frame.mem_of_find? h) with hx | hx
  · obtain ⟨p, -, hp⟩ := List.mem_map.mp hx
    cases hp
    exact .inl rfl
  · simp only [List.mem_cons, Prod.mk.injEq, List.not_mem_nil, or_false] at hx
    rcases hx with ⟨-, rfl⟩ | ⟨-, rfl⟩
    · exact .inr ⟨true, rfl⟩
    · exact .inr ⟨false, rfl⟩

/-- What holds of the built-in operations and of the truth values holds of all values at the top
    level. -/
theorem holds_topEnv_of {good : Value → Prop} (hprim : ∀ p : Primitive, good (.prim p.symbol))
    (hbool : ∀ b : Bool, good (.bool b)) : Env.Holds good topEnv := by
  refine List.forall_mem_singleton.mpr fun b hb => ?_
  rcases List.mem_append.mp hb with hb | hb
  · obtain ⟨p, -, rfl⟩ := List.mem_map.mp hb
    exact hprim p
  · simp only [List.mem_cons, List.not_mem_nil, or_false] at hb
    rcases hb with rfl | rfl
    · exact hbool true
    · exact hbool false

end MiniLisp
