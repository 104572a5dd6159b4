/-
  MiniLisp.Run

  The machine that keeps a trace. A run holds the events that took place, in
  order, and a result or the fault that stopped it; the events before a fault
  are kept. No event is refused.

  Runs form a monad: the second run's events follow the first one's, and a
  fault stops everything after it.
-/
import MiniLisp.Machine

namespace MiniLisp

/-- The events of a computation, in order, and how it ends. -/
structure Run (α : Type) where
  events : List Event
  outcome : Except Fault α

namespace Run

variable {α β : Type}

/-- Nothing happens, and the result is there. -/
@[inline] def done (a : α) : Run α := ⟨[], .ok a⟩

/-- Nothing happens but the fault. -/
@[inline] def fail (fault : Fault) : Run α := ⟨[], .error fault⟩

/-- One event. -/
@[inline] def emit (e : Event) : Run Unit := ⟨[e], .ok ()⟩

/-- A result or a fault, without events. -/
@[inline] def ofExcept (r : Except Fault α) : Run α := ⟨[], r⟩

/-- One run after another. -/
@[inline] def andThen (r : Run α) (next : α → Run β) : Run β :=
  match r with
  | ⟨events, .error fault⟩ => ⟨events, .error fault⟩
  | ⟨events, .ok a⟩ =>
    let ⟨more, outcome⟩ := next a
    ⟨events ++ more, outcome⟩

instance : Monad Run where
  pure := done
  bind := andThen

instance : Machine Run where
  ofExcept := ofExcept
  emit := emit

/-- The lines printed. -/
def lines (r : Run α) : List Text := r.events.filterMap Event.line?

/-- The records logged. -/
def records (r : Run α) : List Text := r.events.filterMap Event.record?

@[simp] theorem pure_eq (a : α) : (pure a : Run α) = ⟨[], .ok a⟩ := rfl

@[simp] theorem bind_ok (events : List Event) (a : α) (next : α → Run β) :
    (Run.mk events (.ok a) >>= next) = ⟨events ++ (next a).events, (next a).outcome⟩ := rfl

@[simp] theorem bind_error (events : List Event) (fault : Fault) (next : α → Run β) :
    (Run.mk events (.error fault) >>= next) = ⟨events, .error fault⟩ := rfl

/-- A run followed by nothing is that run. -/
theorem map_id (r : Run α) : id <$> r = r := by
  rcases r with ⟨events, fault | a⟩
  · rfl
  · show Run.mk (events ++ []) (.ok a) = _
    rw [List.append_nil]

/-- Three runs one after the other can be grouped either way. -/
theorem andThen_assoc {γ : Type} (r : Run α) (f : α → Run β) (g : β → Run γ) :
    r >>= f >>= g = r >>= fun a => f a >>= g := by
  rcases r with ⟨events, fault | a⟩
  · rfl
  · rw [bind_ok, bind_ok]
    rcases f a with ⟨more, fault | b⟩
    · rfl
    · rw [bind_ok, bind_ok, List.append_assoc]

instance : LawfulMonad Run :=
  LawfulMonad.mk' Run map_id (fun _ _ => rfl) andThen_assoc

end Run

end MiniLisp
