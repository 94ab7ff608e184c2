import PureContracts.Error
import PureContracts.Event

/-!
# Traces

A `Trace` is a run that reports events and ends in a value or an error.  Events that were reported
in front of an error stay.

Principal results
* `events_bind_ok`, `result_bind_ok` — a run that goes on appends its events;
* `bind_error` — a failed run keeps its events and ends there;
* `result_bind` — how a run ends does not depend on its events.
-/

namespace PureContracts

/-- The events of a run, and how it ended. -/
structure Trace (α : Type) where
  events : List Event
  result : Except Error α

namespace Trace

variable {α β : Type}

/-- A silent run that ends as given. -/
def ofExcept (result : Except Error α) : Trace α := ⟨[], result⟩

/-- A run that only reports an event. -/
def emit (event : Event) : Trace Unit := ⟨[event], .ok ()⟩

/-- Goes on with a further run, unless the first one failed. -/
def andThen (first : Trace α) (next : α → Trace β) : Trace β :=
  match first.result with
  | .ok value => ⟨first.events ++ (next value).events, (next value).result⟩
  | .error e => ⟨first.events, .error e⟩

instance : Monad Trace where
  pure value := ofExcept (.ok value)
  bind := andThen

theorem events_bind_ok {first : Trace α} {value : α} (h : first.result = .ok value)
    (next : α → Trace β) : (first >>= next).events = first.events ++ (next value).events := by
  simp [bind, andThen, h]

theorem result_bind_ok {first : Trace α} {value : α} (h : first.result = .ok value)
    (next : α → Trace β) : (first >>= next).result = (next value).result := by
  simp [bind, andThen, h]

theorem bind_error {first : Trace α} {e : Error} (h : first.result = .error e)
    (next : α → Trace β) : (first >>= next) = ⟨first.events, .error e⟩ := by
  simp [bind, andThen, h]

@[simp] theorem result_ofExcept (result : Except Error α) : (ofExcept result).result = result := rfl

@[simp] theorem result_emit (event : Event) : (emit event).result = .ok () := rfl

@[simp] theorem result_pure (value : α) : (pure value : Trace α).result = .ok value := rfl

@[simp] theorem events_ofExcept (result : Except Error α) : (ofExcept result).events = [] := rfl

@[simp] theorem events_emit (event : Event) : (emit event).events = [event] := rfl

@[simp] theorem events_pure (value : α) : (pure value : Trace α).events = [] := rfl

theorem result_bind (first : Trace α) (next : α → Trace β) :
    (first >>= next).result = first.result >>= fun value => (next value).result := by
  cases h : first.result with
  | ok value => exact result_bind_ok h next
  | error e => rw [bind_error h]; rfl

end Trace

end PureContracts
