import CartPatch.Event.Basic

/-!
The registry of all events known to a run of patching, in ascending order of their ids.

Entry labels are made from the label-safe form of an id, so no two ids of one registry may have
that form in common.
-/

namespace CartPatch.Event

structure Registry where
  events : List Event

namespace Registry

def empty : Registry := ⟨[]⟩

/-- Puts an event before the first one with a greater id. -/
def insert (e : Event) : List Event → List Event
  | [] => [e]
  | f :: fs => if e.id < f.id then e :: f :: fs else f :: insert e fs

def get? (r : Registry) (id : Text) : Option Event := r.events.find? (·.id == id)

/-- Adds an event, unless its id or the label-safe form of its id is taken. -/
def register (r : Registry) (e : Event) : Except EventError Registry :=
  if (r.get? e.id).isSome then .error (.duplicateId e.id)
  else match r.events.find? (labelSafe ·.id == labelSafe e.id) with
    | some f => .error (.labelCollision e.id f.id)
    | none => .ok ⟨insert e r.events⟩

def ids (r : Registry) : List Text := r.events.map Event.id

theorem mem_insert {e f : Event} {es : List Event} : f ∈ insert e es ↔ f = e ∨ f ∈ es := by
  induction es with
  | nil => simp [insert]
  | cons g gs ih =>
    by_cases h : e.id < g.id
    · simp [insert, h]
    · simp only [insert, h, if_false, List.mem_cons, ih]
      grind

end Registry

end CartPatch.Event
