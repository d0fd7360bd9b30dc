import CartPatch.Event.Registry
import Mathlib.Data.List.Nodup

/-!
Registries after any number of offered events, some of which may have been refused. What registering
one event does is said once, in `register_eq_ok`; that the label-safe forms of the ids stay apart
follows by induction on the events offered (`ofOffers_induction`, `labelsApart_ofOffers`).
-/

namespace CartPatch.Event.Registry

variable {r r' : Registry} {e : Event} {es : List Event} {a b : Text}

theorem insert_perm (e : Event) (es : List Event) : (insert e es).Perm (e :: es) := by
  induction es with
  | nil => rfl
  | cons f fs ih =>
    rw [insert]
    split
    · rfl
    · exact (ih.cons f).trans (.swap e f fs)

theorem isSome_get? {id : Text} : (r.get? id).isSome ↔ id ∈ r.ids := by
  simp only [get?, List.find?_isSome, beq_iff_eq, ids, List.mem_map]

/-- An event is taken in when no event of the registry has its label-safe form; then its id is not
taken either. -/
theorem register_eq_ok : r.register e = .ok r' ↔
    (∀ f ∈ r.events, labelSafe f.id ≠ labelSafe e.id) ∧ r' = ⟨insert e r.events⟩ := by
  rw [register]
  split
  · rename_i hid
    obtain ⟨f, hf, hfid⟩ := List.mem_map.1 (isSome_get?.1 hid)
    constructor
    · intro h
      cases h
    · rintro ⟨hfree, -⟩
      exact absurd (congrArg labelSafe hfid) (hfree f hf)
  · split
    · rename_i f hfind
      constructor
      · intro h
        cases h
      · rintro ⟨hfree, -⟩
        have hlabel : labelSafe f.id = labelSafe e.id := by simpa using List.find?_some hfind
        exact absurd hlabel (hfree f (List.mem_of_find?_eq_some hfind))
    · rename_i hfind
      have hfree : ∀ f ∈ r.events, labelSafe f.id ≠ labelSafe e.id := by
        simpa using List.find?_eq_none.1 hfind
      rw [Except.ok.injEq, eq_comm, iff_and_self]
      exact fun _ => hfree

/-- The registry after an event was offered, which a refused event leaves as it was. -/
def offer (r : Registry) (e : Event) : Registry :=
  match r.register e with
  | .ok r' => r'
  | .error _ => r

def ofOffers (es : List Event) : Registry := es.foldl offer empty

/-- What the empty registry satisfies and every offer keeps holds after any run of offers. -/
theorem ofOffers_induction {P : Registry → Prop} (hempty : P empty)
    (hoffer : ∀ r e, P r → P (r.offer e)) (es : List Event) : P (ofOffers es) := by
  have hrun : ∀ r, P r → P (es.foldl offer r) := by
    induction es with
    | nil => exact fun r h => h
    | cons e es ih => exact fun r h => ih _ (hoffer r e h)
  exact hrun empty hempty

def LabelsApart (r : Registry) : Prop := (r.ids.map labelSafe).Nodup

theorem LabelsApart.register (h : r.LabelsApart) (hr : r.register e = .ok r') :
    r'.LabelsApart := by
  obtain ⟨hfree, rfl⟩ := register_eq_ok.1 hr
  have hperm := ((insert_perm e r.events).map Event.id).map labelSafe
  refine hperm.nodup_iff.2 (List.nodup_cons.2 ⟨?_, h⟩)
  simpa using hfree

theorem LabelsApart.offer (h : r.LabelsApart) (e : Event) : (r.offer e).LabelsApart := by
  rw [Registry.offer]
  split
  · exact h.register ‹_›
  · exact h

theorem labelsApart_ofOffers (es : List Event) : (ofOffers es).LabelsApart :=
  ofOffers_induction List.nodup_nil (fun _ e h => h.offer e) es

theorem LabelsApart.labelSafe_inj (h : r.LabelsApart) (ha : a ∈ r.ids) (hb : b ∈ r.ids) :
    labelSafe a = labelSafe b ↔ a = b :=
  ⟨fun heq => List.inj_on_of_nodup_map h ha hb heq, congrArg labelSafe⟩

end CartPatch.Event.Registry
