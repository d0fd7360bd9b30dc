import CartPatch.Proofs.Event.Registry
import CartPatch.Proofs.Lookup
import CartPatch.Proofs.Outcome
import CartPatch.Proofs.Text.ByteOrder
import Mathlib.Data.Char
import Mathlib.Data.List.Lex

/-!
What a registry holds after any number of offered events: those that it took in (`accepted`), each
once and in the order of their ids. Why an event is refused can be said in full, as the label-safe
forms of the ids stay apart: no more than one id can stand in its way (`register_eq_error`).
-/

namespace CartPatch.Event.Registry

open Text Outcome MonadExcept

variable {r : Registry} {e : Event} {es : List Event} {error : EventError}

/-- Of the events that are offered from first to last, those that are taken in. -/
def accepted (r : Registry) : List Event → List Event
  | [] => []
  | e :: es =>
    match r.register e with
    | .ok r' => e :: accepted r' es
    | .error _ => accepted r es

/-- Why a registry refuses an event: its id is taken, or else the label-safe form of its id, by the
one id that has the same. -/
inductive Refuses (r : Registry) (e : Event) : EventError → Prop where
  | duplicate (h : e.id ∈ r.ids) : Refuses r e (.duplicateId e.id)
  | collision {id : Text} (hfree : e.id ∉ r.ids) (hid : id ∈ r.ids)
      (hlabel : labelSafe id = labelSafe e.id)
      (hone : ∀ other ∈ r.ids, labelSafe other = labelSafe e.id → other = id) :
      Refuses r e (.labelCollision e.id id)

def Ascending (r : Registry) : Prop := r.events.Pairwise fun e f => e.id < f.id

section Order

theorem pairwise_insert (h : es.Pairwise fun e f => e.id < f.id) (hfree : ∀ f ∈ es, f.id ≠ e.id) :
    (insert e es).Pairwise fun e f => e.id < f.id := by
  induction es with
  | nil => exact List.pairwise_singleton _ e
  | cons f fs ih =>
    obtain ⟨hf, hfs⟩ := List.pairwise_cons.1 h
    obtain ⟨hne, hfree⟩ := List.forall_mem_cons.1 hfree
    rw [insert]
    split
    · rename_i hlt
      exact h.cons (List.forall_mem_cons.2 ⟨hlt, fun g hg => lt_trans hlt (hf g hg)⟩)
    · rename_i hge
      refine (ih hfs hfree).cons fun g hg => ?_
      rcases mem_insert.1 hg with rfl | hg
      · exact lt_of_le_of_ne (not_lt.1 hge) hne
      · exact hf g hg

theorem Ascending.offer (h : r.Ascending) (e : Event) : (r.offer e).Ascending := by
  rw [Registry.offer]
  split
  · rename_i hr
    obtain ⟨hfree, rfl⟩ := register_eq_ok.1 hr
    exact pairwise_insert h fun f hf hid => hfree f hf (congrArg labelSafe hid)
  · exact h

theorem ascending_ofOffers (es : List Event) : (ofOffers es).Ascending :=
  ofOffers_induction List.Pairwise.nil (fun _ e h => h.offer e) es

end Order

section Contents

/-- Behind any registry, the events of a run are those that it takes in and those from before. -/
theorem foldl_offer_perm (r : Registry) (es : List Event) :
    (es.foldl offer r).events.Perm (r.accepted es ++ r.events) := by
  induction es generalizing r with
  | nil => rfl
  | cons e es ih =>
    rw [List.foldl_cons, offer, accepted]
    cases hr : r.register e with
    | ok r' =>
      obtain ⟨-, rfl⟩ := register_eq_ok.1 hr
      exact (ih _).trans (((insert_perm e r.events).append_left _).trans List.perm_middle)
    | error error => exact ih r

theorem events_ofOffers_perm (es : List Event) : (ofOffers es).events.Perm (empty.accepted es) := by
  have hrun := foldl_offer_perm empty es
  rwa [empty, List.append_nil] at hrun

theorem LabelsApart.get?_eq_some (h : r.LabelsApart) {id : Text} :
    r.get? id = some e ↔ e ∈ r.events ∧ e.id = id := by
  have hids : r.ids.Nodup := List.Nodup.of_map labelSafe h
  exact Lookup.find?_key_eq_some hids

end Contents

section Refusal

theorem exists_register_eq_error : (∃ error, r.register e = .error error) ↔
    ∃ id ∈ r.ids, labelSafe id = labelSafe e.id := by
  cases hr : r.register e with
  | ok r' =>
    have hfree := (register_eq_ok.1 hr).1
    simpa [ids] using hfree
  | error error =>
    refine iff_of_true ⟨error, rfl⟩ (by_contra fun hnone => ?_)
    have hok : r.register e = .ok ⟨insert e r.events⟩ :=
      register_eq_ok.2 ⟨by simpa [ids] using hnone, rfl⟩
    rw [hr] at hok
    cases hok

theorem LabelsApart.refuses_of_register (h : r.LabelsApart) (hr : r.register e = .error error) :
    Refuses r e error := by
  rw [Registry.register] at hr
  split at hr
  · cases hr
    exact .duplicate (isSome_get?.1 ‹_›)
  · rename_i hfree
    split at hr
    · rename_i f hfind
      cases hr
      have hf : f.id ∈ r.ids := List.mem_map_of_mem (List.mem_of_find?_eq_some hfind)
      have hlabel : labelSafe f.id = labelSafe e.id := by simpa using List.find?_some hfind
      exact .collision (mt isSome_get?.2 hfree) hf hlabel fun other hother hsame =>
        (h.labelSafe_inj hother hf).1 (hsame.trans hlabel.symm)
    · cases hr

theorem Refuses.unique {error' : EventError} (h : Refuses r e error) (h' : Refuses r e error') :
    error = error' := by
  cases h with
  | duplicate hid =>
    cases h' with
    | duplicate => rfl
    | collision hfree => exact absurd hid hfree
  | collision hfree hid hlabel =>
    cases h' with
    | duplicate hid => exact absurd hid hfree
    | collision _ _ _ hone => rw [hone _ hid hlabel]

theorem Refuses.exists_label (h : Refuses r e error) :
    ∃ id ∈ r.ids, labelSafe id = labelSafe e.id := by
  cases h with
  | duplicate hid => exact ⟨e.id, hid, rfl⟩
  | collision _ hid hlabel => exact ⟨_, hid, hlabel⟩

theorem LabelsApart.register_eq_error (h : r.LabelsApart) :
    r.register e = .error error ↔ Refuses r e error := by
  refine ⟨h.refuses_of_register, fun hrefuses => ?_⟩
  obtain ⟨error', hr⟩ := exists_register_eq_error.2 hrefuses.exists_label
  rw [hr, hrefuses.unique (h.refuses_of_register hr)]

theorem offer_of_error (h : r.register e = .error error) : r.offer e = r := by
  rw [offer, h]

end Refusal

section InPlace

def registerInPlace (e : Event) : EStateM EventError Registry Unit := do
  let r ← get
  if (r.get? e.id).isSome then throw (.duplicateId e.id)
  match r.events.find? (labelSafe ·.id == labelSafe e.id) with
  | some f => throw (.labelCollision e.id f.id)
  | none => set (⟨insert e r.events⟩ : Registry)

theorem run_registerInPlace (r : Registry) (e : Event) :
    (registerInPlace e).run r = settle r ((r.register e).map fun r' => ((), r')) := by
  rw [registerInPlace, run_bind_ok (EStateM.run_get r), register]
  by_cases htaken : (r.get? e.id).isSome
  · rw [if_pos htaken, if_pos htaken]
    rfl
  · rw [if_neg htaken, if_neg htaken]
    cases r.events.find? (labelSafe ·.id == labelSafe e.id) with
    | none => rfl
    | some f => rfl

end InPlace

/-- What a registry holds and does after any run of offers. The label-safe forms of its ids differ. An
event is found by its id and by no other text, and it is there just when it was taken in. The events
stand in ascending order of the bytes of their ids, each once, and there are as many as were taken in.
A further event is refused just when the label-safe form of its id is taken, and the error says why,
with the one id that stands in the way; the registry is then as before, also where it is changed in
place. -/
theorem ofOffers_holds_accepted (es : List Event) :
    ((ofOffers es).ids.map labelSafe).Nodup ∧
      (∀ id e, (ofOffers es).get? id = some e ↔ e ∈ empty.accepted es ∧ e.id = id) ∧
      (ofOffers es).events.Perm (empty.accepted es) ∧
      (ofOffers es).ids.Pairwise (fun a b => utf8 a < utf8 b) ∧
      (ofOffers es).events.length = (empty.accepted es).length ∧
      ∀ e, ((∃ error, (ofOffers es).register e = .error error) ↔
          ∃ id ∈ (ofOffers es).ids, labelSafe id = labelSafe e.id) ∧
        (∀ error, ((ofOffers es).register e = .error error ↔ Refuses (ofOffers es) e error) ∧
          ((ofOffers es).register e = .error error → (ofOffers es).offer e = ofOffers es)) ∧
        (registerInPlace e).run (ofOffers es) =
          settle (ofOffers es) (((ofOffers es).register e).map fun r => ((), r)) := by
  have hapart := labelsApart_ofOffers es
  have hperm := events_ofOffers_perm es
  refine ⟨hapart, fun id e => ?_, hperm, ?_, hperm.length_eq, fun e => ⟨exists_register_eq_error,
    fun error => ⟨hapart.register_eq_error, offer_of_error⟩, run_registerInPlace _ e⟩⟩
  · rw [hapart.get?_eq_some, hperm.mem_iff]
  · exact List.pairwise_map.2 ((ascending_ofOffers es).imp utf8_lt_of_lt)

def idleEvent (id : Text) : Event :=
  ⟨id, id, .landedOn, .direct, [], [], fun buffer _ _ => (.ok (.assembly []), buffer)⟩

/-- The ids `A B` and `A_B` have their label-safe form in common. -/
theorem ofOffers_holds_accepted_collision :
    (ofOffers [idleEvent "A B"]).register (idleEvent "A_B") = .error (.labelCollision "A_B" "A B") ∧
      (registerInPlace (idleEvent "A_B")).run (ofOffers [idleEvent "A B"]) =
        .error (.labelCollision "A_B" "A B") (ofOffers [idleEvent "A B"]) := by
  obtain ⟨-, -, -, -, -, hregister⟩ := ofOffers_holds_accepted [idleEvent "A B"]
  obtain ⟨-, herror, hplace⟩ := hregister (idleEvent "A_B")
  have hrefuses : Refuses (ofOffers [idleEvent "A B"]) (idleEvent "A_B")
      (.labelCollision "A_B" "A B") :=
    .collision (by decide) (by decide) (by decide) (by decide)
  have hrefused := (herror _).1.2 hrefuses
  rw [hrefused] at hplace
  exact ⟨hrefused, hplace⟩

end CartPatch.Event.Registry
