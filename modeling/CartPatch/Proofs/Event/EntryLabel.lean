import CartPatch.Event.Custom
import CartPatch.Proofs.Event.Registry
import CartPatch.Proofs.Text.Numeral

/-!
When two entry labels are one. An entry label joins the label-safe form of an id and one or two
numbers by underscores, which a label-safe form may have as well. A number behind the last
underscore is recognised, for numerals are free of underscores (`numbered_inj`). So labels with the
same count of numbers tell the id and the numbers apart; but the label of an id with two numbers is
also the label of a longer id with one, when the longer id ends in the first of the numbers.

A registry compares label-safe forms only, and takes in both ids of such a pair.
-/

namespace CartPatch.Event

open Numeral

variable {a b : Text} {s t : UInt16} {o p : Option ℕ}

def numbered (x : Text) (n : ℕ) : Text := x ++ '_' :: decimal n

theorem underscore_notMem_decimal (n : ℕ) : '_' ∉ decimal n := fun h => by
  have hdigit := mem_decimal h
  revert hdigit
  decide

theorem numbered_inj {x y : Text} {m n : ℕ} : numbered x m = numbered y n ↔ x = y ∧ m = n := by
  constructor
  · intro h
    -- The two underscores are the last of their sides, so neither lies in front of the other.
    rcases List.append_eq_append_iff.1 h with ⟨z, rfl, hz⟩ | ⟨z, rfl, hz⟩ <;>
      rcases List.cons_eq_append_iff.1 hz with ⟨rfl, htail⟩ | ⟨z', rfl, htail⟩
    · exact ⟨by simp, (decimal_inj.1 (List.cons.inj htail).2).symm⟩
    · exact absurd (htail ▸ by simp) (underscore_notMem_decimal m)
    · exact ⟨by simp, decimal_inj.1 (List.cons.inj htail).2⟩
    · exact absurd (htail ▸ by simp) (underscore_notMem_decimal n)
  · rintro ⟨rfl, rfl⟩
    rfl

theorem numbered_ne (x : Text) (n : ℕ) : numbered x n ≠ x := fun h => by
  have hlength := congrArg List.length h
  simp [numbered] at hlength

def entryStart : Text := Assembly.reservedStart ++ "EVENT_"

theorem entryLabel_none (id : Text) (space : UInt16) :
    entryLabel id space none = entryStart ++ numbered (labelSafe id) space.toNat := by
  simp [entryLabel, entryStart, numbered]

theorem entryLabel_some (id : Text) (space : UInt16) (n : ℕ) :
    entryLabel id space (some n) =
      entryStart ++ numbered (numbered (labelSafe id) space.toNat) n := by
  simp [entryLabel, entryStart, numbered]

theorem entryLabel_eq_iff : entryLabel a s o = entryLabel b t p ↔
    labelSafe a = labelSafe b ∧ s = t ∧ o = p ∨
      labelSafe b = numbered (labelSafe a) s.toNat ∧ o = some t.toNat ∧ p = none ∨
      labelSafe a = numbered (labelSafe b) t.toNat ∧ o = none ∧ p = some s.toNat := by
  cases o with
  | none =>
    cases p with
    | none => simp [entryLabel_none, numbered_inj, UInt16.toNat_inj]
    | some n =>
      simp [entryLabel_none, entryLabel_some, numbered_inj, eq_comm]
  | some m =>
    cases p with
    | none => simp [entryLabel_none, entryLabel_some, numbered_inj, eq_comm]
    | some n => simp [entryLabel_some, numbered_inj, UInt16.toNat_inj, and_assoc]

/-- The labels of one event tell the space and the ordinal. Those of two events of a registry are
the same in one case only, where the first has an ordinal and the second none or the other way
round: the id with the ordinal is continued by the other with the number of its space, and its
ordinal is the number of the other's space. -/
theorem Registry.entryLabel_shared_iff {es : List Event} (ha : a ∈ (ofOffers es).ids)
    (hb : b ∈ (ofOffers es).ids) :
    (entryLabel a s o = entryLabel a t p → s = t ∧ o = p) ∧
      (entryLabel a s o = entryLabel b t p ↔ a = b ∧ s = t ∧ o = p ∨
        labelSafe b = numbered (labelSafe a) s.toNat ∧ o = some t.toNat ∧ p = none ∨
        labelSafe a = numbered (labelSafe b) t.toNat ∧ o = none ∧ p = some s.toNat) := by
  constructor
  · intro h
    rcases entryLabel_eq_iff.1 h with ⟨-, heq⟩ | ⟨hid, -⟩ | ⟨hid, -⟩
    · exact heq
    · exact absurd hid.symm (numbered_ne _ _)
    · exact absurd hid.symm (numbered_ne _ _)
  · rw [entryLabel_eq_iff, (labelsApart_ofOffers es).labelSafe_inj ha hb]

/-- Custom events with the ids `A` and `A_1`. -/
def continuedEvents : List Event :=
  ["A", "A 1"].map fun name : String =>
    CustomEvent.toEvent ⟨name.toList, [.mp1Usa], .direct, [], []⟩

theorem Registry.entryLabel_shared_iff_continued :
    "A".toList ∈ (ofOffers continuedEvents).ids ∧ "A_1".toList ∈ (ofOffers continuedEvents).ids ∧
      entryLabel "A" 1 (some 3) ≠ entryLabel "A_1" 2 none ∧
      entryLabel "A" 1 (some 2) = entryLabel "A_1" 2 none := by
  have ha : "A".toList ∈ (ofOffers continuedEvents).ids := by decide +kernel
  have hb : "A_1".toList ∈ (ofOffers continuedEvents).ids := by decide +kernel
  refine ⟨ha, hb, ?_, ?_⟩
  · intro h
    exact absurd ((entryLabel_shared_iff ha hb).2.1 h) (by decide +kernel)
  · exact (entryLabel_shared_iff ha hb).2.2 (.inr (.inl (by decide +kernel)))

/-- Two events of a registry can have a label in common. -/
theorem Registry.entryLabel_shared : ∃ es : List Event,
    ∃ a ∈ (ofOffers es).ids, ∃ b ∈ (ofOffers es).ids, a ≠ b ∧
      ∃ s t o p, entryLabel a s o = entryLabel b t p :=
  ⟨continuedEvents, "A", by decide +kernel, "A_1", by decide +kernel, by decide, 1, 2, some 2, none,
    by decide +kernel⟩

end CartPatch.Event
