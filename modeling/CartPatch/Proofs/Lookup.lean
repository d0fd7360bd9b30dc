import CartPatch.Text.Basic
import Mathlib.Data.List.Nodup

/-!
Look-ups in lists where at most one element can be meant. The first element that is found is then the
only one, and where it stands does not matter. Where every element may count, what all of them give is
a list of its own (`Gathers`).
-/

namespace CartPatch.Lookup

variable {α β : Type} {l : List α} {a : α}

/-- What the elements of a list give, in order. Not every element gives something. -/
inductive Gathers (gives : α → β → Prop) : List α → List β → Prop where
  | nil : Gathers gives [] []
  | given {a : α} {b : β} {as : List α} {bs : List β} (h : gives a b) (hrest : Gathers gives as bs) :
      Gathers gives (a :: as) (b :: bs)
  | other {a : α} {as : List α} {bs : List β} (h : ∀ b, ¬gives a b) (hrest : Gathers gives as bs) :
      Gathers gives (a :: as) bs

theorem gathers_iff {gives : α → β → Prop} {f : α → Option β} {bs : List β}
    (hf : ∀ a b, f a = some b ↔ gives a b) : Gathers gives l bs ↔ bs = l.filterMap f := by
  constructor
  · intro h
    induction h with
    | nil => rfl
    | given h _ ih => rw [List.filterMap_cons_some ((hf _ _).2 h), ih]
    | other h _ ih =>
      have hnone := Option.eq_none_iff_forall_ne_some.2 fun b hb => h b ((hf _ _).1 hb)
      rw [List.filterMap_cons_none hnone, ih]
  · rintro rfl
    induction l with
    | nil => exact .nil
    | cons a l ih =>
      cases hfirst : f a with
      | none =>
        rw [List.filterMap_cons_none hfirst]
        exact .other (fun b hb => by simp [(hf a b).2 hb] at hfirst) ih
      | some b =>
        rw [List.filterMap_cons_some hfirst]
        exact .given ((hf a b).1 hfirst) ih

theorem find?_eq_some_iff_of_unique {p : α → Bool}
    (hone : ∀ a ∈ l, ∀ b ∈ l, p a = true → p b = true → a = b) :
    l.find? p = some a ↔ a ∈ l ∧ p a = true := by
  constructor
  · exact fun h => ⟨List.mem_of_find?_eq_some h, List.find?_some h⟩
  · rintro ⟨ha, hp⟩
    obtain ⟨b, hb⟩ := Option.isSome_iff_exists.1 (List.find?_isSome.2 ⟨a, ha, hp⟩)
    rw [hb, hone b (List.mem_of_find?_eq_some hb) a ha (List.find?_some hb) hp]

theorem find?_key_eq_some [BEq β] [LawfulBEq β] {key : α → β} (h : (l.map key).Nodup) {k : β} :
    l.find? (key · == k) = some a ↔ a ∈ l ∧ key a = k := by
  rw [find?_eq_some_iff_of_unique, beq_iff_eq]
  intro a ha b hb hka hkb
  exact List.inj_on_of_nodup_map h ha hb ((beq_iff_eq.1 hka).trans (beq_iff_eq.1 hkb).symm)

theorem find?_sameName_eq_some {name : α → Text} (h : (l.map fun a => Text.lower (name a)).Nodup)
    {t : Text} : l.find? (fun a => Text.sameName (name a) t) = some a ↔
      a ∈ l ∧ Text.sameName (name a) t = true := by
  apply find?_eq_some_iff_of_unique
  intro a ha b hb hta htb
  exact List.inj_on_of_nodup_map h ha hb ((eq_of_beq hta).trans (eq_of_beq htb).symm)

end CartPatch.Lookup
