import CartPatch.Text.Basic

/-!
Names in texts: where a name is found first, and which characters two names have in common that
differ in the case of letters only.
-/

namespace CartPatch.Text

theorem after?_append (p r : Text) : after? p (p ++ r) = some r := by
  induction p with
  | nil => exact after?_nil r
  | cons c p ih => simpa [after?] using ih

theorem after?_eq_none {p t : Text} : after? p t = none ↔ ¬p <+: t := by
  induction p generalizing t with
  | nil => simp
  | cons a p ih =>
    cases t with
    | nil => simp [after?]
    | cons c t => by_cases h : a = c <;> simp [after?, h, ih]

theorem afterFirst?_append {c : Char} {w : Text} (h : c ∉ w) (p r : Text) :
    afterFirst? (c :: p) (w ++ c :: p ++ r) = some r := by
  induction w with
  | nil =>
    rw [List.nil_append, List.cons_append, afterFirst?, ← List.cons_append, after?_append]
    rfl
  | cons d w ih =>
    obtain ⟨hd, hw⟩ : c ≠ d ∧ c ∉ w := by simpa using h
    rw [List.cons_append, List.cons_append, afterFirst?, ih hw]
    simp [after?, hd]

theorem eq_dot_of_toLower {c : Char} (h : c.toLower = '.') : c = '.' := by
  have hval := congrArg Char.toNat h
  unfold Char.toLower at h hval
  split at h
  · rename_i hupper
    obtain ⟨hleast, hlargest⟩ := hupper
    have hA := UInt32.le_iff_toNat_le.1 hleast
    have hZ := UInt32.le_iff_toNat_le.1 hlargest
    simp only [hleast, hlargest, Char.toNat, and_self, dite_true, UInt32.toNat_add,
      UInt32.toNat_sub] at hval
    grind
  · exact h

theorem head?_of_sameName {a b : Text} (h : sameName a ('.' :: b) = true) : a.head? = some '.' := by
  cases a with
  | nil => simp [sameName, lower] at h
  | cons c a =>
    obtain ⟨hc, -⟩ : c.toLower = '.' ∧ lower a = lower b := by simpa [sameName, lower] using h
    rw [List.head?_cons, eq_dot_of_toLower hc]

/-- A name differs from every name that has a character that it lacks, but for capital letters. -/
theorem sameName_of_mem {c : Char} {a b : Text} (hc : c.toLower = c) (ha : c ∈ a)
    (hb : c ∉ lower b) : sameName a b = false := by
  have hmem : c ∈ lower a := List.mem_map.2 ⟨c, ha, hc⟩
  rw [sameName, beq_eq_false_iff_ne]
  exact fun h => hb (h ▸ hmem)

end CartPatch.Text
