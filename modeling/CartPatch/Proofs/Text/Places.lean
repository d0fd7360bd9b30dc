import CartPatch.Proofs.Text.Blank
import CartPatch.Proofs.Text.Digits
import Mathlib.Data.Nat.Digits.Lemmas

/-!
The places of a numeral. A numeral with few places says a small number (`Denotes.lt_pow`), a numeral
that is cut in two says the numbers of its high and of its low places (`denotes_append`), and as many
digits for the same number are the same digits, but for the case of letters
(`Denotes.map_toUpper_eq`).
-/

namespace CartPatch.Numeral

variable {base d n : ℕ} {c : Char} {s t u : Text}

section Values

theorem lt_of_map_digitValue? {ds : List ℕ} (h : t.map (digitValue? base) = ds.map some) :
    ∀ d ∈ ds, d < base := by
  intro d hd
  have hmem : some d ∈ t.map (digitValue? base) := h ▸ List.mem_map_of_mem hd
  obtain ⟨c, -, hc⟩ := List.mem_map.1 hmem
  exact lt_of_digitValue? hc

theorem length_of_map_digitValue? {ds : List ℕ} (h : t.map (digitValue? base) = ds.map some) :
    ds.length = t.length := by
  simpa using congrArg List.length h.symm

theorem Denotes.lt_pow (hbase : 1 < base) (h : Denotes base t n) : n < base ^ t.length := by
  obtain ⟨-, ds, hds, rfl⟩ := h
  rw [← length_of_map_digitValue? hds, ← List.length_reverse]
  exact Nat.ofDigits_lt_base_pow_length hbase
    fun d hd => lt_of_map_digitValue? hds d (List.mem_reverse.1 hd)

/-- The high places count as often as the low places leave room. -/
theorem denotes_append (hs : s ≠ []) (ht : t ≠ []) :
    Denotes base (s ++ t) n ↔
      ∃ high low, Denotes base s high ∧ Denotes base t low ∧ n = high * base ^ t.length + low := by
  have hsum {ds : List ℕ} (high : List ℕ) (hds : t.map (digitValue? base) = ds.map some) :
      Nat.ofDigits base (high ++ ds).reverse =
        Nat.ofDigits base high.reverse * base ^ t.length + Nat.ofDigits base ds.reverse := by
    rw [List.reverse_append, Nat.ofDigits_append, List.length_reverse,
      length_of_map_digitValue? hds, Nat.mul_comm, Nat.add_comm]
  constructor
  · rintro ⟨-, ds, hds, rfl⟩
    rw [List.map_append] at hds
    obtain ⟨high, low, rfl, hhigh, hlow⟩ := List.map_eq_append_iff.1 hds.symm
    exact ⟨_, _, ⟨hs, high, hhigh.symm, rfl⟩, ⟨ht, low, hlow.symm, rfl⟩, hsum high hlow.symm⟩
  · rintro ⟨_, _, ⟨-, high, hhigh, rfl⟩, ⟨-, low, hlow, rfl⟩, rfl⟩
    exact ⟨by simp [hs], high ++ low, by rw [List.map_append, List.map_append, hhigh, hlow],
      hsum high hlow⟩

theorem Unsigned.of_length (h : Unsigned base t n) (hbase : 1 < base)
    (hn : base ^ (t.length - 1) ≤ n) : Denotes base t n := by
  refine h.resolve_right ?_
  rintro ⟨digits, rfl, hdigits⟩
  exact absurd (hdigits.lt_pow hbase) (Nat.not_lt.2 hn)

theorem Unsigned.lt_pow (hbase : 1 < base) (h : Unsigned base t n) : n < base ^ t.length := by
  rcases h with h | ⟨digits, rfl, h⟩
  · exact h.lt_pow hbase
  · exact (h.lt_pow hbase).trans (Nat.pow_lt_pow_right hbase (Nat.lt_succ_self _))

end Values

section Capitals

theorem toUpper_of_digitValue? (h : digitValue? 16 c = some d) :
    c.toUpper = d.digitChar.toUpper := by
  have hall : ∀ k < 0x80, ∀ d < 16, digitValue? 16 (Char.ofNat k) = some d →
      (Char.ofNat k).toUpper = d.digitChar.toUpper := by
    decide +kernel
  have hc := hall c.toNat (Text.toNat_lt_of_isAlphanum (isAlphanum_of_digitValue? h)) d
    (lt_of_digitValue? h)
  rw [Char.ofNat_toNat] at hc
  exact hc h

/-- As many digits for the same number are the same digits, but for the case of letters. -/
theorem Denotes.map_toUpper_eq (ht : Denotes 16 t n) (hu : Denotes 16 u n)
    (hlength : t.length = u.length) : t.map Char.toUpper = u.map Char.toUpper := by
  have hcapitals {t : Text} {ds : List ℕ} (h : t.map (digitValue? 16) = ds.map some) :
      t.map Char.toUpper = ds.map fun d => d.digitChar.toUpper := by
    induction t generalizing ds with
    | nil => simp_all
    | cons c t ih =>
      cases ds with
      | nil => simp at h
      | cons d ds =>
        obtain ⟨hc, ht⟩ := List.cons.inj h
        rw [List.map_cons, List.map_cons, toUpper_of_digitValue? hc, ih ht]
  obtain ⟨-, ds, hds, rfl⟩ := ht
  obtain ⟨-, ds', hds', hsame⟩ := hu
  have hreverse : ds'.reverse = ds.reverse := by
    refine Nat.ofDigits_inj_of_len_eq (by decide : 1 < 16) ?_ ?_ ?_ hsame
    · rw [List.length_reverse, List.length_reverse, length_of_map_digitValue? hds,
        length_of_map_digitValue? hds', hlength]
    · exact fun d hd => lt_of_map_digitValue? hds' d (List.mem_reverse.1 hd)
    · exact fun d hd => lt_of_map_digitValue? hds d (List.mem_reverse.1 hd)
  rw [hcapitals hds, hcapitals hds', List.reverse_inj.1 hreverse]

theorem map_toUpper_capitalHex (width n : ℕ) :
    (capitalHex width n).map Char.toUpper = capitalHex width n := by
  have hcapitals : ∀ c ∈ capitalDigits, c.toUpper = c := List.all_iff_forall_prop.1 (by decide)
  rw [List.map_congr_left fun c hc => hcapitals c (mem_capitalHex hc), List.map_id']

theorem length_capitalHex {width : ℕ} (hwidth : 0 < width) (h : n < 16 ^ width) :
    (capitalHex width n).length = width := by
  have hdigits := Nat.toDigits_length 16 n width hwidth h
  rw [capitalHex_eq, List.length_append, List.length_replicate, List.length_map]
  omega

end Capitals

end CartPatch.Numeral
