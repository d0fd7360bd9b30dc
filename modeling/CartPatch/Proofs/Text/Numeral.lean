import Mathlib.Data.Bool.AllAny
import Mathlib.Data.Nat.Digits.Defs
import Mathlib.Tactic.Linarith
import CartPatch.Text.Numeral

/-!
Printed numerals are read back. A printer may change each digit as long as its value stays, so
small and capital letters are covered by one statement, `readDigits_map_toDigits`; zeros in front
do not count. Each printer also comes with the list of characters that it uses.
-/

namespace CartPatch.Numeral

def decimalDigits : Text := "0123456789"

def capitalDigits : Text := "0123456789ABCDEF"

theorem digitValue?_digitChar {base d : ℕ} (hbase : base ≤ 16) (hd : d < base) :
    digitValue? base d.digitChar = some d := by
  have hall : ∀ b ≤ 16, ∀ e < b, digitValue? b e.digitChar = some e := by decide +kernel
  exact hall base hbase d hd

theorem digitValue?_toUpper_digitChar {d : ℕ} (hd : d < 16) :
    digitValue? 16 d.digitChar.toUpper = some d := by
  revert d
  decide +kernel

theorem digitChar_mem_decimalDigits {d : ℕ} (hd : d < 10) : d.digitChar ∈ decimalDigits := by
  revert d
  decide +kernel

theorem toUpper_digitChar_mem_capitalDigits {d : ℕ} (hd : d < 16) :
    d.digitChar.toUpper ∈ capitalDigits := by
  revert d
  decide +kernel

theorem readDigits_append {base limit read n : ℕ} {s : Text} (t : Text)
    (h : readDigits base limit read s = .ok n) :
    readDigits base limit read (s ++ t) = readDigits base limit n t := by
  induction s generalizing read with
  | nil =>
    cases h
    rfl
  | cons c s ih =>
    simp only [readDigits, List.cons_append] at h ⊢
    cases hc : digitValue? base c with
    | none => simp [hc] at h
    | some d =>
      simp only [hc] at h ⊢
      split at h
      · rw [if_pos ‹_›]
        exact ih h
      · cases h

theorem readDigits_replicate_zero {base limit : ℕ} (hbase : 0 < base) (k : ℕ) (t : Text) :
    readDigits base limit 0 (List.replicate k '0' ++ t) = readDigits base limit 0 t := by
  induction k with
  | zero => rfl
  | succ k ih =>
    have h0 : digitValue? base '0' = some 0 := by simp [digitValue?, hbase]
    simp [List.replicate_succ, readDigits, h0, ih]

/-- Digits are read back when `f` keeps the value of each of them. -/
theorem readDigits_map_toDigits {base limit n : ℕ} {f : Char → Char} (hbase : 1 < base)
    (hf : ∀ d < base, digitValue? base (f d.digitChar) = some d) (hn : n ≤ limit) :
    readDigits base limit 0 ((Nat.toDigits base n).map f) = .ok n := by
  induction n using Nat.base_induction base hbase with
  | single m hm =>
    rw [Nat.toDigits_of_lt_base hm]
    simp [readDigits, hf m hm, hn]
  | digit m k hk hm ih =>
    have hle : m ≤ limit := by nlinarith
    have hv : m * base + k = base * m + k := by rw [Nat.mul_comm]
    rw [← Nat.toDigits_append_toDigits hbase hm hk, List.map_append, readDigits_append _ (ih hle),
      Nat.toDigits_of_lt_base hk]
    simp [readDigits, hf k hk, hv, hn]

theorem mem_map_toDigits {base n : ℕ} {f : Char → Char} {digits : Text} (hbase : 1 < base)
    (hf : ∀ d < base, f d.digitChar ∈ digits) {c : Char}
    (hc : c ∈ (Nat.toDigits base n).map f) : c ∈ digits := by
  induction n using Nat.base_induction base hbase with
  | single m hm =>
    rw [Nat.toDigits_of_lt_base hm] at hc
    obtain rfl := List.mem_singleton.1 hc
    exact hf m hm
  | digit m k hk hm ih =>
    rw [← Nat.toDigits_append_toDigits hbase hm hk, List.map_append, List.mem_append,
      Nat.toDigits_of_lt_base hk] at hc
    rcases hc with hc | hc
    · exact ih hc
    · obtain rfl := List.mem_singleton.1 hc
      exact hf k hk

theorem capitalHex_eq (width n : ℕ) :
    capitalHex width n = List.replicate (width - (Nat.toDigits 16 n).length) '0' ++
      (Nat.toDigits 16 n).map Char.toUpper := by
  simp [capitalHex, hex, Text.padLeft]

theorem mem_capitalHex {width n : ℕ} {c : Char} (hc : c ∈ capitalHex width n) :
    c ∈ capitalDigits := by
  rw [capitalHex_eq, List.mem_append] at hc
  rcases hc with hc | hc
  · obtain rfl := List.eq_of_mem_replicate hc
    decide
  · exact mem_map_toDigits (by decide) (fun d hd => toUpper_digitChar_mem_capitalDigits hd) hc

theorem mem_decimal {n : ℕ} {c : Char} (hc : c ∈ decimal n) : c ∈ decimalDigits := by
  apply mem_map_toDigits (f := id) (by decide : 1 < 10) (fun d hd => digitChar_mem_decimalDigits hd)
  simpa [decimal] using hc

theorem capitalHex_ne_nil (width n : ℕ) : capitalHex width n ≠ [] := by
  simp [capitalHex_eq]

theorem decimal_ne_nil (n : ℕ) : decimal n ≠ [] := Nat.toDigits_ne_nil

theorem readDigits_capitalHex {width n limit : ℕ} (hn : n ≤ limit) :
    readDigits 16 limit 0 (capitalHex width n) = .ok n := by
  rw [capitalHex_eq, readDigits_replicate_zero (by decide)]
  exact readDigits_map_toDigits (by decide) (fun d hd => digitValue?_toUpper_digitChar hd) hn

theorem readDigits_decimal {n limit : ℕ} (hn : n ≤ limit) :
    readDigits 10 limit 0 (decimal n) = .ok n := by
  have h := readDigits_map_toDigits (f := id) (by decide)
    (fun d hd => digitValue?_digitChar (by decide : 10 ≤ 16) hd) hn
  simpa only [decimal, List.map_id] using h

theorem decimal_inj {m n : ℕ} : decimal m = decimal n ↔ m = n := by
  refine ⟨fun h => ?_, congrArg decimal⟩
  have hm := readDigits_decimal (Nat.le_max_left m n)
  rw [h, readDigits_decimal (Nat.le_max_right m n)] at hm
  exact (Except.ok.inj hm).symm

end CartPatch.Numeral
