import CartPatch.Proofs.Outcome
import CartPatch.Proofs.Text.Numeral

/-!
What a numeral says, apart from how it is read. A text of digits denotes the number with these
digits in its base, the greatest place first; one plus sign may stand before it. The readers of
numerals accept exactly these texts, up to their limits: `readNat_eq_ok` and, with a sign,
`readInt_eq_ok`.
-/

namespace CartPatch.Numeral

/-- A text of digits, at least one, and their number in a base. -/
def Denotes (base : ℕ) (t : Text) (n : ℕ) : Prop :=
  t ≠ [] ∧ ∃ ds : List ℕ, t.map (digitValue? base) = ds.map some ∧ Nat.ofDigits base ds.reverse = n

/-- Digits and their number, with at most one plus sign before them. -/
def Unsigned (base : ℕ) (t : Text) (n : ℕ) : Prop :=
  Denotes base t n ∨ ∃ digits, t = '+' :: digits ∧ Denotes base digits n

/-- Digits and their number, with at most one sign before them. -/
def Signed (base : ℕ) (t : Text) (v : ℤ) : Prop :=
  (∃ n : ℕ, Unsigned base t n ∧ v = n) ∨
    ∃ (digits : Text) (n : ℕ), t = '-' :: digits ∧ Denotes base digits n ∧ v = -n

section Characters

variable {base d n : ℕ} {c : Char} {t : Text}

theorem lt_of_digitValue? (h : digitValue? base c = some d) : d < base := by
  simp only [digitValue?, Option.ite_none_right_eq_some, Option.some.injEq] at h
  exact h.2 ▸ h.1

theorem digitValue?_of_isAlphanum_eq_false (h : c.isAlphanum = false) :
    digitValue? base c = none := by
  delta Char.isAlphanum Char.isAlpha Char.isUpper Char.isLower Char.isDigit at h
  simp only [ge_iff_le, Bool.or_eq_false_iff, ← Bool.decide_and, decide_eq_false_iff_not] at h
  obtain ⟨⟨hupper, hlower⟩, hdigit⟩ := h
  replace hupper : ¬('A' ≤ c ∧ c ≤ 'Z') := hupper
  replace hlower : ¬('a' ≤ c ∧ c ≤ 'z') := hlower
  replace hdigit : ¬('0' ≤ c ∧ c ≤ '9') := hdigit
  simp [digitValue?, hdigit, hlower, hupper]

theorem isAlphanum_of_digitValue? (h : digitValue? base c = some d) : c.isAlphanum = true := by
  by_contra hc
  rw [digitValue?_of_isAlphanum_eq_false (Bool.eq_false_iff.2 hc)] at h
  cases h

theorem Denotes.mem (h : Denotes base t n) (hc : c ∈ t) : ∃ d, digitValue? base c = some d := by
  obtain ⟨-, ds, hds, -⟩ := h
  have hmem : digitValue? base c ∈ ds.map some := hds ▸ List.mem_map_of_mem hc
  obtain ⟨d, -, hd⟩ := List.mem_map.1 hmem
  exact ⟨d, hd.symm⟩

theorem Unsigned.mem (h : Unsigned base t n) (hc : c ∈ t) :
    c = '+' ∨ ∃ d, digitValue? base c = some d := by
  rcases h with h | ⟨digits, rfl, h⟩
  · exact .inr (h.mem hc)
  · exact (List.mem_cons.1 hc).imp_right h.mem

theorem Signed.mem {v : ℤ} (h : Signed base t v) (hc : c ∈ t) :
    c = '-' ∨ c = '+' ∨ ∃ d, digitValue? base c = some d := by
  rcases h with ⟨n, h, -⟩ | ⟨digits, n, rfl, h, -⟩
  · exact .inr (h.mem hc)
  · exact (List.mem_cons.1 hc).imp_right fun hc => .inr (h.mem hc)

theorem not_denotes_cons (hc : digitValue? base c = none) : ¬Denotes base (c :: t) n := fun h => by
  obtain ⟨d, hd⟩ := h.mem List.mem_cons_self
  simp [hc] at hd

theorem Signed.ne_nil {v : ℤ} (h : Signed base t v) : t ≠ [] := by
  rcases h with ⟨n, h | ⟨digits, rfl, -⟩, -⟩ | ⟨digits, n, rfl, -⟩
  · exact h.1
  · simp
  · simp

/-- Digits announce no base: the letter of a mark is none of them. -/
theorem Signed.splitBase_eq {v : ℤ} (hbase : base ≤ 16) (h : Signed base t v) :
    splitBase t = (10, t) := by
  have hnone : digitValue? base 'x' = none ∧ digitValue? base 'X' = none := by
    simp [digitValue?]
    omega
  have hletter : ∀ c ∈ t, c ≠ 'x' ∧ c ≠ 'X' := by
    intro c hc
    rcases h.mem hc with rfl | rfl | ⟨d, hd⟩
    · decide
    · decide
    · constructor <;> rintro rfl <;> simp [hnone] at hd
  unfold splitBase
  split
  · exact absurd rfl (hletter 'x' (by simp)).1
  · exact absurd rfl (hletter 'X' (by simp)).2
  · rfl

end Characters

section Readers

variable {base limit half n : ℕ} {v : ℤ} {t : Text}

theorem le_foldl_digits {base read : ℕ} (hbase : 0 < base) (ds : List ℕ) :
    read ≤ ds.foldl (fun m d => m * base + d) read := by
  induction ds generalizing read with
  | nil => exact Nat.le_refl read
  | cons d ds ih =>
    have hstep : read ≤ read * base + d := Nat.le_add_right_of_le (Nat.le_mul_of_pos_right read hbase)
    exact hstep.trans ih

/-- Reading digits succeeds when all of them are digits and their number is in range: the numbers
in between only grow. -/
theorem readDigits_eq_ok {read : ℕ} (hread : read ≤ limit) :
    readDigits base limit read t = .ok n ↔ n ≤ limit ∧ ∃ ds : List ℕ,
      t.map (digitValue? base) = ds.map some ∧ ds.foldl (fun m d => m * base + d) read = n := by
  induction t generalizing read with
  | nil =>
    simp only [readDigits, Except.ok.injEq, List.map_nil, List.nil_eq, List.map_eq_nil_iff]
    constructor
    · rintro rfl
      exact ⟨hread, [], rfl, rfl⟩
    · rintro ⟨-, ds, rfl, h⟩
      exact h
  | cons c t ih =>
    rw [readDigits]
    cases hc : digitValue? base c with
    | none =>
      refine iff_of_false (fun h => by cases h) ?_
      rintro ⟨-, ds, hds, -⟩
      cases ds <;> simp [hc] at hds
    | some d =>
      have hbase : 0 < base := (Nat.zero_le d).trans_lt (lt_of_digitValue? hc)
      dsimp only
      constructor
      · intro h
        split at h
        · obtain ⟨hn, ds, hds, hsum⟩ := (ih ‹_›).1 h
          exact ⟨hn, d :: ds, by simp [hc, hds], hsum⟩
        · cases h
      · rintro ⟨hn, ds, hds, hsum⟩
        cases ds with
        | nil => simp at hds
        | cons d' ds =>
          simp only [List.map_cons, hc, List.cons.injEq, Option.some.injEq] at hds
          obtain ⟨rfl, hds⟩ := hds
          have hle : read * base + d ≤ limit := (le_foldl_digits hbase ds).trans (hsum.trans_le hn)
          rw [if_pos hle]
          exact (ih hle).2 ⟨hn, ds, hds, hsum⟩

theorem ofDigits_reverse (base : ℕ) (ds : List ℕ) :
    Nat.ofDigits base ds.reverse = ds.foldl (fun m d => m * base + d) 0 := by
  rw [Nat.ofDigits_eq_foldr, List.foldr_reverse]
  congr
  funext m d
  rw [Nat.cast_id, Nat.mul_comm, Nat.add_comm]

theorem readDigits_zero_eq_ok (hne : t ≠ []) :
    readDigits base limit 0 t = .ok n ↔ Denotes base t n ∧ n ≤ limit := by
  simp only [readDigits_eq_ok (Nat.zero_le limit), Denotes, ofDigits_reverse, ne_eq, hne,
    not_false_eq_true, true_and, and_comm]

theorem readSigned_eq_ok : readSigned base limit t = .ok n ↔ Denotes base t n ∧ n ≤ limit := by
  rw [readSigned]
  by_cases h : t = []
  · simp [Denotes, h]
  · rw [if_neg (by simpa using h), readDigits_zero_eq_ok h]

theorem readNat_eq_ok : readNat base limit t = .ok n ↔ Unsigned base t n ∧ n ≤ limit := by
  have hplus {digits : Text} : ¬Denotes base ('+' :: digits) n :=
    not_denotes_cons (digitValue?_of_isAlphanum_eq_false (by decide))
  unfold readNat
  split
  · simp [Unsigned, Denotes]
  · simp [readSigned_eq_ok, Unsigned, hplus]
  · rename_i hnil hsign
    rw [readDigits_zero_eq_ok hnil, Unsigned,
      or_iff_left fun ⟨digits, h, _⟩ => hsign digits h]

theorem readWord_eq_ok {word : UInt32} :
    readWord base t = .ok word ↔ Unsigned base t word.toNat := by
  rw [readWord, Outcome.map_eq_ok]
  constructor
  · rintro ⟨n, hread, rfl⟩
    obtain ⟨h, hn⟩ := readNat_eq_ok.1 hread
    have hword : (UInt32.ofNat n).toNat = n := by
      rw [UInt32.toNat_ofNat']
      exact Nat.mod_eq_of_lt (Nat.lt_succ_of_le hn)
    rwa [hword]
  · intro h
    have hlt := word.toNat_lt
    exact ⟨word.toNat, readNat_eq_ok.2 ⟨h, by rw [maxWord]; omega⟩, UInt32.ofNat_toNat⟩

theorem readInt_eq_ok (hhalf : 0 < half) :
    readInt base half t = .ok v ↔ Signed base t v ∧ -half ≤ v ∧ v < half := by
  unfold readInt
  split
  · rename_i digits
    have hplain : ¬∃ n : ℕ, Unsigned base ('-' :: digits) n ∧ v = n := by
      rintro ⟨n, h, -⟩
      have hminus : digitValue? base '-' = none := digitValue?_of_isAlphanum_eq_false (by decide)
      simp [Unsigned, not_denotes_cons hminus] at h
    have hsigned : Signed base ('-' :: digits) v ∧ -half ≤ v ∧ v < half ↔
        ∃ n : ℕ, readSigned base half digits = .ok n ∧ v = -n := by
      simp only [Signed, hplain, false_or, List.cons.injEq, true_and, exists_and_left,
        exists_eq_left', readSigned_eq_ok]
      constructor
      · rintro ⟨⟨n, h, rfl⟩, hlow, -⟩
        exact ⟨n, ⟨h, by omega⟩, rfl⟩
      · rintro ⟨n, ⟨h, hn⟩, rfl⟩
        exact ⟨⟨n, h, rfl⟩, by omega, by omega⟩
    rw [hsigned]
    cases readSigned base half digits with
    | ok n => simp [eq_comm]
    | error fault => cases fault <;> simp
  · rename_i hsign
    simp only [Outcome.map_eq_ok, readNat_eq_ok, Int.ofNat_eq_natCast]
    constructor
    · rintro ⟨n, ⟨h, hn⟩, rfl⟩
      exact ⟨.inl ⟨n, h, rfl⟩, by omega, by omega⟩
    · rintro ⟨⟨n, h, rfl⟩ | ⟨digits, n, h, -⟩, -, hhigh⟩
      · exact ⟨n, ⟨h, by omega⟩, rfl⟩
      · exact absurd h (hsign digits)

end Readers

theorem denotes_decimal (n : ℕ) : Denotes 10 (decimal n) n :=
  ((readDigits_zero_eq_ok (decimal_ne_nil n)).1 (readDigits_decimal (Nat.le_refl n))).1

theorem denotes_capitalHex (width n : ℕ) : Denotes 16 (capitalHex width n) n :=
  ((readDigits_zero_eq_ok (capitalHex_ne_nil width n)).1
    (readDigits_capitalHex (Nat.le_refl n))).1

end CartPatch.Numeral
