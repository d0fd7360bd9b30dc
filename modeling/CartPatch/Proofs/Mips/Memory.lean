import Mathlib.Data.List.GetD
import CartPatch.Bytes

/-!
Memory as the machine has it: a byte at every address, and words and half words with the most
significant byte first. Addresses wrap around, so what lies where is said by the distance from a
first address. Bytes that were written are read back, and everything else stays as it was.
-/

namespace CartPatch.Mips

abbrev Memory := UInt32 → UInt8

/-- The address of a word in a row of words, counted from zero. -/
def place (base : UInt32) (n : ℕ) : UInt32 := base + UInt32.ofNat (4 * n)

/-- Whether an address is one of `size` addresses in a row. -/
def Within (first : UInt32) (size : ℕ) (address : UInt32) : Prop := (address - first).toNat < size

instance (first : UInt32) (size : ℕ) (address : UInt32) : Decidable (Within first size address) :=
  inferInstanceAs (Decidable (_ < _))

@[simp] theorem place_zero (base : UInt32) : place base 0 = base := by simp [place]

theorem place_place (base : UInt32) (m n : ℕ) : place (place base m) n = place base (m + n) := by
  rw [place, place, place, Nat.mul_add, UInt32.ofNat_add]
  grind

theorem place_succ (base : UInt32) (n : ℕ) : place base (n + 1) = place base n + 4 := by
  rw [← place_place]
  rfl

theorem place_add_four (base : UInt32) (n : ℕ) : place (base + 4) n = place base (n + 1) := by
  rw [Nat.add_comm, ← place_place]
  rfl

theorem within_add_ofNat {first : UInt32} {size k : ℕ} (hk : k < size) (hsize : k < 0x100000000) :
    Within first size (first + UInt32.ofNat k) := by
  have hdistance : first + UInt32.ofNat k - first = UInt32.ofNat k := by grind
  rw [Within, hdistance, UInt32.toNat_ofNat']
  omega

theorem within_of_within_place {base x : UInt32} {i n : ℕ} (h : Within (place base i) 4 x)
    (hi : i < n) (hsize : 4 * n ≤ 0x100000000) : Within base (4 * n) x := by
  have hsub : x - base = x - place base i + UInt32.ofNat (4 * i) := by
    rw [place]
    grind
  rw [Within] at h ⊢
  rw [hsub, UInt32.toNat_add, UInt32.toNat_ofNat']
  omega

theorem within_below {top x : UInt32} {n k : ℕ} (hn : n ≤ top.toNat) (hk : k ≤ n) :
    Within (top - UInt32.ofNat n) k x ↔
      top.toNat - n ≤ x.toNat ∧ x.toNat < top.toNat - n + k := by
  have htop := top.toNat_lt
  have hx := x.toNat_lt
  have hfirst : (top - UInt32.ofNat n).toNat = top.toNat - n := by
    rw [UInt32.toNat_sub, UInt32.toNat_ofNat']
    omega
  rw [Within, UInt32.toNat_sub, hfirst]
  omega

namespace Memory

def half (m : Memory) (a : UInt32) : UInt16 := Bytes.half (m a) (m (a + 1))

def word (m : Memory) (a : UInt32) : UInt32 := Bytes.word (m a) (m (a + 1)) (m (a + 2)) (m (a + 3))

/-- The memory with bytes written in a row, the first one at an address. -/
def write (m : Memory) (a : UInt32) (bytes : Bytes) : Memory :=
  fun x => bytes.getD (x - a).toNat (m x)

theorem write_nil (m : Memory) (a : UInt32) : m.write a [] = m := rfl

theorem write_of_not_within {m : Memory} {a x : UInt32} {bytes : Bytes}
    (h : ¬Within a bytes.length x) : m.write a bytes x = m x := by
  unfold write
  rw [List.getD_eq_default]
  simpa [Within] using h

theorem write_of_within {m m' : Memory} {a x : UInt32} {bytes : Bytes}
    (h : Within a bytes.length x) : m.write a bytes x = m'.write a bytes x := by
  unfold write
  rw [List.getD_eq_getElem _ _ h, List.getD_eq_getElem _ _ h]

theorem write_add_ofNat (m : Memory) (a : UInt32) {bytes : Bytes} {k : ℕ} (hk : k < bytes.length)
    (hsize : bytes.length ≤ 0x100000000) : m.write a bytes (a + UInt32.ofNat k) = bytes[k] := by
  have hdistance : (a + UInt32.ofNat k - a).toNat = k := by
    have heq : a + UInt32.ofNat k - a = UInt32.ofNat k := by grind
    rw [heq, UInt32.toNat_ofNat']
    omega
  rw [write, hdistance, List.getD_eq_getElem _ _ hk]

theorem write_append (m : Memory) (a : UInt32) {xs ys : Bytes}
    (hsize : xs.length + ys.length ≤ 0x100000000) :
    (m.write a xs).write (a + UInt32.ofNat xs.length) ys = m.write a (xs ++ ys) := by
  funext x
  have hx := (x - a).toNat_lt
  have hsub : x - (a + UInt32.ofNat xs.length) = x - a - UInt32.ofNat xs.length := by grind
  have hdistance : (x - (a + UInt32.ofNat xs.length)).toNat =
      if xs.length ≤ (x - a).toNat then (x - a).toNat - xs.length
      else (x - a).toNat + 0x100000000 - xs.length := by
    rw [hsub, UInt32.toNat_sub, UInt32.toNat_ofNat']
    split <;> omega
  simp only [write, hdistance]
  by_cases h : xs.length ≤ (x - a).toNat
  · rw [if_pos h, List.getD_append_right _ _ _ _ h, List.getD_eq_default xs _ h]
  · rw [if_neg h, List.getD_append _ _ _ _ (by omega), List.getD_eq_default ys _ (by omega)]

theorem half_congr {m m' : Memory} {a : UInt32} (h : ∀ x, Within a 2 x → m x = m' x) :
    m.half a = m'.half a := by
  have hbyte (k : ℕ) (hk : k < 2) : m (a + UInt32.ofNat k) = m' (a + UInt32.ofNat k) :=
    h _ (within_add_ofNat hk (by omega))
  have h₀ := hbyte 0 (by omega)
  have h₁ := hbyte 1 (by omega)
  simp only [UInt32.reduceOfNat, UInt32.add_zero] at h₀ h₁
  rw [half, half, h₀, h₁]

theorem word_congr {m m' : Memory} {a : UInt32} (h : ∀ x, Within a 4 x → m x = m' x) :
    m.word a = m'.word a := by
  have hbyte (k : ℕ) (hk : k < 4) : m (a + UInt32.ofNat k) = m' (a + UInt32.ofNat k) :=
    h _ (within_add_ofNat hk (by omega))
  have h₀ := hbyte 0 (by omega)
  have h₁ := hbyte 1 (by omega)
  have h₂ := hbyte 2 (by omega)
  have h₃ := hbyte 3 (by omega)
  simp only [UInt32.reduceOfNat, UInt32.add_zero] at h₀ h₁ h₂ h₃
  rw [word, word, h₀, h₁, h₂, h₃]

theorem word_write_ofWord_append (m : Memory) (a w : UInt32) {rest : Bytes}
    (hsize : rest.length + 4 ≤ 0x100000000) :
    (m.write a (Bytes.ofWord w ++ rest)).word a = w := by
  have hbyte (k : ℕ) (hk : k < 4) :
      m.write a (Bytes.ofWord w ++ rest) (a + UInt32.ofNat k) = (Bytes.ofWord w)[k] := by
    have hlength : k < (Bytes.ofWord w).length := by simpa using hk
    rw [write_add_ofNat _ _ (by simp; omega) (by simp; omega), List.getElem_append_left hlength]
    rfl
  have h₀ := hbyte 0 (by omega)
  have h₁ := hbyte 1 (by omega)
  have h₂ := hbyte 2 (by omega)
  have h₃ := hbyte 3 (by omega)
  simp only [UInt32.reduceOfNat, UInt32.add_zero] at h₀ h₁ h₂ h₃
  rw [word, h₀, h₁, h₂, h₃]
  exact Bytes.word_ofWord w

@[simp] theorem word_write_ofWord (m : Memory) (a w : UInt32) :
    (m.write a (Bytes.ofWord w)).word a = w := by
  have hsize : ([] : Bytes).length + 4 ≤ 0x100000000 := by decide
  simpa using word_write_ofWord_append m a w hsize

theorem word_write_ofWords (m : Memory) (a : UInt32) {ws : List UInt32} {i : ℕ}
    (hi : i < ws.length) (hsize : 4 * ws.length ≤ 0x100000000) :
    (m.write a (Bytes.ofWords ws)).word (place a i) = ws[i] := by
  induction ws generalizing m a i with
  | nil => simp at hi
  | cons w ws ih =>
    have hlength : 4 * ws.length + 4 ≤ 0x100000000 := by
      simp only [List.length_cons] at hsize
      omega
    cases i with
    | zero =>
      rw [Bytes.ofWords_cons, place_zero]
      exact word_write_ofWord_append m a w (by simpa using hlength)
    | succ i =>
      have hsplit : m.write a (Bytes.ofWords (w :: ws)) =
          (m.write a (Bytes.ofWord w)).write (a + 4) (Bytes.ofWords ws) := by
        rw [Bytes.ofWords_cons, ← write_append m a (by simp; omega)]
        rfl
      rw [hsplit, ← place_add_four]
      exact ih _ _ (by simpa using hi) (by omega)

end Memory

end CartPatch.Mips
