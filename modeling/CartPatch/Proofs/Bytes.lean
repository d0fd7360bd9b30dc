import CartPatch.Bytes
import Mathlib.Data.Nat.Notation

/-!
Byte strings as words (`ofWords_paddedWords`), and byte strings of which part is replaced. The part
reads as what was written (`take_drop_overwrite`), and every part that has no byte in common with it
reads as before (`take_drop_overwrite_of_apart`). Parts may be written one behind the other
(`overwrite_append`).
-/

namespace CartPatch.Bytes

theorem length_words (bytes : Bytes) : (words bytes).length = bytes.length / 4 := by
  induction bytes using words.induct with
  | case1 a b c d rest ih =>
    rw [words]
    simp only [List.length_cons, ih]
    omega
  | case2 bytes hshort =>
    rw [words.eq_2 bytes hshort]
    have hlength : bytes.length < 4 := by
      rcases bytes with _ | ⟨a, _ | ⟨b, _ | ⟨c, _ | ⟨d, rest⟩⟩⟩⟩
      iterate 4 simp
      exact absurd rfl (hshort a b c d rest)
    rw [Nat.div_eq_of_lt hlength]
    rfl

theorem half_ofHalf (h : UInt16) :
    half (UInt8.ofNat (h.toNat / 0x100)) (UInt8.ofNat h.toNat) = h := by
  have hlt := h.toNat_lt
  apply UInt16.toNat_inj.1
  simp only [half, UInt8.toNat_ofNat', UInt16.toNat_ofNat']
  omega

theorem ofHalf_half (a b : UInt8) : ofHalf (half a b) = [a, b] := by
  have ha := a.toNat_lt
  have hb := b.toNat_lt
  simp only [ofHalf, half, List.cons.injEq, and_true]
  constructor <;>
  · apply UInt8.toNat_inj.1
    rw [UInt8.toNat_ofNat', UInt16.toNat_ofNat']
    omega

theorem ofWord_word (a b c d : UInt8) : ofWord (word a b c d) = [a, b, c, d] := by
  have ha := a.toNat_lt
  have hb := b.toNat_lt
  have hc := c.toNat_lt
  have hd := d.toNat_lt
  simp only [ofWord, word, List.cons.injEq, and_true]
  refine ⟨?_, ?_, ?_, ?_⟩ <;>
  · apply UInt8.toNat_inj.1
    rw [UInt8.toNat_ofNat', UInt32.toNat_ofNat']
    omega

theorem length_paddedWords (bytes : Bytes) : bytes.paddedWords.length = (bytes.length + 3) / 4 := by
  fun_induction paddedWords bytes with
  | case1 a b c d rest ih =>
    simp only [List.length_cons, ih]
    omega
  | _ => simp

theorem ofWords_paddedWords (bytes : Bytes) :
    ofWords bytes.paddedWords = bytes.rightpad (4 * ((bytes.length + 3) / 4)) 0 := by
  fun_induction paddedWords bytes with
  | case1 a b c d rest ih =>
    have hzeros : 4 * ((rest.length + 1 + 1 + 1 + 1 + 3) / 4) - (rest.length + 1 + 1 + 1 + 1) =
        4 * ((rest.length + 3) / 4) - rest.length := by omega
    rw [ofWords_cons, ofWord_word, ih]
    simp only [List.rightpad, List.length_cons, hzeros, List.cons_append, List.nil_append]
  | _ => simp [ofWord_word, List.rightpad]

/-- The `m` bytes at `a` and the `n` bytes at `b` have no byte in common. -/
def Apart (a m b n : ℕ) : Prop := ∀ i < m, ∀ j < n, a + i ≠ b + j

theorem apart_of_le {a m b n : ℕ} (h : a + m ≤ b ∨ b + n ≤ a) : Apart a m b n := by
  intro i hi j hj
  omega

variable {bytes new : Bytes} {offset : ℕ}

theorem getElem?_overwrite (h : offset + new.length ≤ bytes.length) (i : ℕ) :
    (overwrite bytes offset new)[i]? =
      if offset ≤ i ∧ i < offset + new.length then new[i - offset]? else bytes[i]? := by
  have hfront : (bytes.take offset).length = offset := by
    rw [List.length_take]
    omega
  rw [overwrite, List.append_assoc, List.getElem?_append, hfront]
  split
  · rw [if_neg (by omega), List.getElem?_take_of_lt ‹_›]
  · rw [List.getElem?_append]
    split
    · rw [if_pos (by omega)]
    · rw [if_neg (by omega), List.getElem?_drop]
      congr 1
      omega

theorem overwrite_append {a b : Bytes} (h : offset + (a ++ b).length ≤ bytes.length) :
    overwrite (overwrite bytes offset a) (offset + a.length) b =
      overwrite bytes offset (a ++ b) := by
  rw [List.length_append] at h
  refine List.ext_getElem? fun i => ?_
  have ha : offset + a.length ≤ bytes.length := by omega
  rw [getElem?_overwrite (by rw [length_overwrite ha]; omega), getElem?_overwrite ha,
    getElem?_overwrite (by rw [List.length_append]; omega), List.length_append,
    List.getElem?_append]
  grind

theorem overwrite_take_drop (bytes : Bytes) (offset size : ℕ) :
    overwrite bytes offset ((bytes.drop offset).take size) = bytes := by
  rw [overwrite, ← List.drop_drop, List.length_take, List.append_assoc]
  rcases Nat.le_total size (bytes.drop offset).length with h | h
  · rw [Nat.min_eq_left h, List.take_append_drop, List.take_append_drop]
  · rw [Nat.min_eq_right h, List.take_of_length_le h, List.drop_length, List.append_nil,
      List.take_append_drop]

theorem overwrite_take_append {size : ℕ} {new : Bytes}
    (h : offset + size + new.length ≤ bytes.length) :
    overwrite bytes offset ((bytes.drop offset).take size ++ new) =
      overwrite bytes (offset + size) new := by
  have hsize : ((bytes.drop offset).take size).length = size := by
    rw [List.length_take, List.length_drop]
    omega
  rw [← overwrite_append (by rw [List.length_append, hsize]; omega), overwrite_take_drop, hsize]

theorem take_drop_overwrite (h : offset + new.length ≤ bytes.length) :
    ((overwrite bytes offset new).drop offset).take new.length = new := by
  have hfront : (bytes.take offset).length = offset := by
    rw [List.length_take]
    omega
  rw [overwrite, List.append_assoc, List.drop_left' hfront, List.take_left]

theorem take_drop_overwrite_of_apart {first size : ℕ} (h : offset + new.length ≤ bytes.length)
    (hapart : Apart first size offset new.length) :
    ((overwrite bytes offset new).drop first).take size = (bytes.drop first).take size := by
  refine List.ext_getElem? fun i => ?_
  simp only [List.getElem?_take, List.getElem?_drop]
  split
  · rw [getElem?_overwrite h, if_neg]
    rintro ⟨hfirst, hlast⟩
    exact hapart i ‹_› (first + i - offset) (by omega) (by omega)
  · rfl

end CartPatch.Bytes
