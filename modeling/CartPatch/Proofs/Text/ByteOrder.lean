import CartPatch.Text.Basic
import Mathlib.Data.List.Basic
import Mathlib.Tactic.SplitIfs

/-!
The bytes of texts in UTF-8. The order of texts by their bytes is the order by their characters, and a
text has as many bytes as characters when each of these has one.
-/

namespace CartPatch.Text

def utf8 (t : Text) : List UInt8 := t.flatMap String.utf8EncodeChar

theorem utf8_cons (c : Char) (t : Text) : utf8 (c :: t) = String.utf8EncodeChar c ++ utf8 t := rfl

/-- A smaller character has smaller bytes, whatever stands behind them: the first byte is the larger
the more bytes there are, and the places of the code follow, high ones first. -/
theorem utf8EncodeChar_append_lt {c d : Char} (h : c < d) (x y : List UInt8) :
    String.utf8EncodeChar c ++ x < String.utf8EncodeChar d ++ y := by
  have hval : c.val.toNat < d.val.toNat := UInt32.lt_iff_toNat_lt.1 h
  have hlast : d.val.toNat < 0x110000 := d.valid.elim (fun hlow => by omega) fun hhigh => hhigh.2
  unfold String.utf8EncodeChar
  generalize c.val.toNat = m at hval
  generalize d.val.toNat = n at hval hlast
  dsimp only
  split_ifs <;>
    simp (disch := omega) only [List.cons_append, List.nil_append, List.cons_lt_cons_iff,
      UInt8.lt_iff_toNat_lt, UInt8.toNat_ofNat', ← UInt8.toNat_inj, Nat.mod_eq_of_lt] <;>
    omega

theorem utf8_lt_of_lt {a b : Text} (h : a < b) : utf8 a < utf8 b := by
  induction h with
  | @nil c b =>
    obtain ⟨byte, bytes, hbytes⟩ := List.exists_cons_of_ne_nil (String.utf8EncodeChar_ne_nil (c := c))
    rw [utf8_cons, hbytes]
    exact .nil
  | cons h ih => exact List.append_left_lt ih
  | rel h => exact utf8EncodeChar_append_lt h _ _

theorem utf8ByteSize_eq_length {t : Text} (hone : ∀ c ∈ t, c.utf8Size = 1) :
    (String.ofList t).utf8ByteSize = t.length := by
  induction t with
  | nil => rfl
  | cons c t ih =>
    obtain ⟨hc, ht⟩ := List.forall_mem_cons.1 hone
    rw [String.ofList_cons, String.utf8ByteSize_append, String.utf8ByteSize_singleton, hc, ih ht,
      List.length_cons, Nat.add_comm]

end CartPatch.Text
