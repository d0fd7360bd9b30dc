import CartPatch.HexDump
import CartPatch.Proofs.Bytes
import CartPatch.Proofs.Text.Cut
import CartPatch.Proofs.Text.Digits
import CartPatch.Proofs.Text.Remarks

/-!
Dumps that are read back. A dump has the words of its bytes in rows of one length, but for the last, and
each row stands on a line of its own behind its address (`lines_eq_map`, `lines_dump`). So the words
without the addresses are the words of the bytes, and nothing is lost but how many zeros at the end
filled up the last word (`read_dump`).
-/

namespace CartPatch.HexDump

open Numeral Text

variable {stride : ℕ} {base : UInt32} {ws : List UInt32} {l : Text}

def behindAddress (line : Text) : Text := ((cut? (· == ':') line).map Prod.snd).getD line

/-- The words of a dump as they are written, without the addresses of its lines. -/
def writtenWords (t : Text) : List Text := (Text.lines t).flatMap fun line => words (behindAddress line)

/-- Reads the words of a dump and lays out their bytes. -/
def read (t : Text) : Except NumeralFault Bytes :=
  ((writtenWords t).mapM (readWord 16)).map Bytes.ofWords

def row (ws : List UInt32) : Text := ws.flatMap fun w => ' ' :: capitalHex 8 w.toNat

theorem row_cons (w : UInt32) (ws : List UInt32) :
    row (w :: ws) = ' ' :: (capitalHex 8 w.toNat ++ row ws) := rfl

section Words

theorem behindAddress_line (address : UInt32) (ws : List UInt32) :
    behindAddress (line address ws) = row ws := by
  have hcolon : ':' ∉ capitalHex 8 address.toNat := fun hmem => absurd (mem_capitalHex hmem) (by decide)
  rw [behindAddress, line, cut?_of_not_mem hcolon]
  rfl

theorem words_append_row (s : Text) (ws : List UInt32) :
    words (s ++ row ws) = words s ++ ws.map fun w => capitalHex 8 w.toNat := by
  induction ws generalizing s with
  | nil => simp [row]
  | cons w ws ih =>
    rw [row_cons, words_append_cons (by decide), ih, words_of_isSolid (isSolid_capitalHex 8 _)]
    rfl

theorem words_row (ws : List UInt32) : words (row ws) = ws.map fun w => capitalHex 8 w.toNat :=
  words_append_row [] ws

theorem readWord_capitalHex (w : UInt32) : readWord 16 (capitalHex 8 w.toNat) = .ok w :=
  readWord_eq_ok.2 (.inl (denotes_capitalHex 8 w.toNat))

theorem mapM_readWord (ws : List UInt32) :
    (ws.map fun w => capitalHex 8 w.toNat).mapM (readWord 16) = .ok ws := by
  have hread : readWord 16 ∘ (fun w : UInt32 => capitalHex 8 w.toNat) = fun w => pure w :=
    funext readWord_capitalHex
  rw [List.mapM_map, hread, List.mapM_pure, List.map_id']
  rfl

theorem flatMap_words_lines (stride : ℕ) (base : UInt32) (ws : List UInt32) :
    ((lines stride base ws).flatMap fun l => words (behindAddress l)) =
      ws.map fun w => capitalHex 8 w.toNat := by
  fun_induction HexDump.lines stride base ws with
  | case1 => rfl
  | case2 base ws hne ih =>
    rw [List.flatMap_cons, ih, behindAddress_line, words_row, ← List.map_append,
      List.take_append_drop]

end Words

section Lines

/-- One line takes up to `stride + 1` words, and as many lines follow as the words behind them need. -/
theorem count_of_pos {m : ℕ} (hm : 0 < m) :
    (m + stride) / (stride + 1) = (m - (stride + 1) + stride) / (stride + 1) + 1 := by
  rcases Nat.le_total (stride + 1) m with h | h
  · rw [← Nat.add_div_right _ (Nat.succ_pos stride)]
    congr 1
    omega
  · rw [Nat.sub_eq_zero_of_le h, Nat.div_eq_of_lt (by omega : 0 + stride < stride + 1),
      Nat.div_eq_iff (by omega)]
    omega

/-- The lines by their numbers: each has the words from its number times the words of a full line on,
and counts its address alike. -/
theorem lines_eq_map (stride : ℕ) (base : UInt32) (ws : List UInt32) :
    lines stride base ws = (List.range ((ws.length + stride) / (stride + 1))).map fun k =>
      line (base + 4 * UInt32.ofNat (k * (stride + 1)))
        ((ws.drop (k * (stride + 1))).take (stride + 1)) := by
  fun_induction HexDump.lines stride base ws with
  | case1 base => simp
  | case2 base ws hne ih =>
    rw [ih, count_of_pos (List.length_pos_iff.2 hne), List.length_drop, List.range_succ_eq_map,
      List.map_cons, List.map_map]
    congr 1
    · simp
    · refine List.map_congr_left fun k _ => ?_
      have hk : k.succ * (stride + 1) = stride + 1 + k * (stride + 1) := by
        rw [Nat.succ_mul, Nat.add_comm]
      rw [Function.comp_apply, hk, List.drop_drop, UInt32.ofNat_add (stride + 1), UInt32.mul_add,
        UInt32.add_assoc]

theorem toNat_address (base : UInt32) (n : ℕ) :
    (base + 4 * UInt32.ofNat n).toNat = (base.toNat + 4 * n) % 2 ^ 32 := by
  have hfour : (4 : UInt32).toNat = 4 := rfl
  rw [UInt32.toNat_add, UInt32.toNat_mul, UInt32.toNat_ofNat', hfour]
  omega

theorem onlySpaces_append_row {s : Text} (hs : OnlySpaces s) (ws : List UInt32) :
    OnlySpaces (s ++ row ws) := by
  induction ws generalizing s with
  | nil => rwa [row, List.flatMap_nil, List.append_nil]
  | cons w ws ih =>
    rw [row_cons, ← List.cons_append, ← List.append_assoc]
    exact ih (hs.append_space (isSolid_capitalHex 8 _).onlySpaces)

theorem onlySpaces_line (address : UInt32) (ws : List UInt32) : OnlySpaces (line address ws) := by
  have hcolon : IsSolid [':'] := by decide
  have hline : line address ws = capitalHex 8 address.toNat ++ [':'] ++ row ws := by
    rw [List.append_assoc]
    rfl
  rw [hline]
  exact onlySpaces_append_row (isSolid_append (isSolid_capitalHex 8 _) hcolon).onlySpaces ws

theorem of_mem_lines (h : l ∈ lines stride base ws) : l ≠ [] ∧ '\n' ∉ l ∧ l.getLast? ≠ some '\r' := by
  rw [lines_eq_map] at h
  obtain ⟨k, -, rfl⟩ := List.mem_map.1 h
  exact ⟨by simp [line], (onlySpaces_line _ _).notMem_end⟩

end Lines

section Dump

variable (bytes : Bytes) (base : UInt32) (stride : ℕ)

theorem lines_dump :
    Text.lines (dump bytes base stride) = lines (stride - 1) base bytes.paddedWords :=
  lines_intercalate fun _ hl => of_mem_lines hl

theorem head?_dump : (dump bytes base stride).head? ≠ some '\n' := by
  rw [dump, head?_intercalate fun l hl => (of_mem_lines hl).1]
  intro h
  obtain ⟨l, hl, hfeed⟩ := Option.bind_eq_some_iff.1 h
  exact (of_mem_lines (List.mem_of_mem_head? hl)).2.1 (List.mem_of_mem_head? hfeed)

theorem getLast?_dump : (dump bytes base stride).getLast? ≠ some '\n' := by
  rw [dump, getLast?_intercalate fun l hl => (of_mem_lines hl).1]
  intro h
  obtain ⟨l, hl, hfeed⟩ := Option.bind_eq_some_iff.1 h
  exact (of_mem_lines (List.mem_of_getLast? hl)).2.1 (List.mem_of_getLast? hfeed)

theorem read_dump_eq_ok :
    read (dump bytes base stride) = .ok (bytes.rightpad (4 * ((bytes.length + 3) / 4)) 0) := by
  rw [read, writtenWords, lines_dump, flatMap_words_lines, mapM_readWord, ← Bytes.ofWords_paddedWords]
  rfl

end Dump

/-- A dump, its addresses left out, is read as the bytes with zeros up to a multiple of four. For `w`
words, `d` on a line, it has as many lines as these take, and on every line but the last are `d` words.
The line with number `k` begins with the address of its first word, counted from the base, and no line
feed stands at either end of the dump. -/
theorem read_dump (bytes : Bytes) (base : UInt32) (stride : ℕ) :
    let w := (bytes.length + 3) / 4
    let d := max stride 1
    let n := (w + d - 1) / d
    let printed := dump bytes base stride
    read printed = .ok (bytes.rightpad (4 * w) 0) ∧
      (Text.lines printed).length = n ∧
      (∀ k l, (Text.lines printed)[k]? = some l → ∃ rest,
        l = capitalHex 8 ((base.toNat + 4 * k * d) % 2 ^ 32) ++ ':' :: rest ∧
          (words rest).length = min d (w - k * d) ∧ (k + 1 < n → (words rest).length = d)) ∧
      printed.head? ≠ some '\n' ∧ printed.getLast? ≠ some '\n' := by
  intro w d n printed
  obtain ⟨m, hm⟩ : ∃ m, d = m + 1 := ⟨d - 1, by omega⟩
  have hstride : stride - 1 = m := by omega
  have hn : (w + m) / d = n := by
    congr 1
    omega
  have hlines : Text.lines printed = (List.range n).map fun k =>
      line (base + 4 * UInt32.ofNat (k * d)) ((bytes.paddedWords.drop (k * d)).take d) := by
    rw [lines_dump, lines_eq_map, Bytes.length_paddedWords, hstride, ← hm, hn]
  refine ⟨read_dump_eq_ok bytes base stride, ?_, fun k l hl => ?_, head?_dump bytes base stride,
    getLast?_dump bytes base stride⟩
  · rw [hlines, List.length_map, List.length_range]
  · rw [hlines] at hl
    obtain ⟨-, rfl⟩ := List.getElem?_eq_some_iff.1 hl
    rw [List.getElem_map, List.getElem_range]
    have hcount : (words (row ((bytes.paddedWords.drop (k * d)).take d))).length =
        min d (w - k * d) := by
      rw [words_row, List.length_map, List.length_take, List.length_drop, Bytes.length_paddedWords]
    refine ⟨row ((bytes.paddedWords.drop (k * d)).take d), ?_, hcount, fun hk => ?_⟩
    · rw [line, toNat_address, Nat.mul_assoc]
      rfl
    · -- As another line follows, the words do not end on this one.
      have hfull : (k + 1 + 1) * d ≤ w + d - 1 := (Nat.le_div_iff_mul_le (by omega)).1 hk
      rw [Nat.add_mul, Nat.add_mul, Nat.one_mul] at hfull
      rw [hcount]
      omega

/-- The addresses go on from zero behind the last one. -/
example : dump [1, 2, 3, 4, 5] 0xFFFFFFFC 1 = "FFFFFFFC: 01020304\n00000000: 05000000" := by
  decide +kernel

end CartPatch.HexDump
