import CartPatch.Proofs.Event.Table
import Mathlib.Data.Nat.Basic
import Mathlib.Order.Interval.Set.Defs

/-!
Event tables as they are found in a buffer. There is a record every eight bytes, and the table ends
at the first record without an activation, as long as the buffer reaches behind that one
(`EndsBehind`). The reader finds just these tables (`parse_eq_ok`). Writing such a table back
where it was read puts every byte where it was, up to the activation of the terminator; behind that
the terminator is cleared (`image_records`).
-/

namespace CartPatch.Event.Table

variable {table : Table} {buffer : Bytes} {offset count : ℕ}

/-- The record at a position of a buffer; bytes behind the end of the buffer count as zeros. -/
def record (buffer : Bytes) (position : ℕ) : Entry :=
  let byte (i : ℕ) : UInt8 := buffer.getD (position + i) 0
  ⟨Bytes.half (byte 0) (byte 1), Bytes.half (byte 2) (byte 3),
    Bytes.word (byte 4) (byte 5) (byte 6) (byte 7)⟩

def records (buffer : Bytes) (offset count : ℕ) : Table :=
  (List.range count).map fun j => record buffer (offset + 8 * j)

/-- Behind `count` records with an activation stands one without, and all of them lie inside the
buffer. -/
structure EndsBehind (buffer : Bytes) (offset count : ℕ) : Prop where
  inside : offset + 8 * (count + 1) ≤ buffer.length
  last : (record buffer (offset + 8 * count)).activation = 0
  active : ∀ j < count, (record buffer (offset + 8 * j)).activation ≠ 0

section Records

@[simp] theorem records_zero (buffer : Bytes) (offset : ℕ) : records buffer offset 0 = [] := rfl

@[simp] theorem length_records (buffer : Bytes) (offset count : ℕ) :
    (records buffer offset count).length = count := by
  simp [records]

theorem records_succ (buffer : Bytes) (offset count : ℕ) :
    records buffer offset (count + 1) =
      record buffer offset :: records buffer (offset + 8) count := by
  simp only [records, List.range_succ_eq_map, List.map_cons, List.map_map, Nat.mul_zero,
    Nat.add_zero, List.cons.injEq, true_and]
  refine List.map_congr_left fun j _ => ?_
  rw [Function.comp_apply, Nat.mul_succ, Nat.add_assoc, Nat.add_comm 8]

theorem drop_eq_record (h : offset + 8 ≤ buffer.length) :
    buffer.drop offset = (record buffer offset).bytes ++ buffer.drop (offset + 8) := by
  have hbyte {i : ℕ} (hi : i < 8) :
      buffer.drop (offset + i) = buffer.getD (offset + i) 0 :: buffer.drop (offset + i + 1) := by
    rw [List.drop_eq_getElem_cons (by omega), List.getElem_eq_getD 0]
  have h0 := hbyte (by decide : 0 < 8)
  rw [hbyte (by decide : 1 < 8), hbyte (by decide : 2 < 8), hbyte (by decide : 3 < 8),
    hbyte (by decide : 4 < 8), hbyte (by decide : 5 < 8), hbyte (by decide : 6 < 8),
    hbyte (by decide : 7 < 8)] at h0
  simpa [record, Entry.bytes, Bytes.ofHalf_half, Bytes.ofWord_word] using h0

theorem record_congr {other : Bytes}
    (h : ∀ i < 8, other[offset + i]? = buffer[offset + i]?) :
    record other offset = record buffer offset := by
  have hbyte {i : ℕ} (hi : i < 8) : other.getD (offset + i) 0 = buffer.getD (offset + i) 0 := by
    rw [List.getD_eq_getElem?_getD, List.getD_eq_getElem?_getD, h i hi]
  simp only [record, hbyte (by decide : 0 < 8), hbyte (by decide : 1 < 8),
    hbyte (by decide : 2 < 8), hbyte (by decide : 3 < 8), hbyte (by decide : 4 < 8),
    hbyte (by decide : 5 < 8), hbyte (by decide : 6 < 8), hbyte (by decide : 7 < 8)]

end Records

section Reading

theorem endsBehind_zero : EndsBehind buffer offset 0 ↔
    offset + 8 ≤ buffer.length ∧ (record buffer offset).activation = 0 :=
  ⟨fun h => ⟨h.inside, h.last⟩, fun h => ⟨h.1, h.2, fun _ hj => absurd hj (Nat.not_lt_zero _)⟩⟩

theorem endsBehind_succ : EndsBehind buffer offset (count + 1) ↔
    offset + 8 ≤ buffer.length ∧ (record buffer offset).activation ≠ 0 ∧
      EndsBehind buffer (offset + 8) count := by
  have hplace (j : ℕ) : offset + 8 * (j + 1) = offset + 8 + 8 * j := by omega
  constructor
  · rintro ⟨hinside, hlast, hactive⟩
    refine ⟨by omega, hactive 0 (Nat.succ_pos _), by omega, hplace count ▸ hlast, fun j hj => ?_⟩
    rw [← hplace]
    exact hactive (j + 1) (Nat.succ_lt_succ hj)
  · rintro ⟨-, hfirst, hinside, hlast, hactive⟩
    refine ⟨by omega, (hplace count).symm ▸ hlast, fun j hj => ?_⟩
    cases j with
    | zero => exact hfirst
    | succ j =>
      rw [hplace]
      exact hactive j (Nat.lt_of_succ_lt_succ hj)

theorem entries?_of_length_lt {bytes : Bytes} (h : bytes.length < 8) : entries? bytes = none := by
  rcases bytes with
    _ | ⟨a, _ | ⟨b, _ | ⟨c, _ | ⟨d, _ | ⟨e, _ | ⟨f, _ | ⟨g, _ | ⟨k, rest⟩⟩⟩⟩⟩⟩⟩⟩
  iterate 8 rfl
  simp only [List.length_cons] at h
  omega

theorem entries?_drop_of_lt (h : buffer.length < offset + 8) :
    entries? (buffer.drop offset) = none := by
  refine entries?_of_length_lt ?_
  rw [List.length_drop]
  omega

theorem entries?_of_activation {e : Entry} (h : e.activation = 0) (rest : Bytes) :
    entries? (e.bytes ++ rest) = some [] := by
  simp only [Entry.bytes, Bytes.ofHalf, Bytes.ofWord, List.cons_append, List.nil_append, entries?,
    Bytes.half_ofHalf, if_pos h]

/-- The entries from a position on. The induction is on the entries, each of which takes the reader
eight bytes further. -/
theorem entries?_drop_eq_some : entries? (buffer.drop offset) = some table ↔
    EndsBehind buffer offset table.length ∧ table = records buffer offset table.length := by
  induction table generalizing offset with
  | nil =>
    rw [List.length_nil, endsBehind_zero, records_zero]
    by_cases hinside : offset + 8 ≤ buffer.length
    · rw [drop_eq_record hinside]
      by_cases hlast : (record buffer offset).activation = 0
      · simp [entries?_of_activation hlast, hinside, hlast]
      · simp [entries?_bytes_append hlast, hlast]
    · simp [entries?_drop_of_lt (Nat.not_le.1 hinside), hinside]
  | cons e table ih =>
    rw [List.length_cons, endsBehind_succ, records_succ, List.cons.injEq]
    by_cases hinside : offset + 8 ≤ buffer.length
    · rw [drop_eq_record hinside]
      by_cases hlast : (record buffer offset).activation = 0
      · simp [entries?_of_activation hlast, hlast]
      · simp only [entries?_bytes_append hlast, Option.map_eq_some_iff, List.cons.injEq]
        constructor
        · rintro ⟨_, hrest, rfl, rfl⟩
          obtain ⟨hends, hrecords⟩ := ih.1 hrest
          exact ⟨⟨hinside, hlast, hends⟩, rfl, hrecords⟩
        · rintro ⟨⟨-, -, hends⟩, rfl, hrecords⟩
          exact ⟨table, ih.2 ⟨hends, hrecords⟩, rfl, rfl⟩
    · simp [entries?_drop_of_lt (Nat.not_le.1 hinside), hinside]

theorem parse_eq_ok : parse buffer offset = .ok table ↔
    ∃ count, EndsBehind buffer offset count ∧ table = records buffer offset count := by
  have hentries : parse buffer offset = .ok table ↔ entries? (buffer.drop offset) = some table := by
    rw [parse]
    cases entries? (buffer.drop offset) <;> simp
  rw [hentries, entries?_drop_eq_some]
  constructor
  · intro h
    exact ⟨table.length, h⟩
  · rintro ⟨count, hends, rfl⟩
    rw [length_records]
    exact ⟨hends, rfl⟩

theorem parse_eq_error {error : TableError} : parse buffer offset = .error error ↔
    error = .truncated offset ∧ ¬∃ count, EndsBehind buffer offset count := by
  have hfails : (∃ count, EndsBehind buffer offset count) ↔
      ∃ table, parse buffer offset = .ok table := by
    simp only [parse_eq_ok]
    exact ⟨fun ⟨count, h⟩ => ⟨_, count, h, rfl⟩, fun ⟨_, count, h, _⟩ => ⟨count, h⟩⟩
  rw [hfails, parse]
  cases entries? (buffer.drop offset) <;> simp [eq_comm]

theorem EndsBehind.congr {other : Bytes} (h : EndsBehind buffer offset count)
    (hsame : ∀ i ∈ Set.Ico offset (offset + 8 * (count + 1)), other[i]? = buffer[i]?) :
    EndsBehind other offset count ∧ records other offset count = records buffer offset count := by
  have hinside := h.inside
  have hrecord {j : ℕ} (hj : j ≤ count) :
      record other (offset + 8 * j) = record buffer (offset + 8 * j) :=
    record_congr fun i hi => hsame _ ⟨by omega, by omega⟩
  have hend : offset + 8 * (count + 1) ≤ other.length := by
    have hlast : offset + 8 * count + 7 < buffer.length := by omega
    have hbyte := hsame (offset + 8 * count + 7) ⟨by omega, by omega⟩
    obtain ⟨hlt, -⟩ := List.getElem?_eq_some_iff.1 (hbyte.trans (List.getElem?_eq_getElem hlast))
    omega
  refine ⟨⟨hend, ?_, fun j hj => ?_⟩, List.map_congr_left fun j hj => ?_⟩
  · rw [hrecord (Nat.le_refl count)]
    exact h.last
  · rw [hrecord (Nat.le_of_lt hj)]
    exact h.active j hj
  · exact hrecord (Nat.le_of_lt (List.mem_range.1 hj))

end Reading

section WritingBack

/-- The image of the records of a table differs from the bytes that they were read from in the
terminator only, behind its activation. -/
theorem image_records (h : EndsBehind buffer offset count) :
    image (records buffer offset count) =
      (buffer.drop offset).take (8 * count + 2) ++ List.replicate 6 0 := by
  induction count generalizing offset with
  | zero =>
    obtain ⟨hinside, hlast⟩ := endsBehind_zero.1 h
    have hfront : (buffer.drop offset).take 2 = Bytes.ofHalf 0 := by
      rw [drop_eq_record hinside, Entry.bytes, hlast]
      rfl
    rw [records_zero, Nat.mul_zero, Nat.zero_add, hfront]
    rfl
  | succ count ih =>
    obtain ⟨hinside, -, hends⟩ := endsBehind_succ.1 h
    have himage : image (records buffer offset (count + 1)) =
        (record buffer offset).bytes ++ image (records buffer (offset + 8) count) := by
      rw [records_succ]
      rfl
    have hsize : 8 * (count + 1) + 2 = (record buffer offset).bytes.length + (8 * count + 2) := by
      rw [Entry.length_bytes, Entry.size]
      omega
    rw [himage, ih hends, drop_eq_record hinside, hsize, List.take_length_add_append,
      List.append_assoc]

theorem write_records (h : EndsBehind buffer offset count)
    (haddress : ∀ e ∈ records buffer offset count, e.address ≠ 0) :
    write (records buffer offset count) buffer offset =
      .ok (buffer.overwrite (offset + (8 * count + 2)) (List.replicate 6 0)) := by
  have hinside := h.inside
  have hstorable : ∀ e ∈ records buffer offset count, e.Storable := by
    intro e he
    refine ⟨?_, haddress e he⟩
    obtain ⟨j, hj, rfl⟩ := List.mem_map.1 he
    exact h.active j (List.mem_range.1 hj)
  have hfits : offset + byteLength (records buffer offset count).length ≤ buffer.length := by
    rw [length_records, byteLength, Entry.size]
    omega
  rw [write_eq_of_storable hstorable, if_pos hfits, image_records h,
    Bytes.overwrite_take_append (by rw [List.length_replicate]; omega)]

end WritingBack

/-- A table is read just when its records lie inside the buffer, up to the first without an
activation; it is the list of the records before that one, whatever the rest of the buffer holds,
and otherwise it is cut off. Written back where it was read, a table whose records all have an
address changes nothing but the terminator, which it clears behind the activation. -/
theorem parse_finds_records (buffer : Bytes) (offset : ℕ) :
    (∀ table, parse buffer offset = .ok table ↔
        ∃ count, EndsBehind buffer offset count ∧ table = records buffer offset count) ∧
      (∀ error, parse buffer offset = .error error ↔
        error = .truncated offset ∧ ¬∃ count, EndsBehind buffer offset count) ∧
      (∀ table other, parse buffer offset = .ok table →
        (∀ i ∈ Set.Ico offset (offset + 8 * (table.length + 1)), other[i]? = buffer[i]?) →
        parse other offset = .ok table) ∧
      ∀ table, parse buffer offset = .ok table → (∀ e ∈ table, e.address ≠ 0) →
        ∃ written, write table buffer offset = .ok written ∧
          ∀ i, written[i]? = if offset + 8 * table.length + 2 ≤ i ∧
            i < offset + 8 * table.length + 8 then some 0 else buffer[i]? := by
  refine ⟨fun _ => parse_eq_ok, fun _ => parse_eq_error, fun table other hparse hsame => ?_,
    fun table hparse haddress => ?_⟩
  · obtain ⟨count, hends, rfl⟩ := parse_eq_ok.1 hparse
    rw [length_records] at hsame
    obtain ⟨hother, hrecords⟩ := hends.congr hsame
    exact parse_eq_ok.2 ⟨count, hother, hrecords.symm⟩
  · obtain ⟨count, hends, rfl⟩ := parse_eq_ok.1 hparse
    have hinside := hends.inside
    refine ⟨_, write_records hends haddress, fun i => ?_⟩
    rw [Bytes.getElem?_overwrite (by rw [List.length_replicate]; omega), List.length_replicate,
      length_records]
    by_cases hi : offset + 8 * count + 2 ≤ i ∧ i < offset + 8 * count + 8
    · rw [if_pos hi, if_pos (by omega), List.getElem?_replicate, if_pos (by omega)]
    · rw [if_neg hi, if_neg (by omega)]

/-- One event behind a byte that does not belong to the table, and a terminator with something
behind its activation. -/
def dirtyBuffer : Bytes := [0xFF, 0, 1, 0, 2, 0x80, 0x40, 0, 0x10, 0, 0, 1, 2, 3, 4, 5, 6, 0xAB]

theorem parse_finds_records_dirty :
    parse dirtyBuffer 1 = .ok [⟨1, 2, 0x80400010⟩] ∧
    parse (dirtyBuffer.take 17) 1 = .ok [⟨1, 2, 0x80400010⟩] ∧
    ∃ written, write [⟨1, 2, 0x80400010⟩] dirtyBuffer 1 = .ok written ∧
      written[10]? = some 0 ∧ written[16]? = some 0 ∧ written[17]? = some 0xAB := by
  obtain ⟨-, -, hlocal, hback⟩ := parse_finds_records dirtyBuffer 1
  have hparse : parse dirtyBuffer 1 = .ok [⟨1, 2, 0x80400010⟩] := by decide
  obtain ⟨written, hwrite, hbyte⟩ := hback _ hparse (by decide)
  refine ⟨hparse, hlocal _ _ hparse ?_, written, hwrite, ?_, ?_, ?_⟩
  · rintro i ⟨-, hi⟩
    exact List.getElem?_take_of_lt (by simpa using hi)
  · rw [hbyte]
    rfl
  · rw [hbyte]
    rfl
  · rw [hbyte]
    rfl

end CartPatch.Event.Table
