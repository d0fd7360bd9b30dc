import CartPatch.Event.Table
import CartPatch.Proofs.Bytes
import CartPatch.Proofs.Outcome
import Mathlib.Data.List.Enum

/-!
Event tables that are read back. Behind the image of a table anything may stand, for the reader
stops at the terminator (`entries?_image_append`); it must not stop before, so every entry needs an
activation. The check before writing asks for that and for an address, and names the first entry
that fails it (`validate_eq_error`).
-/

namespace CartPatch.Event

/-- An entry that a table can hold: one that does not end the table, and has an address. -/
def Entry.Storable (e : Entry) : Prop := e.activation ≠ 0 ∧ e.address ≠ 0

instance : DecidablePred Entry.Storable := fun e =>
  inferInstanceAs (Decidable (e.activation ≠ 0 ∧ e.address ≠ 0))

namespace Table

variable {table : Table} {buffer written : Bytes} {offset index : ℕ} {e : Entry}
  {error : TableError}

section Reading

theorem entries?_bytes_append (h : e.activation ≠ 0) (rest : Bytes) :
    entries? (e.bytes ++ rest) = (entries? rest).map (e :: ·) := by
  simp only [Entry.bytes, Bytes.ofHalf, Bytes.ofWord, List.cons_append, List.nil_append, entries?,
    Bytes.half_ofHalf, Bytes.word_ofWord, if_neg h]

theorem entries?_terminator_append (rest : Bytes) :
    entries? (Entry.terminator.bytes ++ rest) = some [] := rfl

theorem entries?_image_append (h : ∀ e ∈ table, e.activation ≠ 0) (rest : Bytes) :
    entries? (table.image ++ rest) = some table := by
  induction table with
  | nil => exact entries?_terminator_append rest
  | cons e table ih =>
    obtain ⟨he, htable⟩ := List.forall_mem_cons.1 h
    have himage : image (e :: table) = e.bytes ++ image table := rfl
    rw [himage, List.append_assoc, entries?_bytes_append he, ih htable]
    rfl

/-- A table is read where it was written, whatever the buffer held before. -/
theorem parse_overwrite (h : ∀ e ∈ table, e.activation ≠ 0)
    (hfits : offset + table.image.length ≤ buffer.length) :
    parse (buffer.overwrite offset table.image) offset = .ok table := by
  have hfront : (buffer.take offset).length = offset := by
    rw [List.length_take]
    omega
  rw [parse, Bytes.overwrite, List.append_assoc, List.drop_left' hfront, entries?_image_append h]

end Reading

section Checking

inductive Fault (index : ℕ) (e : Entry) : TableError → Prop where
  | activation (h : e.activation = 0) : Fault index e (.missingActivation index)
  | address (hactivation : e.activation ≠ 0) (h : e.address = 0) :
    Fault index e (.addressRequired index e)

/-- The error for a table tells what is wrong with its first entry that is not storable. -/
def FirstFault (table : Table) (error : TableError) : Prop :=
  ∃ front e back, table = front ++ e :: back ∧ (∀ f ∈ front, f.Storable) ∧
    Fault front.length e error

theorem fault?_eq_none : fault? index e = none ↔ e.Storable := by
  simp only [fault?, Entry.Storable]
  split
  · simp_all
  · split <;> simp_all

theorem fault?_eq_some : fault? index e = some error ↔ Fault index e error := by
  constructor
  · intro h
    simp only [fault?] at h
    split at h
    · cases h
      exact .activation ‹_›
    · split at h <;> cases h
      exact .address ‹_› ‹_›
  · rintro (h | ⟨hactivation, h⟩)
    · rw [fault?, if_pos h]
    · rw [fault?, if_neg hactivation, if_pos h]

theorem faultless_iff :
    (∀ p ∈ table.zipIdx, fault? p.2 p.1 = none) ↔ ∀ e ∈ table, e.Storable := by
  simp only [fault?_eq_none]
  rw [List.forall_mem_zipIdx', List.forall_mem_iff_getElem]

theorem validate_eq (table : Table) :
    validate table = (table.zipIdx.findSome? fun p => fault? p.2 p.1).elim (.ok ()) .error := by
  rw [validate]
  split
  · rename_i fault hfind
    have hfirst : (table.zipIdx.findSome? fun p => fault? p.2 p.1) = some fault := hfind
    rw [hfirst]
    rfl
  · rename_i hfind
    have hnone : (table.zipIdx.findSome? fun p => fault? p.2 p.1) = none := hfind
    rw [hnone]
    rfl

theorem validate_eq_error : validate table = .error error ↔ FirstFault table error := by
  have hfirst : (table.zipIdx.findSome? fun p => fault? p.2 p.1) = some error ↔
      FirstFault table error := by
    rw [List.findSome?_eq_some_iff]
    constructor
    · rintro ⟨front', ⟨e, index⟩, back', hsplit, he, hfront⟩
      obtain ⟨front, rest, rfl, rfl, hrest⟩ := List.zipIdx_eq_append_iff.1 hsplit
      obtain ⟨_, back, rfl, heq, -⟩ := List.zipIdx_eq_cons_iff.1 hrest.symm
      cases heq
      rw [Nat.zero_add] at he
      exact ⟨front, e, back, rfl, faultless_iff.1 hfront, fault?_eq_some.1 he⟩
    · rintro ⟨front, e, back, rfl, hfront, herror⟩
      refine ⟨front.zipIdx, (e, front.length), back.zipIdx (front.length + 1), ?_,
        fault?_eq_some.2 herror, faultless_iff.2 hfront⟩
      simp [List.zipIdx_append]
  rw [← hfirst, validate_eq]
  cases table.zipIdx.findSome? fun p => fault? p.2 p.1 <;> simp

theorem validate_eq_ok : validate table = .ok () ↔ ∀ e ∈ table, e.Storable := by
  rw [← faultless_iff, ← List.findSome?_eq_none_iff, validate_eq]
  cases table.zipIdx.findSome? fun p => fault? p.2 p.1 <;> simp

theorem FirstFault.not_storable (h : FirstFault table error) : ¬∀ e ∈ table, e.Storable := by
  intro hstorable
  rw [← validate_eq_ok, validate_eq_error.2 h] at hstorable
  cases hstorable

end Checking

section Writing

theorem write_eq_error_of_validate (h : validate table = .error error) :
    write table buffer offset = .error error := by
  rw [write, h]
  rfl

theorem write_eq_of_storable (h : ∀ e ∈ table, e.Storable) : write table buffer offset =
    if offset + byteLength table.length ≤ buffer.length then
      .ok (buffer.overwrite offset (image table))
    else
      .error (.bufferTooSmall offset (byteLength table.length) (buffer.length - offset)) := by
  rw [write, validate_eq_ok.2 h]
  rfl

/-- The bytes of a table are what writing it leaves in a buffer of just its size. -/
theorem toBytes_eq_write :
    toBytes table = write table (List.replicate (byteLength table.length) 0) 0 := by
  rw [toBytes]
  cases hvalid : validate table with
  | error error => exact (write_eq_error_of_validate hvalid).symm
  | ok =>
    rw [write_eq_of_storable (validate_eq_ok.1 hvalid)]
    simp [Bytes.overwrite, length_image, Except.map]

end Writing

end Table

end CartPatch.Event
