import CartPatch.Proofs.Event.Table
import Mathlib.Data.Nat.Basic
import Mathlib.Order.Interval.Set.Defs

/-!
Writing an event table in place. The entries go field by field into a window of the buffer, and a
field that does not fit is written as far as the window goes before the writer gives up. A writer
that puts down certain bytes puts down the bytes of both when it is followed by another
(`Puts.andThen`), so no field is cut off when the window has room for the whole table. The table is
checked before the window is opened; an error therefore leaves the buffer as it was.
-/

namespace CartPatch.Event

open Outcome MonadExcept

/-- A window of a buffer that bytes are written into, from `next` on and up to `stop`. -/
structure Window where
  buffer : Bytes
  next : ℕ
  stop : ℕ

/-- Steps that write into a window. An error leaves what was written before it. -/
abbrev Writer : Type → Type := EStateM Unit Window

namespace Window

def behind (w : Window) (bytes : Bytes) : Window :=
  { w with buffer := w.buffer.overwrite w.next bytes, next := w.next + bytes.length }

def HasRoom (w : Window) (bytes : Bytes) : Prop :=
  w.next + bytes.length ≤ w.stop ∧ w.stop ≤ w.buffer.length

end Window

namespace Writer

/-- Writes bytes as far as the window goes, and fails when that cuts some of them off. -/
def put (bytes : Bytes) : Writer Unit := do
  let w ← get
  let room := w.stop - w.next
  set (w.behind (bytes.take room))
  if room < bytes.length then throw ()

def putEntry (e : Entry) : Writer Unit := do
  put (Bytes.ofHalf e.activation)
  put (Bytes.ofHalf e.execution)
  put (Bytes.ofWord e.address)

def putEntries : List Entry → Writer Unit
  | [] => pure ()
  | e :: es => do
    putEntry e
    putEntries es

/-- Where there is room for the bytes, the writer puts them down and nothing else. -/
def Puts (x : Writer Unit) (bytes : Bytes) : Prop :=
  ∀ w : Window, w.HasRoom bytes → x.run w = .ok () (w.behind bytes)

theorem puts_put (bytes : Bytes) : Puts (put bytes) bytes := by
  rintro w ⟨hroom, -⟩
  have hwhole : bytes.take (w.stop - w.next) = bytes := List.take_of_length_le (by omega)
  simp [put, hwhole, show ¬w.stop - w.next < bytes.length by omega]

theorem puts_nil : Puts (pure ()) [] := by
  intro w _
  simp [Window.behind, Bytes.overwrite]

theorem Puts.andThen {x y : Writer Unit} {a b : Bytes} (hx : Puts x a) (hy : Puts y b) :
    Puts (x >>= fun _ => y) (a ++ b) := by
  rintro w ⟨hroom, hstop⟩
  have hlength := List.length_append ▸ hroom
  have ha : w.next + a.length ≤ w.buffer.length := by omega
  have hbehind : (w.behind a).HasRoom b := by
    constructor
    · simp only [Window.behind]
      omega
    · rwa [Window.behind, Bytes.length_overwrite ha]
  rw [run_bind_ok (hx w ⟨by omega, hstop⟩), hy _ hbehind]
  simp only [Window.behind, Bytes.overwrite_append (Nat.le_trans hroom hstop), List.length_append,
    Nat.add_assoc]

theorem puts_putEntry (e : Entry) : Puts (putEntry e) e.bytes := by
  rw [Entry.bytes, List.append_assoc]
  exact (puts_put _).andThen ((puts_put _).andThen (puts_put _))

theorem puts_putEntries (es : List Entry) : Puts (putEntries es) (es.flatMap Entry.bytes) := by
  induction es with
  | nil => exact puts_nil
  | cons e es ih => exact (puts_putEntry e).andThen ih

end Writer

namespace Table

open Writer

/-- Writes a table into the buffer at an offset and gives the number of bytes written. -/
def writeInPlace (table : Table) (offset : ℕ) : EStateM TableError Bytes ℕ := do
  ofExcept table.validate
  let buffer ← get
  let needed := byteLength table.length
  let tooSmall := TableError.bufferTooSmall offset needed (buffer.length - offset)
  if offset + needed ≤ buffer.length then
    match (putEntries (table ++ [Entry.terminator])).run ⟨buffer, offset, offset + needed⟩ with
    | .ok _ w =>
      set w.buffer
      return needed
    | .error _ w =>
      set w.buffer
      throw tooSmall
  else throw tooSmall

def settle (table : Table) (buffer : Bytes) :
    Except TableError Bytes → EStateM.Result TableError Bytes ℕ
  | .ok written => .ok (byteLength table.length) written
  | .error error => .error error buffer

variable {table : Table} {buffer : Bytes} {offset : ℕ}

theorem run_writeInPlace (table : Table) (offset : ℕ) (buffer : Bytes) :
    (table.writeInPlace offset).run buffer = table.settle buffer (table.write buffer offset) := by
  rw [writeInPlace]
  cases hvalid : validate table with
  | error error =>
    rw [run_bind_error (run_ofExcept _ _), write_eq_error_of_validate hvalid]
    rfl
  | ok =>
    rw [run_bind_ok (run_ofExcept _ _), run_bind_ok (EStateM.run_get buffer),
      write_eq_of_storable (validate_eq_ok.1 hvalid)]
    by_cases hfits : offset + byteLength table.length ≤ buffer.length
    · have hroom :
          Window.HasRoom ⟨buffer, offset, offset + byteLength table.length⟩ (image table) :=
        ⟨Nat.add_le_add_left (Nat.le_of_eq (length_image table)) offset, hfits⟩
      have hput := puts_putEntries (table ++ [Entry.terminator]) _ hroom
      rw [if_pos hfits, if_pos hfits, hput]
      rfl
    · rw [if_neg hfits, if_neg hfits]
      rfl

/-- The buffer after a table was written: as long as before and changed at the table only, which is
read back. -/
structure Stored (table : Table) (offset : ℕ) (buffer written : Bytes) : Prop where
  size : written.length = buffer.length
  outside : ∀ i ∉ Set.Ico offset (offset + 8 * (table.length + 1)), written[i]? = buffer[i]?
  read : parse written offset = .ok table

theorem byteLength_eq (count : ℕ) : byteLength count = 8 * (count + 1) := by
  rw [byteLength, Entry.size]
  omega

theorem stored_overwrite (h : ∀ e ∈ table, e.Storable)
    (hfits : offset + byteLength table.length ≤ buffer.length) :
    Stored table offset buffer (buffer.overwrite offset (image table)) := by
  rw [← length_image] at hfits
  refine ⟨Bytes.length_overwrite hfits, fun i hi => ?_,
    parse_overwrite (fun e he => (h e he).1) hfits⟩
  rw [Bytes.getElem?_overwrite hfits, if_neg]
  rwa [length_image, byteLength_eq]

/-- A table is written exactly when each of its entries is storable and the buffer reaches as far as
its terminator; otherwise the buffer stays as it was, and the error is that of the first entry which
is not storable, or that the buffer is too small when all are. -/
theorem writeInPlace_stores_or_keeps (table : Table) (offset : ℕ) (buffer : Bytes) :
    (table.writeInPlace offset).run buffer = table.settle buffer (table.write buffer offset) ∧
      ((∃ count written, (table.writeInPlace offset).run buffer = .ok count written) ↔
        (∀ e ∈ table, e.Storable) ∧ offset + 8 * (table.length + 1) ≤ buffer.length) ∧
      (∀ count written, (table.writeInPlace offset).run buffer = .ok count written →
        count = 8 * (table.length + 1) ∧ Stored table offset buffer written) ∧
      ∀ error after, (table.writeInPlace offset).run buffer = .error error after →
        after = buffer ∧ (FirstFault table error ∨ (∀ e ∈ table, e.Storable) ∧
          error = .bufferTooSmall offset (8 * (table.length + 1)) (buffer.length - offset)) := by
  have hrun := run_writeInPlace table offset buffer
  refine ⟨hrun, ?_⟩
  rw [hrun, ← byteLength_eq]
  cases hvalid : validate table with
  | error fault =>
    have hfault := validate_eq_error.1 hvalid
    rw [write_eq_error_of_validate hvalid]
    refine ⟨⟨fun ⟨_, _, h⟩ => ?_, fun ⟨h, _⟩ => absurd h hfault.not_storable⟩, fun _ _ h => ?_,
      fun _ _ h => ?_⟩ <;> cases h
    exact ⟨rfl, .inl hfault⟩
  | ok =>
    have hstorable := validate_eq_ok.1 hvalid
    rw [write_eq_of_storable hstorable]
    by_cases hfits : offset + byteLength table.length ≤ buffer.length
    · rw [if_pos hfits]
      refine ⟨⟨fun _ => ⟨hstorable, hfits⟩, fun _ => ⟨_, _, rfl⟩⟩, fun _ _ h => ?_,
        fun _ _ h => ?_⟩ <;> cases h
      exact ⟨rfl, stored_overwrite hstorable hfits⟩
    · rw [if_neg hfits]
      refine ⟨⟨fun ⟨_, _, h⟩ => ?_, fun ⟨_, h⟩ => absurd h hfits⟩, fun _ _ h => ?_,
        fun _ _ h => ?_⟩ <;> cases h
      exact ⟨rfl, .inr ⟨hstorable, rfl⟩⟩

def twoEntries : Table := [⟨1, 2, 0x80001234⟩, ⟨0xFFFF, 7, 1⟩]

theorem writeInPlace_stores_or_keeps_unaligned :
    (∃ written, (twoEntries.writeInPlace 3).run (List.replicate 30 0xAA) = .ok 24 written ∧
      parse written 3 = .ok twoEntries) ∧
    (twoEntries.writeInPlace 3).run (List.replicate 26 0xAA) =
      .error (.bufferTooSmall 3 24 23) (List.replicate 26 0xAA) := by
  have hstorable : ∀ e ∈ twoEntries, e.Storable := by decide
  constructor
  · obtain ⟨-, hsucceeds, hstores, -⟩ :=
      writeInPlace_stores_or_keeps twoEntries 3 (List.replicate 30 0xAA)
    obtain ⟨count, written, hrun⟩ := hsucceeds.2 ⟨hstorable, by decide⟩
    obtain ⟨rfl, hstored⟩ := hstores count written hrun
    exact ⟨written, hrun, hstored.read⟩
  · obtain ⟨-, hsucceeds, -, hkeeps⟩ :=
      writeInPlace_stores_or_keeps twoEntries 3 (List.replicate 26 0xAA)
    cases hrun : (twoEntries.writeInPlace 3).run (List.replicate 26 0xAA) with
    | ok count written => exact absurd (hsucceeds.1 ⟨count, written, hrun⟩).2 (by decide)
    | error error after =>
      obtain ⟨rfl, hfault | ⟨-, rfl⟩⟩ := hkeeps error after hrun
      · exact absurd hstorable hfault.not_storable
      · rfl

end Table

end CartPatch.Event
