import Mathlib.Logic.Basic
import Mathlib.Tactic.SplitIfs
import CartPatch.Proofs.Outcome
import CartPatch.Storage.PackedFiles

/-!
What changes in a file tree. A write that succeeds changes the file at one place, and the path leads to
that place from then on (`Tree.write_eq_ok`). Making folders changes no file, whether it succeeds or not
(`Tree.files_makeFolders`). So storing a packed file, in a folder that is made for it, changes no other
file, and none at all when it fails (`FolderStore.run_writeSlot_ok`, `FolderStore.run_writeSlot_error`).
-/

namespace CartPatch.Storage

open Outcome

namespace Tree

variable {t t' : Tree} {p q : Place} {path step : Text} {steps before : List Text} {data : Bytes}

/-- A step into a folder is the same in any tree that has this folder. -/
theorem enter_of_isFolder (h : ∀ r, t.isFolder r → t'.isFolder r) (henter : t.enter p step = .ok q) :
    t'.enter p step = .ok q := by
  obtain ⟨_, hname, henter⟩ := bind_eq_ok.1 henter
  refine bind_eq_ok.2 ⟨_, hname, ?_⟩
  by_cases hfolder : t.isFolder (p ++ [step])
  · rw [if_pos hfolder] at henter
    rwa [if_pos (h _ hfolder)]
  · rw [if_neg hfolder] at henter
    split_ifs at henter ⊢ <;> exact henter

theorem walk_of_isFolder (h : ∀ r, t.isFolder r → t'.isFolder r)
    (hwalk : t.walk p steps = .ok q) : t'.walk p steps = .ok q := by
  induction steps generalizing p with
  | nil => exact hwalk
  | cons step steps ih =>
    rw [walk, List.foldlM_cons] at hwalk ⊢
    obtain ⟨r, henter, hwalk⟩ := bind_eq_ok.1 hwalk
    exact bind_eq_ok.2 ⟨r, enter_of_isFolder h henter, ih hwalk⟩

theorem file?_put (place p : Place) :
    file? { t with files := put place data t.files } p =
      if p = place then some data else t.file? p := by
  have hlookup := lookup_put place p data t.files
  rwa [lawful_beq_subsingleton instBEqOfDecidableEq List.instBEq] at hlookup

/-- A write that succeeds puts the data at one place, and the path leads there. -/
theorem write_eq_ok (h : t.write path data = .ok t') :
    ∃ place, t' = { t with files := put place data t.files } ∧ t'.read path = .ok data := by
  obtain ⟨_, hpath, h⟩ := bind_eq_ok.1 h
  obtain ⟨⟨before, step⟩, hlast, h⟩ := bind_eq_ok.1 h
  obtain ⟨p, hwalk, h⟩ := bind_eq_ok.1 h
  split at h
  · cases h
  rename_i hdots
  obtain ⟨_, hname, h⟩ := bind_eq_ok.1 h
  split at h
  · cases h
  rename_i hfolder
  cases h
  refine ⟨p ++ [step], rfl, bind_eq_ok.2 ⟨_, hpath, bind_eq_ok.2 ⟨_, hlast, bind_eq_ok.2
    ⟨p, walk_of_isFolder (t := t) (fun _ hr => hr) hwalk, bind_eq_ok.2 ⟨_, hname, ?_⟩⟩⟩⟩⟩
  rw [if_neg hdots]
  refine (if_neg hfolder).trans ?_
  rw [file?_put, if_pos rfl]

theorem files_of_makeFolder (h : t.makeFolder p before step = .ok t') : t'.files = t.files := by
  obtain ⟨q, -, h⟩ := bind_eq_ok.1 h
  obtain ⟨_, -, h⟩ := bind_eq_ok.1 h
  split at h
  · cases h
  · cases h
    rfl

theorem files_makeFoldersUp (t : Tree) (p : Place) (steps : List Text) :
    (t.makeFoldersUp p steps).2.files = t.files := by
  induction steps with
  | nil => rfl
  | cons step before ih =>
    rw [makeFoldersUp]
    split
    · exact files_of_makeFolder ‹_›
    · split
      · rename_i hup
        rwa [hup] at ih
      · rename_i hup
        rw [hup] at ih
        split
        · exact (files_of_makeFolder ‹_›).trans ih
        · split <;> exact ih
    · split <;> rfl

theorem files_makeFolders (t : Tree) (path : Text) : (t.makeFolders path).2.files = t.files := by
  rw [makeFolders]
  cases checkPath path with
  | error cause => rfl
  | ok _ => exact files_makeFoldersUp t _ _

end Tree

namespace Access

variable {α β : Type}

theorem run_then (x : Access α) (f : α → Access β) (t : Tree) :
    (x >>= f).run t = (f (x.run t).1).run (x.run t).2 := run_bind x f t

theorem run_readFile (path : Text) (t : Tree) : (readFile path).run t = (t.read path, t) := rfl

theorem run_writeFile (path : Text) (data : Bytes) (t : Tree) :
    (writeFile path data).run t =
      match t.write path data with
      | .ok written => (.ok (), written)
      | .error cause => (.error cause, t) := by
  rw [writeFile, run]
  cases t.write path data <;> rfl

theorem run_makeFolder (path : Text) (t : Tree) : (makeFolder path).run t = t.makeFolders path := rfl

end Access

namespace FolderStore

variable {t t' : Tree} {root : Text} {slot : Slot} {data : Bytes}

/-- Only a file that is missing is reported as a missing packed file. -/
theorem run_readSlot (root : Text) (slot : Slot) (t : Tree) :
    (readSlot root slot).run t =
      (match t.read (slotPath root slot) with
        | .ok data => .ok data
        | .error .notFound => .error (.notFound slot)
        | .error cause => .error (.io (slotPath root slot) cause), t) := by
  rw [readSlot, Access.run_then, Access.run_readFile]
  rcases t.read (slotPath root slot) with cause | data
  · cases cause <;> rfl
  · rfl

theorem run_writeSlot (root : Text) (slot : Slot) (data : Bytes) (t : Tree) :
    (writeSlot root slot data).run t =
      match t.makeFolders (slotFolder root slot) with
      | (.error cause, made) => (.error (.io (slotPath root slot) cause), made)
      | (.ok (), made) =>
        match made.write (slotPath root slot) data with
        | .error cause => (.error (.io (slotPath root slot) cause), made)
        | .ok written => (.ok (), written) := by
  rw [writeSlot, Access.run_then, Access.run_makeFolder]
  obtain ⟨result, made⟩ := t.makeFolders (slotFolder root slot)
  cases result with
  | error cause => rfl
  | ok _ =>
    simp only [Access.run_then, Access.run_writeFile]
    cases made.write (slotPath root slot) data <;> rfl

theorem run_writeSlot_error {e : StoreError} (h : (writeSlot root slot data).run t = (.error e, t')) :
    t'.files = t.files := by
  have hfiles := Tree.files_makeFolders t (slotFolder root slot)
  rw [run_writeSlot] at h
  split at h
  · rename_i hmade
    rw [hmade] at hfiles
    cases h
    exact hfiles
  · rename_i hmade
    rw [hmade] at hfiles
    split at h
    · cases h
      exact hfiles
    · cases h

theorem run_writeSlot_ok (h : (writeSlot root slot data).run t = (.ok (), t')) :
    t'.read (slotPath root slot) = .ok data ∧
      ∃ place, ∀ p, t'.file? p = if p = place then some data else t.file? p := by
  have hfiles := Tree.files_makeFolders t (slotFolder root slot)
  rw [run_writeSlot] at h
  split at h
  · cases h
  · rename_i made hmade
    rw [hmade] at hfiles
    split at h
    · cases h
    · rename_i written hwritten
      cases h
      obtain ⟨place, rfl, hread⟩ := Tree.write_eq_ok hwritten
      refine ⟨hread, place, fun p => ?_⟩
      rw [Tree.file?_put, Tree.file?, hfiles, ← Tree.file?]

end FolderStore

end CartPatch.Storage
