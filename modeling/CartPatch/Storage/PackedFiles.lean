import CartPatch.Storage.Access
import CartPatch.Text.Numeral

/-!
The packed files of a game: each is named by the number of its folder and its own number. They are
held in memory, or lie unpacked in a folder of the machine, the file 7 of folder 3 at `3/7.bin`.
-/

namespace CartPatch.Storage

/-- The numbers that name a packed file. -/
structure Slot where
  folder : UInt32
  file : UInt32
  deriving DecidableEq, Repr

inductive StoreError where
  | notFound (slot : Slot)
  | io (path : Text) (cause : Cause)
  deriving DecidableEq, Repr

namespace StoreError

def message : StoreError → String
  | notFound slot =>
    "No file " ++ toString slot.file.toNat ++ " in directory " ++ toString slot.folder.toNat
  | io path cause => "I/O error on " ++ String.ofList path ++ ": " ++ cause.message

end StoreError

/-- What holds packed files. Storing also gives the store as it is afterwards. -/
class SlotStore (σ : Type) where
  read : σ → Slot → Except StoreError Bytes
  write : σ → Slot → Bytes → Except StoreError Unit × σ

structure MemoryStore where
  files : List (Slot × Bytes)
  deriving DecidableEq, Repr

namespace MemoryStore

def empty : MemoryStore := ⟨[]⟩

def read (s : MemoryStore) (slot : Slot) : Except StoreError Bytes :=
  match s.files.lookup slot with
  | some data => .ok data
  | none => .error (.notFound slot)

def write (s : MemoryStore) (slot : Slot) (data : Bytes) : MemoryStore := ⟨put slot data s.files⟩

instance : SlotStore MemoryStore where
  read := read
  write s slot data := (.ok (), s.write slot data)

theorem read_write (s : MemoryStore) (slot k : Slot) (data : Bytes) :
    (s.write slot data).read k = if k = slot then .ok data else s.read k := by
  unfold read write
  rw [lookup_put]
  by_cases h : k = slot <;> simp [h]

end MemoryStore

structure FolderStore where
  root : Text
  tree : Tree
  deriving DecidableEq, Repr

namespace FolderStore

def join (folder name : Text) : Text :=
  if folder.isEmpty || folder.getLast? == some '/' then folder ++ name
  else folder ++ '/' :: name

def slotFolder (root : Text) (slot : Slot) : Text := join root (Numeral.decimal slot.folder.toNat)

def slotPath (root : Text) (slot : Slot) : Text :=
  join (slotFolder root slot) (Numeral.decimal slot.file.toNat ++ ".bin")

def readSlot (root : Text) (slot : Slot) : Access (Except StoreError Bytes) := do
  match ← Access.readFile (slotPath root slot) with
  | .ok data => return .ok data
  | .error .notFound => return .error (.notFound slot)
  | .error cause => return .error (.io (slotPath root slot) cause)

/-- Writes the file of a slot, in a folder that is made if it is missing. -/
def writeSlot (root : Text) (slot : Slot) (data : Bytes) : Access (Except StoreError Unit) := do
  match ← Access.makeFolder (slotFolder root slot) with
  | .error cause => return .error (.io (slotPath root slot) cause)
  | .ok () =>
    match ← Access.writeFile (slotPath root slot) data with
    | .error cause => return .error (.io (slotPath root slot) cause)
    | .ok () => return .ok ()

instance : SlotStore FolderStore where
  read s slot := ((readSlot s.root slot).run s.tree).1
  write s slot data :=
    let (result, tree) := (writeSlot s.root slot data).run s.tree
    (result, { s with tree })

end FolderStore

end CartPatch.Storage
