import CartPatch.Storage.PackedFiles
import CartPatch.Text.Blank

/-!
Hook descriptors: where the hook of one build of the game lives, read from lines of a key and a
value each. Every key is set exactly once, in any order.
-/

namespace CartPatch.Hook

inductive Field where
  | slotFolder
  | slotFile
  | codeOffset
  | cacheAddress
  | siteOffset
  | siteAddress
  | sentinel
  deriving DecidableEq, Repr

namespace Field

def all : List Field :=
  [slotFolder, slotFile, codeOffset, cacheAddress, siteOffset, siteAddress, sentinel]

def name : Field → String
  | slotFolder => "fs_dir"
  | slotFile => "fs_file"
  | codeOffset => "hook_rom_offset"
  | cacheAddress => "hook_ram_offset"
  | siteOffset => "controller_jump_rom_offset"
  | siteAddress => "controller_jump_ram_offset"
  | sentinel => "cache_sentinel"

/-- The field with a given key, in capital or small letters. -/
def ofText? (t : Text) : Option Field := all.find? fun f => Text.sameName f.name t

theorem mem_all (f : Field) : f ∈ all := by cases f <;> decide

theorem ofText?_name (f : Field) : ofText? f.name = some f := by cases f <;> decide

end Field

inductive DescriptorError where
  | malformed (line : Nat) (text : Text)
  | duplicateField (field : Field)
  | missingField (field : Field)
  | unalignedField (field : Field) (value : UInt32)
  deriving DecidableEq, Repr

namespace DescriptorError

def message : DescriptorError → String
  | malformed line text =>
    s!"Malformed hook descriptor line {line}: '" ++ String.ofList text ++ "'"
  | duplicateField field => "Hook descriptor sets " ++ field.name ++ " twice"
  | missingField field => "Hook descriptor is missing " ++ field.name
  | unalignedField field value =>
    "Hook descriptor " ++ field.name ++ " 0x" ++ String.ofList (Numeral.hex 8 value.toNat)
      ++ " is not word aligned"

end DescriptorError

/-- Where a hook lives. Offsets count bytes of the image, and addresses are those of the running
game. The code of the hook begins with a cache cell: it holds the sentinel until the stored routine
was loaded, and the address of the routine afterwards. -/
structure Descriptor where
  slot : Storage.Slot
  codeOffset : Nat
  cacheAddress : UInt32
  siteOffset : Nat
  siteAddress : UInt32
  sentinel : UInt32
  deriving DecidableEq, Repr

namespace Descriptor

/-- Values of fields, as far as they are set. -/
abbrev Settings := Field → Option UInt32

def readSetting (line : Text) : Option (Field × UInt32) :=
  match Text.words line with
  | [key, value] => do
    let field ← Field.ofText? key
    let value ← (Numeral.readAnyWord value).toOption
    return (field, value)
  | _ => none

def readLines (settings : Settings) : List (Text × Nat) → Except DescriptorError Settings
  | [] => .ok settings
  | (line, n) :: rest =>
    if Text.isRemark line then readLines settings rest
    else match readSetting line with
      | none => .error (.malformed n (Text.trim line))
      | some (field, value) =>
        if (settings field).isSome then .error (.duplicateField field)
        else readLines (fun f => if f = field then some value else settings f) rest

def require (settings : Settings) (field : Field) : Except DescriptorError UInt32 :=
  match settings field with
  | some value => .ok value
  | none => .error (.missingField field)

/-- The descriptor with given settings, which must be complete. -/
def ofSettings (settings : Settings) : Except DescriptorError Descriptor := do
  let folder ← require settings .slotFolder
  let file ← require settings .slotFile
  let codeOffset ← require settings .codeOffset
  let cacheAddress ← require settings .cacheAddress
  let siteOffset ← require settings .siteOffset
  let siteAddress ← require settings .siteAddress
  let sentinel ← require settings .sentinel
  return ⟨⟨folder, file⟩, codeOffset.toNat, cacheAddress, siteOffset.toNat, siteAddress, sentinel⟩

def checkAligned (d : Descriptor) : Except DescriptorError Descriptor :=
  if d.cacheAddress.toNat % 4 ≠ 0 then .error (.unalignedField .cacheAddress d.cacheAddress)
  else if d.siteAddress.toNat % 4 ≠ 0 then .error (.unalignedField .siteAddress d.siteAddress)
  else .ok d

def parse (t : Text) : Except DescriptorError Descriptor := do
  let settings ← readLines (fun _ => none) (Text.numberedLines t)
  let d ← ofSettings settings
  d.checkAligned

/-- The address of the trampoline, one word behind the cache cell. -/
def trampolineAddress (d : Descriptor) : UInt32 := d.cacheAddress + 4

/-- The address that a stored routine returns to, behind the four instructions of the site. -/
def returnAddress (d : Descriptor) : UInt32 := d.siteAddress + 16

end Descriptor

end CartPatch.Hook
