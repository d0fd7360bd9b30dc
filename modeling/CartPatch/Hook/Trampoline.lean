import CartPatch.Hook.Descriptor
import CartPatch.Mips.Address
import CartPatch.Mips.Register

/-!
The instructions of a hook: the trampoline, which the game runs at the site in every frame, and
what the stored routine runs before and after the cheats.

In the first frame the cache cell holds the sentinel, so the trampoline has the platform load the
stored routine and keeps its address in the cell. In every later frame it jumps straight to it. The
registers for the address and the sentinel are pushed first and stay pushed until the stored
routine pops them.
-/

namespace CartPatch.Hook

open Mips Numeral

/-- The registers that the trampoline holds the address of the routine and the sentinel in. -/
def pointerRegisters : List Register := [.t8, .t9]

/-- The registers that the trampoline keeps over the call to the platform. -/
def savedRegisters : List Register := [.ra, .v0, .v1, .a0, .a1, .a2, .a3]

/-- The registers that cheats use. -/
def scratchRegisters : List Register := [.t0, .t1, .t2]

/-- The size of a stack frame for a number of registers, in whole double words. -/
def frameSize (count : Nat) : Nat := (count * 4 + 7) / 8 * 8

def frameLines (op : Text) (registers : List Register) : List Text :=
  registers.zipIdx.map fun (r, i) =>
    op ++ ' ' :: (r.name : Text) ++ ", 0x" ++ capitalHex 0 (i * 4) ++ "(sp)"

def saveLines (registers : List Register) : List Text :=
  ("addiu sp, sp, -0x" ++ capitalHex 0 (frameSize registers.length)) :: frameLines "sw" registers

def restoreLines (registers : List Register) : List Text :=
  frameLines "lw" registers ++ ["addiu sp, sp, 0x" ++ capitalHex 0 (frameSize registers.length)]

def jumpLine (op : Text) (address : UInt32) : Text := op ++ " 0x" ++ capitalHex 8 address.toNat

namespace Descriptor

def loadLines (d : Descriptor) : List Text :=
  ["lui t8, 0x" ++ capitalHex 4 (upperHalf d.cacheAddress).toNat,
   "lw t8, " ++ offsetText (lowerHalf d.cacheAddress) ++ "(t8)",
   "lui t9, 0x" ++ capitalHex 4 (d.sentinel.toNat / 0x10000),
   "ori t9, t9, 0x" ++ capitalHex 4 (d.sentinel.toNat % 0x10000)]

/-- Has the platform load the stored routine and keeps its address. -/
def resolveLines (d : Descriptor) (readPrimitive : UInt32) : List Text :=
  let call : List Text :=
    ["ori a0, zero, 0x" ++ capitalHex 0 d.slot.folder.toNat,
     jumpLine "jal" readPrimitive,
     "ori a1, zero, 0x" ++ capitalHex 0 d.slot.file.toNat,
     "lui t9, 0x" ++ capitalHex 4 (upperHalf d.cacheAddress).toNat,
     "sw v0, " ++ offsetText (lowerHalf d.cacheAddress) ++ "(t9)",
     "addiu t8, v0, 0"]
  saveLines savedRegisters ++ call ++ restoreLines savedRegisters

/-- The trampoline, where `readPrimitive` is the address of the platform's routine that loads a
packed file. -/
def trampolineLines (d : Descriptor) (readPrimitive : UInt32) : List Text :=
  let resolve := d.resolveLines readPrimitive
  let skip : List Text := ["bne t8, t9, " ++ decimal (resolve.length + 1), "nop"]
  let leave : List Text := ["jr t8", "nop"]
  saveLines pointerRegisters ++ d.loadLines ++ skip ++ resolve ++ leave

/-- The jump to the trampoline, which the site holds once it is hooked. -/
def siteJump (d : Descriptor) : Text := jumpLine "j" d.trampolineAddress

/-- What the stored routine runs last: the jump back behind the site. -/
def returnLines (d : Descriptor) : List Text := [jumpLine "j" d.returnAddress, "nop"]

end Descriptor

/-- What the stored routine runs before the cheats. -/
def prologueLines : List Text := saveLines scratchRegisters

/-- What the stored routine runs between the cheats and the displaced instructions. -/
def epilogueLines : List Text := restoreLines scratchRegisters ++ restoreLines pointerRegisters

theorem length_trampolineLines (d : Descriptor) (readPrimitive : UInt32) :
    (d.trampolineLines readPrimitive).length = 33 := rfl

end CartPatch.Hook
