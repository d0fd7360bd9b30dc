import CartPatch.Mips.Register

/-!
The instructions that patches are made of, and the word each of them is encoded as.

A word has its opcode in the top six bits. Below it stand the numbers of two registers, five bits
each, and a half word; or, for a jump, the bits 2 to 27 of the address. The instruction that does
nothing is the word zero.
-/

namespace CartPatch.Mips

inductive MemoryOp where
  | lb | lh | lw | lbu | lhu | sb | sh | sw
  deriving DecidableEq, Repr

inductive BranchOp where
  | beq | bne
  deriving DecidableEq, Repr

/-- Jumps to an address that the instruction holds. -/
inductive JumpOp where
  | j | jal
  deriving DecidableEq, Repr

/-- What an instruction does, without its operands. -/
inductive Mnemonic where
  | nop | jr | addiu | ori | lui
  | memory (op : MemoryOp)
  | branch (op : BranchOp)
  | jump (op : JumpOp)
  deriving DecidableEq, Repr

/-- How the operands of an instruction are written. -/
inductive Format where
  | fixed | register | immediate | logical | upper | memory | branch | jump
  deriving DecidableEq, Repr

/-- The number of operands, where an offset and the base behind it count as one. -/
def Format.operandCount : Format → Nat
  | fixed => 0
  | register | jump => 1
  | upper | memory => 2
  | immediate | logical | branch => 3

namespace Mnemonic

def name : Mnemonic → String
  | nop => "nop"
  | jr => "jr"
  | addiu => "addiu"
  | ori => "ori"
  | lui => "lui"
  | memory .lb => "lb"
  | memory .lh => "lh"
  | memory .lw => "lw"
  | memory .lbu => "lbu"
  | memory .lhu => "lhu"
  | memory .sb => "sb"
  | memory .sh => "sh"
  | memory .sw => "sw"
  | branch .beq => "beq"
  | branch .bne => "bne"
  | jump .j => "j"
  | jump .jal => "jal"

def all : List Mnemonic :=
  [nop, jr, addiu, ori, lui, memory .lb, memory .lh, memory .lw, memory .lbu, memory .lhu,
   memory .sb, memory .sh, memory .sw, branch .beq, branch .bne, jump .j, jump .jal]

def format : Mnemonic → Format
  | nop => .fixed
  | jr => .register
  | addiu => .immediate
  | ori => .logical
  | lui => .upper
  | memory _ => .memory
  | branch _ => .branch
  | jump _ => .jump

/-- The number that tells an instruction from the others of the machine: its opcode, or the number
in the function field where the opcode is zero. -/
def code : Mnemonic → Nat
  | nop => 0x00
  | jr => 0x08
  | addiu => 0x09
  | ori => 0x0D
  | lui => 0x0F
  | memory .lb => 0x20
  | memory .lh => 0x21
  | memory .lw => 0x23
  | memory .lbu => 0x24
  | memory .lhu => 0x25
  | memory .sb => 0x28
  | memory .sh => 0x29
  | memory .sw => 0x2B
  | branch .beq => 0x04
  | branch .bne => 0x05
  | jump .j => 0x02
  | jump .jal => 0x03

def ofText? (t : Text) : Option Mnemonic := all.find? fun m => Text.sameName m.name t

theorem mem_all (m : Mnemonic) : m ∈ all := by
  cases m with
  | memory op => cases op <;> decide
  | branch op => cases op <;> decide
  | jump op => cases op <;> decide
  | _ => decide

theorem ofText?_name (m : Mnemonic) : ofText? m.name = some m := by
  cases m with
  | memory op => cases op <;> decide
  | branch op => cases op <;> decide
  | jump op => cases op <;> decide
  | _ => decide

end Mnemonic

/-- The bits 2 to 27 of a jump's address. -/
abbrev JumpTarget := Fin 0x4000000

def JumpTarget.ofAddress (address : UInt32) : JumpTarget :=
  ⟨address.toNat / 4 % 0x4000000, Nat.mod_lt _ (by decide)⟩

/-- An instruction with its operands. Offsets of loads, stores and branches are signed; a branch
counts instructions from the one behind it. -/
inductive Instruction where
  | nop
  | jr (rs : Register)
  | addiu (rt rs : Register) (value : Int16)
  | ori (rt rs : Register) (value : UInt16)
  | lui (rt : Register) (value : UInt16)
  | memory (op : MemoryOp) (rt : Register) (offset : Int16) (base : Register)
  | branch (op : BranchOp) (rs rt : Register) (offset : Int16)
  | jump (op : JumpOp) (target : JumpTarget)
  deriving DecidableEq

namespace Instruction

def mnemonic : Instruction → Mnemonic
  | nop => .nop
  | jr _ => .jr
  | addiu _ _ _ => .addiu
  | ori _ _ _ => .ori
  | lui _ _ => .lui
  | memory op _ _ _ => .memory op
  | branch op _ _ _ => .branch op
  | jump op _ => .jump op

def immediateWord (opcode : Nat) (rs rt : Register) (low : UInt16) : UInt32 :=
  UInt32.ofNat (opcode * 0x4000000 + rs.val * 0x200000 + rt.val * 0x10000 + low.toNat)

def word (i : Instruction) : UInt32 :=
  match i with
  | nop => 0
  | jr rs => UInt32.ofNat (rs.val * 0x200000 + i.mnemonic.code)
  | addiu rt rs value => immediateWord i.mnemonic.code rs rt value.toUInt16
  | ori rt rs value => immediateWord i.mnemonic.code rs rt value
  | lui rt value => immediateWord i.mnemonic.code .zero rt value
  | memory _ rt offset base => immediateWord i.mnemonic.code base rt offset.toUInt16
  | branch _ rs rt offset => immediateWord i.mnemonic.code rs rt offset.toUInt16
  | jump _ target => UInt32.ofNat (i.mnemonic.code * 0x4000000 + target.val)

end Instruction

end CartPatch.Mips
