import CartPatch.Cheat.Code
import CartPatch.Mips.Address
import CartPatch.Mips.Assembler

/-!
Cheat routines: the instructions that carry out a list of codes in order.

A write takes three instructions. A comparison takes five, and branches over the code behind it,
which is the only one that it guards. A routine ends by falling through, so that routines can be
joined. It uses the registers `t0`, `t1` and `t2`.
-/

namespace CartPatch.Cheat

open Mips Numeral

namespace Code

def size (c : Code) : Nat := if c.opcode.isConditional then 5 else 3

def store (o : Opcode) : Text := if o.isByteSized then "sb" else "sh"

def load (o : Opcode) : Text := if o.isByteSized then "lbu" else "lhu"

/-- The branch over the guarded code: taken on a difference where the code runs on equality, and
taken on equality where it runs on a difference. -/
def skipBranch : Opcode → Text
  | .if8 | .if16 => "bne"
  | _ => "beq"

/-- The instructions of a code, where `skip` is the size of the code behind it. -/
def lines (c : Code) (skip : Nat) : List Text :=
  let address : Text := offsetText (lowerHalf c.address) ++ "(t0)"
  let upper : Text := "lui t0, 0x" ++ capitalHex 4 (upperHalf c.address).toNat
  let value : Text := "zero, 0x" ++ capitalHex 0 c.value.toNat
  if c.opcode.isConditional then
    [upper, load c.opcode ++ " t1, " ++ address, "ori t2, " ++ value,
      skipBranch c.opcode ++ " t1, t2, " ++ decimal (skip + 1), "nop"]
  else
    [upper, "ori t1, " ++ value, store c.opcode ++ " t1, " ++ address]

theorem length_lines (c : Code) (skip : Nat) : (c.lines skip).length = c.size := by
  unfold lines size
  split <;> rfl

end Code

def nextSize : List Code → Nat
  | [] => 0
  | c :: _ => c.size

def routineLines : List Code → List Text
  | [] => []
  | c :: cs => c.lines (nextSize cs) ++ routineLines cs

def compile (codes : List Code) : Except AssemblyError Bytes :=
  Assembler.machineCode (routineLines codes)

def routineSize : List Code → Nat
  | [] => 0
  | c :: cs => c.size + routineSize cs

theorem length_routineLines (codes : List Code) :
    (routineLines codes).length = routineSize codes := by
  induction codes with
  | nil => rfl
  | cons c cs ih => simp [routineLines, routineSize, ih, Code.length_lines]

end CartPatch.Cheat
