import CartPatch.Bytes
import CartPatch.Mips.Instruction

/-!
The assembler: one line of text to one instruction.

A line is a mnemonic and, behind the first blank, the operands with commas between them. Numbers
are decimal, or hexadecimal behind `0x`; a minus sign may stand before them. Registers are looked
up before a number is checked against the range of its field.
-/

namespace CartPatch.Mips

inductive AssemblyError where
  | unknownMnemonic (name : Text)
  | operandCount (mnemonic : Mnemonic) (found : Nat)
  | invalidRegister (text : Text)
  | invalidImmediate (text : Text)
  | immediateOutOfRange (mnemonic : Mnemonic) (value : Int)
  | misalignedTarget (target : UInt32)
  deriving DecidableEq, Repr

namespace AssemblyError

/-- The wording of an error. A number out of range is shown as the 64-bit word that holds it. -/
def message : AssemblyError → String
  | unknownMnemonic name => "Unknown mnemonic: " ++ String.ofList name
  | operandCount m found =>
    let expected := m.format.operandCount
    m.name ++ s!" takes {expected} operands, found {found}"
  | invalidRegister text => "Invalid register: " ++ String.ofList text
  | invalidImmediate text => "Invalid immediate: " ++ String.ofList text
  | immediateOutOfRange m value =>
    let word := (value % 0x10000000000000000).toNat
    "Immediate 0x" ++ String.ofList (Numeral.hex 0 word) ++ " does not fit " ++ m.name
  | misalignedTarget target =>
    "Jump target 0x" ++ String.ofList (Numeral.hex 8 target.toNat) ++ " is not word aligned"

end AssemblyError

namespace Assembler

/-- Splits the minus sign from a number, and the blanks behind the sign with it. -/
def splitMinus : Text → Bool × Text
  | '-' :: t => (true, Text.trimStart t)
  | t => (false, t)

/-- Reads a number of up to 64 bits with its sign. A minus sign may stand in front of a number that has
a sign of its own. -/
def immediate (text : Text) : Except AssemblyError Int :=
  let text := Text.trim text
  let (negative, unsigned) := splitMinus text
  let (base, digits) := Numeral.splitBase unsigned
  -- Only the least number has no negation of 64 bits. It is out of range for every operand, and so is
  -- its negation, wrapped around or not: a line with a minus sign in front of it is refused.
  match Numeral.readInt base 0x8000000000000000 digits with
  | .ok value => .ok (if negative then -value else value)
  | .error _ => .error (.invalidImmediate text)

def register (text : Text) : Except AssemblyError Register :=
  match Register.ofText? text with
  | some r => .ok r
  | none => .error (.invalidRegister (Text.trim text))

/-- Reads `offset(base)`, where no offset means zero. -/
def memoryOperand (text : Text) : Except AssemblyError (Int × Register) := do
  let text := Text.trim text
  let some (before, behind) := Text.cut? (· == '(') text | .error (.invalidImmediate text)
  let some ')' := behind.getLast? | .error (.invalidImmediate text)
  let before := Text.trim before
  let offset ← if before.isEmpty then .ok 0 else immediate before
  return (offset, ← register behind.dropLast)

def signedHalf (m : Mnemonic) (value : Int) : Except AssemblyError Int16 :=
  if -0x8000 ≤ value ∧ value < 0x8000 then .ok (Int16.ofInt value)
  else .error (.immediateOutOfRange m value)

def unsignedHalf (m : Mnemonic) (value : Int) : Except AssemblyError UInt16 :=
  if 0 ≤ value ∧ value < 0x10000 then .ok (UInt16.ofNat value.toNat)
  else .error (.immediateOutOfRange m value)

/-- Reads the address of a jump, which is a word-aligned number of 32 bits. -/
def jumpTarget (text : Text) : Except AssemblyError JumpTarget := do
  let value ← immediate text
  if value < 0 ∨ 0x100000000 ≤ value then .error (.invalidImmediate text)
  else if value % 4 ≠ 0 then .error (.misalignedTarget (UInt32.ofNat value.toNat))
  else .ok (.ofAddress (UInt32.ofNat value.toNat))

def operands (t : Text) : List Text :=
  if (Text.trim t).isEmpty then [] else (t.splitOn ',').map Text.trim

def instruction (m : Mnemonic) (ops : List Text) : Except AssemblyError Instruction :=
  match m, ops with
  | .nop, [] => .ok .nop
  | .jr, [s] => return .jr (← register s)
  | .addiu, [t, s, i] => do
    let rs ← register s
    let rt ← register t
    return .addiu rt rs (← signedHalf m (← immediate i))
  | .ori, [t, s, i] => do
    let rs ← register s
    let rt ← register t
    return .ori rt rs (← unsignedHalf m (← immediate i))
  | .lui, [t, i] => do
    let rt ← register t
    return .lui rt (← unsignedHalf m (← immediate i))
  | .memory op, [t, place] => do
    let (offset, base) ← memoryOperand place
    let rt ← register t
    return .memory op rt (← signedHalf m offset) base
  | .branch op, [s, t, i] => do
    let rs ← register s
    let rt ← register t
    return .branch op rs rt (← signedHalf m (← immediate i))
  | .jump op, [target] => return .jump op (← jumpTarget target)
  | m, ops => .error (.operandCount m ops.length)

def parse (line : Text) : Except AssemblyError Instruction :=
  let line := Text.trim line
  let (name, rest) := (Text.cut? Text.isBlank line).getD (line, [])
  match Mnemonic.ofText? name with
  | none => .error (.unknownMnemonic name)
  | some m => instruction m (operands rest)

def assemble (line : Text) : Except AssemblyError UInt32 := (parse line).map Instruction.word

/-- The words of several lines, or the error of the first line that has one. -/
def assembleAll : List Text → Except AssemblyError (List UInt32)
  | [] => .ok []
  | line :: lines => do
    let word ← assemble line
    return word :: (← assembleAll lines)

def machineCode (lines : List Text) : Except AssemblyError Bytes :=
  (assembleAll lines).map Bytes.ofWords

end Assembler

end CartPatch.Mips
