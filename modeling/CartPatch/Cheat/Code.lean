import CartPatch.Text.Numeral

/-!
Cheat codes: a single write to memory, or a single comparison that guards the code behind it.
-/

namespace CartPatch.Cheat

/-- What a code does: it writes, or it lets the next code run if memory holds the value, or if
memory does not hold it. Each works on one byte or on a half word. -/
inductive Opcode where
  | write8 | write16 | if8 | if16 | ifNot8 | ifNot16
  deriving DecidableEq, Repr

namespace Opcode

def all : List Opcode := [write8, write16, if8, if16, ifNot8, ifNot16]

def name : Opcode → String
  | write8 => "Write8"
  | write16 => "Write16"
  | if8 => "If8"
  | if16 => "If16"
  | ifNot8 => "IfNot8"
  | ifNot16 => "IfNot16"

def byte : Opcode → UInt8
  | write8 => 0x80
  | write16 => 0x81
  | if8 => 0xD0
  | if16 => 0xD1
  | ifNot8 => 0xD2
  | ifNot16 => 0xD3

def ofByte? (b : UInt8) : Option Opcode := all.find? (·.byte == b)

def isByteSized : Opcode → Bool
  | write8 | if8 | ifNot8 => true
  | write16 | if16 | ifNot16 => false

def isConditional : Opcode → Bool
  | write8 | write16 => false
  | if8 | if16 | ifNot8 | ifNot16 => true

theorem ofByte?_byte (o : Opcode) : ofByte? o.byte = some o := by cases o <;> decide

end Opcode

structure Code where
  opcode : Opcode
  address : UInt32
  value : UInt16
  deriving DecidableEq, Repr

namespace Code

/-- The address as a cheat list has it: the low three bytes. -/
def shortAddress (c : Code) : Nat := c.address.toNat % 0x1000000

def listText (c : Code) : Text :=
  Numeral.capitalHex 2 c.opcode.byte.toNat ++ Numeral.capitalHex 6 c.shortAddress ++
    ' ' :: Numeral.capitalHex 4 c.value.toNat

/-- The words of a cheat list, and behind them in brackets what the code does. -/
def text (c : Code) : Text :=
  c.listText ++ " (" ++ c.opcode.name ++ " 0x" ++ Numeral.hex 8 c.address.toNat ++ " = 0x" ++
    Numeral.hex 0 c.value.toNat ++ ")"

end Code

end CartPatch.Cheat
