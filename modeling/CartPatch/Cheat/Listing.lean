import CartPatch.Cheat.Code
import CartPatch.Text.Blank

/-!
Cheat lists: codes written as pairs of hexadecimal words, with blanks between all words. The first
word has the opcode in its top byte and the address below it, the second has the value.
-/

namespace CartPatch.Cheat

inductive FormatError where
  | empty
  | oddTokenCount (count : Nat)
  | invalidToken (token : Text)
  | unknownOpcode (opcode : UInt8) (token : Text)
  | unalignedAddress (address : UInt32) (token : Text)
  deriving DecidableEq, Repr

namespace FormatError

def message : FormatError → String
  | empty => "Cheat text is empty"
  | oddTokenCount count => s!"Cheat text has an odd number of tokens ({count})"
  | invalidToken token => "Invalid cheat token: '" ++ String.ofList token ++ "'"
  | unknownOpcode opcode token =>
    "Unknown cheat opcode 0x" ++ String.ofList (Numeral.hex 2 opcode.toNat) ++ " in '"
      ++ String.ofList token ++ "'"
  | unalignedAddress address token =>
    "16-bit cheat code '" ++ String.ofList token ++ "' targets odd address 0x"
      ++ String.ofList (Numeral.hex 8 address.toNat)

end FormatError

namespace Listing

/-- A word of one to eight characters, read as a hexadecimal number. Digits and the sign take one byte
each and any other character is refused, so the words of at most eight bytes are the same. -/
def token (t : Text) : Except FormatError UInt32 :=
  if 8 < t.length then .error (.invalidToken t)
  else match Numeral.readWord 16 t with
    | .ok word => .ok word
    | .error _ => .error (.invalidToken t)

def halfToken (t : Text) : Except FormatError UInt16 := do
  let word ← token t
  if word.toNat < 0x10000 then .ok (UInt16.ofNat word.toNat) else .error (.invalidToken t)

/-- The address of a code in the cached segment of memory, which begins at `0x80000000`. -/
def segmentAddress (word : UInt32) : UInt32 := UInt32.ofNat (word.toNat % 0x1000000 + 0x80000000)

/-- Reads one code from its two words. A half word has an even address, and a code that works on
one byte keeps the low byte of its value. -/
def code (instruction value : Text) : Except FormatError Code := do
  let word ← token instruction
  let value ← halfToken value
  let byte := UInt8.ofNat (word.toNat / 0x1000000)
  let some opcode := Opcode.ofByte? byte | .error (.unknownOpcode byte instruction)
  let address := segmentAddress word
  if opcode.isByteSized then return ⟨opcode, address, UInt16.ofNat (value.toNat % 0x100)⟩
  else if address.toNat % 2 ≠ 0 then .error (.unalignedAddress address instruction)
  else return ⟨opcode, address, value⟩

/-- Reads the codes from pairs of words, up to the first pair that is none. -/
def codes : List Text → Except FormatError (List Code)
  | instruction :: value :: rest => do
    let c ← code instruction value
    return c :: (← codes rest)
  | _ => .ok []

/-- Reads a cheat list: all of its codes, or the error of the first one that has an error. -/
def parse (t : Text) : Except FormatError (List Code) :=
  let tokens := Text.words t
  if tokens.isEmpty then .error .empty
  else if tokens.length % 2 ≠ 0 then .error (.oddTokenCount tokens.length)
  else codes tokens

end Listing

end CartPatch.Cheat
