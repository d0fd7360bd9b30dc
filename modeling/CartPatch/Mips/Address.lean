import CartPatch.Text.Numeral

/-!
Addresses in two halves. An instruction holds at most a half word, so an address is loaded as an
upper half and then a signed offset; where the offset is negative the upper half is one greater.
-/

namespace CartPatch.Mips

/-- The upper half that goes with `lowerHalf`. -/
def upperHalf (address : UInt32) : UInt16 := UInt16.ofNat ((address.toNat + 0x8000) / 0x10000)

/-- The lower half of an address, as a signed offset. -/
def lowerHalf (address : UInt32) : Int16 := Int16.ofNat address.toNat

def offsetText (offset : Int16) : Text :=
  if offset.toInt < 0 then "-0x" ++ Numeral.capitalHex 0 offset.toInt.natAbs
  else "0x" ++ Numeral.capitalHex 0 offset.toInt.natAbs

end CartPatch.Mips
