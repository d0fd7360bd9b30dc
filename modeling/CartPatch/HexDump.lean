import CartPatch.Bytes
import CartPatch.Text.Numeral

/-!
Hexadecimal dumps: the words of a byte string in lines, each line behind the address of its first
word. A last word that is not complete is filled up with zeros.
-/

namespace CartPatch.HexDump

/-- One line: the address, a colon, and the words behind one space each. -/
def line (address : UInt32) (words : List UInt32) : Text :=
  Numeral.capitalHex 8 address.toNat ++ ':' :: words.flatMap fun w =>
    ' ' :: Numeral.capitalHex 8 w.toNat

/-- The lines of a dump with `stride + 1` words in each but the last. Addresses count bytes from
`base` and wrap around at the end of the address space. -/
def lines (stride : Nat) (base : UInt32) (words : List UInt32) : List Text :=
  if h : words = [] then []
  else
    line base (words.take (stride + 1)) ::
      lines stride (base + 4 * UInt32.ofNat (stride + 1)) (words.drop (stride + 1))
termination_by words.length
decreasing_by
  have := List.length_pos_iff.2 h
  simp only [List.length_drop]
  omega

/-- Dumps a byte string with `stride` words in a line, but at least one. -/
def dump (bytes : Bytes) (base : UInt32) (stride : Nat) : Text :=
  List.intercalate ['\n'] (lines (stride - 1) base bytes.paddedWords)

end CartPatch.HexDump
