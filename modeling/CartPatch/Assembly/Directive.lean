import CartPatch.Text.Numeral

/-! Directives to the assembler that generated text is built from. -/

namespace CartPatch.Assembly.Directive

def define (name value : Text) : Text := ".definelabel " ++ name ++ ',' :: value

def origin (address : UInt32) : Text := ".org 0x" ++ Numeral.capitalHex 8 address.toNat

/-- Fills up code to a multiple of four bytes. -/
def align : Text := ".align 4"

/-- Opens a block whose local labels other blocks do not see. -/
def beginBlock : Text := ".beginfile"

def endBlock : Text := ".endfile"

def label (name : Text) : Text := name ++ [':']

end CartPatch.Assembly.Directive
