import CartPatch.Text.Blank
import CartPatch.Text.Numeral

/-!
The thirty-two general registers and the ways to write them: by the name of the calling convention,
by one of two other names, or by number, each with or without dollar signs before it.
-/

namespace CartPatch.Mips

abbrev Register := Fin 32

namespace Register

/-- The names of the calling convention, in the order of the register numbers. -/
def names : List String :=
  ["zero", "at", "v0", "v1", "a0", "a1", "a2", "a3", "t0", "t1", "t2", "t3", "t4", "t5", "t6", "t7",
   "s0", "s1", "s2", "s3", "s4", "s5", "s6", "s7", "t8", "t9", "k0", "k1", "gp", "sp", "fp", "ra"]

theorem length_names : names.length = 32 := rfl

def name (r : Register) : String := names.get (r.cast length_names.symm)

def zero : Register := 0
def v0 : Register := 2
def v1 : Register := 3
def a0 : Register := 4
def a1 : Register := 5
def a2 : Register := 6
def a3 : Register := 7
def t0 : Register := 8
def t1 : Register := 9
def t2 : Register := 10
def t8 : Register := 24
def t9 : Register := 25
def k0 : Register := 26
def k1 : Register := 27
def sp : Register := 29
def ra : Register := 31

/-- The other names of two registers, each with the name that the list has for it. -/
def aliases : List (Text × Text) := [("r0", "zero"), ("s8", "fp")]

def ofNumber? (t : Text) : Option Register :=
  match Numeral.readNat 10 Numeral.maxWord t with
  | .ok n => if h : n < 32 then some ⟨n, h⟩ else none
  | .error _ => none

/-- Reads a register. Blanks around it and dollar signs before it do not count, nor does case. -/
def ofText? (t : Text) : Option Register :=
  let bare := Text.lower ((Text.trim t).dropWhile (· == '$'))
  let known := (aliases.lookup bare).getD bare
  match names.finIdxOf? (String.ofList known) with
  | some i => some (i.cast length_names)
  | none => ofNumber? known

theorem ofText?_name (r : Register) : ofText? r.name = some r := by
  revert r
  decide +kernel

end Register

end CartPatch.Mips
