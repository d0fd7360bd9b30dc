import CartPatch.Text.Basic

/-!
Numerals: numbers written with digits in some base, read and printed.

A numeral is read from left to right up to its first fault. At one and the same character the fault
"no digit" goes before the fault "too large", so that of two faults in one numeral the earlier
character decides.
-/

namespace CartPatch

inductive NumeralFault where
  | empty
  | invalidDigit
  | tooLarge
  | tooSmall
  deriving DecidableEq, Repr

namespace NumeralFault

def message : NumeralFault → String
  | empty => "cannot parse integer from empty string"
  | invalidDigit => "invalid digit found in string"
  | tooLarge => "number too large to fit in target type"
  | tooSmall => "number too small to fit in target type"

end NumeralFault

namespace Numeral

/-- The value of a digit in a base; the digits behind nine are letters of either case. -/
def digitValue? (base : Nat) (c : Char) : Option Nat :=
  let value :=
    if '0' ≤ c ∧ c ≤ '9' then c.toNat - '0'.toNat
    else if 'a' ≤ c ∧ c ≤ 'z' then c.toNat - 'a'.toNat + 10
    else if 'A' ≤ c ∧ c ≤ 'Z' then c.toNat - 'A'.toNat + 10
    else base
  if value < base then some value else none

/-- Reads digits behind a number that was read already. -/
def readDigits (base limit : Nat) (read : Nat) : Text → Except NumeralFault Nat
  | [] => .ok read
  | c :: t =>
    match digitValue? base c with
    | none => .error .invalidDigit
    | some d =>
      if read * base + d ≤ limit then readDigits base limit (read * base + d) t
      else .error .tooLarge

/-- Reads the digits behind a sign; a sign alone is no numeral. -/
def readSigned (base limit : Nat) (digits : Text) : Except NumeralFault Nat :=
  if digits.isEmpty then .error .invalidDigit else readDigits base limit 0 digits

/-- Reads a natural number up to `limit`; one plus sign may stand before it. -/
def readNat (base limit : Nat) : Text → Except NumeralFault Nat
  | [] => .error .empty
  | '+' :: digits => readSigned base limit digits
  | digits => readDigits base limit 0 digits

/-- Reads a number that fits a signed word whose smallest number is `-half`; one sign may stand
before it. -/
def readInt (base half : Nat) : Text → Except NumeralFault Int
  | '-' :: digits =>
    match readSigned base half digits with
    | .ok n => .ok (-n)
    | .error .tooLarge => .error .tooSmall
    | .error fault => .error fault
  | t => (readNat base (half - 1) t).map Int.ofNat

def maxWord : Nat := 0xFFFFFFFF

def readWord (base : Nat) (t : Text) : Except NumeralFault UInt32 :=
  (readNat base maxWord t).map UInt32.ofNat

/-- The base that a numeral announces, and its digits: `0x` or `0X` stand before a hexadecimal
numeral and nothing stands before a decimal one. -/
def splitBase : Text → Nat × Text
  | '0' :: 'x' :: digits => (16, digits)
  | '0' :: 'X' :: digits => (16, digits)
  | digits => (10, digits)

/-- Reads a 32-bit word in the base that it announces. -/
def readAnyWord (t : Text) : Except NumeralFault UInt32 :=
  readWord (splitBase t).1 (splitBase t).2

def decimal (n : Nat) : Text := Nat.toDigits 10 n

def signedDecimal (n : Int) : Text :=
  if n < 0 then '-' :: decimal n.natAbs else decimal n.natAbs

/-- The hexadecimal numeral with small letters, filled up with zeros to `width` digits. -/
def hex (width n : Nat) : Text := Text.padLeft width '0' (Nat.toDigits 16 n)

def capitalHex (width n : Nat) : Text := (hex width n).map Char.toUpper

end Numeral

end CartPatch
