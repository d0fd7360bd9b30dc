import CartPatch.Proofs.Mips.Decoding
import CartPatch.Proofs.Mips.Operand
import CartPatch.Proofs.Mips.Statement

/-!
The words of instructions, written bit by bit: the fields of a word one behind the other, as the
architecture has them. Every statement in range is encoded as these bits from its usual text, and
all that it says is read back from the fields of the word, up to the top four bits of the address of
a jump. So lines with one word say the same.
-/

namespace CartPatch.Mips

open Text Numeral Instruction

/-- The opcodes; `jr` is one of the instructions that share the opcode zero, and so is the shift of
no register by no bits that does nothing. -/
def Mnemonic.opcodeBits : Mnemonic → BitVec 6
  | nop | jr => 0b000000
  | jump .j => 0b000010
  | jump .jal => 0b000011
  | branch .beq => 0b000100
  | branch .bne => 0b000101
  | addiu => 0b001001
  | ori => 0b001101
  | lui => 0b001111
  | memory .lb => 0b100000
  | memory .lh => 0b100001
  | memory .lw => 0b100011
  | memory .lbu => 0b100100
  | memory .lhu => 0b100101
  | memory .sb => 0b101000
  | memory .sh => 0b101001
  | memory .sw => 0b101011

def Register.bits (r : Register) : BitVec 5 := BitVec.ofFin r

def immediateBits (opcode : BitVec 6) (rs rt : BitVec 5) (low : BitVec 16) : BitVec 32 :=
  opcode ++ rs ++ rt ++ low

namespace Statement

/-- The word of a statement. A number is a half word in two's complement; of the address of a jump,
the word has the bits 2 to 27. -/
def bits : Statement → BitVec 32
  | nop => 0
  | jr rs => immediateBits Mnemonic.jr.opcodeBits rs.bits 0 0b001000
  | addiu rt rs v => immediateBits Mnemonic.addiu.opcodeBits rs.bits rt.bits (BitVec.ofInt 16 v)
  | ori rt rs v => immediateBits Mnemonic.ori.opcodeBits rs.bits rt.bits (BitVec.ofInt 16 v)
  | lui rt v => immediateBits Mnemonic.lui.opcodeBits 0 rt.bits (BitVec.ofInt 16 v)
  | memory op rt v base =>
    immediateBits (Mnemonic.memory op).opcodeBits base.bits rt.bits (BitVec.ofInt 16 v)
  | branch op rs rt v =>
    immediateBits (Mnemonic.branch op).opcodeBits rs.bits rt.bits (BitVec.ofInt 16 v)
  | jump op v => (Mnemonic.jump op).opcodeBits ++ (BitVec.ofInt 32 v).extractLsb 27 2

def number? : Statement → Option ℤ
  | nop | jr _ => none
  | addiu _ _ v | ori _ _ v | lui _ v | memory _ _ v _ | branch _ _ _ v | jump _ v => some v

/-- The operands in their order, with registers by name and the number as it is spelled. -/
def operandTexts (number : Text) : Statement → List Text
  | nop => []
  | jr rs => [rs.name]
  | addiu rt rs _ | ori rt rs _ => [rt.name, rs.name, number]
  | lui rt _ => [rt.name, number]
  | memory _ rt _ base => [rt.name, number ++ '(' :: ((base.name : Text) ++ [')'])]
  | branch _ rs rt _ => [rs.name, rt.name, number]
  | jump _ _ => [number]

def text (number : Text) (st : Statement) : Text :=
  match st.operandTexts number with
  | [] => st.mnemonic.name
  | op :: ops => Assembler.line st.mnemonic (op :: ops)

def ReadsBack (w : UInt32) (st : Statement) : Prop :=
  opcode w = st.mnemonic.opcodeBits.toNat ∧
    match st with
    | nop => w = 0
    | jr rs => firstField w = rs ∧ w.toNat % 0x40 = 0b001000
    | addiu rt rs v => firstField w = rs ∧ secondField w = rt ∧ (lowField w).toInt16.toInt = v
    | ori rt rs v => firstField w = rs ∧ secondField w = rt ∧ (lowField w).toNat = v
    | lui rt v => secondField w = rt ∧ (lowField w).toNat = v
    | memory _ rt v base =>
      firstField w = base ∧ secondField w = rt ∧ (lowField w).toInt16.toInt = v
    | branch _ rs rt v => firstField w = rs ∧ secondField w = rt ∧ (lowField w).toInt16.toInt = v
    | jump _ v => ((targetField w).val : ℤ) = v / 4 % 0x4000000

/-- A statement with the address of a jump cut to the bits that the word of the jump has. -/
def withinRegion : Statement → Statement
  | jump op v => jump op (v % 0x10000000)
  | st => st

/-- What an instruction says, with the lowest address that its jump may have. -/
def ofInstruction : Instruction → Statement
  | .nop => nop
  | .jr rs => jr rs
  | .addiu rt rs value => addiu rt rs value.toInt
  | .ori rt rs value => ori rt rs value.toNat
  | .lui rt value => lui rt value.toNat
  | .memory op rt offset base => memory op rt offset.toInt base
  | .branch op rs rt offset => branch op rs rt offset.toInt
  | .jump op target => jump op (target.val * 4)

section Words

variable {opcode : BitVec 6} {op : ℕ} {v : ℤ} {st : Statement}

theorem toNat_append {m n : ℕ} (x : BitVec m) (y : BitVec n) :
    (x ++ y).toNat = x.toNat * 2 ^ n + y.toNat := by
  rw [BitVec.toNat_append, ← Nat.shiftLeft_add_eq_or_of_lt y.isLt, Nat.shiftLeft_eq]

theorem toBitVec_immediateWord (hop : opcode.toNat = op) (rs rt : Register) (low : UInt16) :
    (immediateWord op rs rt low).toBitVec = immediateBits opcode rs.bits rt.bits low.toBitVec := by
  apply BitVec.eq_of_toNat_eq
  have hword := toNat_immediateWord (hop ▸ opcode.isLt) rs rt low
  rw [UInt32.toNat_toBitVec, hword, immediateBits, toNat_append, toNat_append, toNat_append, hop]
  simp only [Register.bits, BitVec.toNat_ofFin, UInt16.toNat_toBitVec]
  omega

theorem toBitVec_jumpWord (hop : opcode.toNat = op) (n : ℕ) :
    (UInt32.ofNat (op * 0x4000000 + (JumpTarget.ofAddress (UInt32.ofNat n)).val)).toBitVec =
      opcode ++ (BitVec.ofInt 32 n).extractLsb 27 2 := by
  apply BitVec.eq_of_toNat_eq
  have hword := toNat_jumpWord (hop ▸ opcode.isLt) (.ofAddress (UInt32.ofNat n))
  rw [UInt32.toNat_toBitVec, hword, toNat_append, BitVec.extractLsb_toNat, hop]
  simp only [JumpTarget.ofAddress, UInt32.toNat_ofNat', BitVec.ofInt_natCast, BitVec.toNat_ofNat,
    Nat.shiftRight_eq_div_pow]
  rfl

theorem toBitVec_ofInt (v : ℤ) : (Int16.ofInt v).toUInt16.toBitVec = BitVec.ofInt 16 v :=
  Int16.toBitVec_ofInt v

theorem toBitVec_ofNat_toNat (h : 0 ≤ v) : (UInt16.ofNat v.toNat).toBitVec = BitVec.ofInt 16 v := by
  obtain ⟨n, rfl⟩ := Int.eq_ofNat_of_zero_le h
  rw [Int.toNat_natCast, BitVec.ofInt_natCast]
  rfl

theorem toNat_opcodeBits (m : Mnemonic) (h : m ≠ .jr) : m.opcodeBits.toNat = m.code := by
  have hall : ∀ m ∈ Mnemonic.all, m ≠ .jr → m.opcodeBits.toNat = m.code := by decide
  exact hall m m.mem_all h

theorem toBitVec_word (h : st.InRange) : st.instruction.word.toBitVec = st.bits := by
  cases st with
  | nop => rfl
  | jr rs =>
    revert rs
    decide +kernel
  | addiu rt rs v =>
    rw [instruction, bits, ← toBitVec_ofInt]
    exact toBitVec_immediateWord (toNat_opcodeBits .addiu (by decide)) rs rt _
  | ori rt rs v =>
    rw [instruction, bits, ← toBitVec_ofNat_toNat h.1]
    exact toBitVec_immediateWord (toNat_opcodeBits .ori (by decide)) rs rt _
  | lui rt v =>
    rw [instruction, bits, ← toBitVec_ofNat_toNat h.1]
    exact toBitVec_immediateWord (toNat_opcodeBits .lui (by decide)) .zero rt _
  | memory op rt v base =>
    rw [instruction, bits, ← toBitVec_ofInt]
    exact toBitVec_immediateWord (toNat_opcodeBits (.memory op) (by simp)) base rt _
  | branch op rs rt v =>
    rw [instruction, bits, ← toBitVec_ofInt]
    exact toBitVec_immediateWord (toNat_opcodeBits (.branch op) (by simp)) rs rt _
  | jump op v =>
    obtain ⟨n, rfl⟩ := Int.eq_ofNat_of_zero_le h.1
    rw [instruction, bits, Int.toNat_natCast]
    exact toBitVec_jumpWord (toNat_opcodeBits (.jump op) (by simp)) n

theorem toInt_ofInt (h : -0x8000 ≤ v ∧ v < 0x8000) : (Int16.ofInt v).toInt = v :=
  Int16.toInt_ofInt_of_le h.1 h.2

theorem toNat_ofNat_toNat (h : 0 ≤ v ∧ v < 0x10000) : ((UInt16.ofNat v.toNat).toNat : ℤ) = v := by
  rw [UInt16.toNat_ofNat']
  omega

theorem fields_immediateWord {m : Mnemonic} (hm : m ≠ .jr) (rs rt : Register) (low : UInt16)
    {w : UInt32} (hw : w = immediateWord m.code rs rt low) :
    Instruction.opcode w = m.opcodeBits.toNat ∧ firstField w = rs ∧ secondField w = rt ∧
      lowField w = low := by
  have hop := code_lt m
  rw [hw, opcode_immediateWord hop, toNat_opcodeBits m hm]
  exact ⟨rfl, firstField_immediateWord hop rs rt low, secondField_immediateWord hop rs rt low,
    lowField_immediateWord hop rs rt low⟩

theorem fields_signed {m : Mnemonic} (hm : m ≠ .jr) (rs rt : Register)
    (hv : -0x8000 ≤ v ∧ v < 0x8000) {w : UInt32}
    (hw : w = immediateWord m.code rs rt (Int16.ofInt v).toUInt16) :
    Instruction.opcode w = m.opcodeBits.toNat ∧ firstField w = rs ∧ secondField w = rt ∧
      (lowField w).toInt16.toInt = v := by
  obtain ⟨hopcode, hfirst, hsecond, hlow⟩ := fields_immediateWord hm rs rt _ hw
  refine ⟨hopcode, hfirst, hsecond, ?_⟩
  rw [hlow]
  exact toInt_ofInt hv

theorem fields_unsigned {m : Mnemonic} (hm : m ≠ .jr) (rs rt : Register)
    (hv : 0 ≤ v ∧ v < 0x10000) {w : UInt32}
    (hw : w = immediateWord m.code rs rt (UInt16.ofNat v.toNat)) :
    Instruction.opcode w = m.opcodeBits.toNat ∧ firstField w = rs ∧ secondField w = rt ∧
      (lowField w).toNat = v := by
  obtain ⟨hopcode, hfirst, hsecond, hlow⟩ := fields_immediateWord hm rs rt _ hw
  refine ⟨hopcode, hfirst, hsecond, ?_⟩
  rw [hlow]
  exact toNat_ofNat_toNat hv

theorem readsBack_word (h : st.InRange) : st.ReadsBack st.instruction.word := by
  cases st with
  | nop => exact ⟨rfl, rfl⟩
  | jr rs =>
    unfold ReadsBack
    revert rs
    decide +kernel
  | addiu rt rs v => exact fields_signed (m := .addiu) (by decide) rs rt h rfl
  | ori rt rs v => exact fields_unsigned (m := .ori) (by decide) rs rt h rfl
  | lui rt v =>
    obtain ⟨hopcode, -, hsecond, hlow⟩ := fields_unsigned (m := .lui) (by decide) .zero rt h rfl
    exact ⟨hopcode, hsecond, hlow⟩
  | memory op rt v base => exact fields_signed (m := .memory op) (by simp) base rt h rfl
  | branch op rs rt v => exact fields_signed (m := .branch op) (by simp) rs rt h rfl
  | jump op v =>
    have hcode := toNat_opcodeBits (.jump op) (by simp)
    have hop := code_lt (.jump op)
    have hfield : targetField (jump op v).instruction.word = .ofAddress (UInt32.ofNat v.toNat) :=
      targetField_jumpWord hop _
    obtain ⟨hlow, hhigh, haligned⟩ := h
    refine ⟨(opcode_jumpWord hop _).trans hcode.symm, ?_⟩
    dsimp only
    rw [hfield]
    simp only [JumpTarget.ofAddress, UInt32.toNat_ofNat']
    omega

/-- An instruction keeps what a statement in range says, up to the top bits of an address. -/
theorem ofInstruction_instruction (h : st.InRange) :
    ofInstruction st.instruction = st.withinRegion := by
  cases st with
  | nop | jr rs => rfl
  | addiu rt rs v => exact congrArg (addiu rt rs) (toInt_ofInt h)
  | ori rt rs v => exact congrArg (ori rt rs) (toNat_ofNat_toNat h)
  | lui rt v => exact congrArg (lui rt) (toNat_ofNat_toNat h)
  | memory op rt v base => exact congrArg (memory op rt · base) (toInt_ofInt h)
  | branch op rs rt v => exact congrArg (branch op rs rt) (toInt_ofInt h)
  | jump op v =>
    obtain ⟨hlow, hhigh, haligned⟩ := h
    have htarget : (v.toNat % 2 ^ 32 / 4 % 0x4000000 : ℕ) * 4 = v % 0x10000000 := by omega
    refine congrArg (jump op) ?_
    simpa only [JumpTarget.ofAddress, UInt32.toNat_ofNat'] using htarget

end Words

section Texts

open Assembler

variable {n : Text} {st : Statement} (hn : ∀ v, st.number? = some v → Compact n v)
include hn

theorem isOperand_of_mem_operandTexts : ∀ op ∈ st.operandTexts n, IsOperand op := by
  have hop (v : ℤ) (hv : st.number? = some v) : IsOperand n := (hn v hv).isOperand
  cases st with
  | nop => simp [operandTexts]
  | jr rs => simp [operandTexts, isOperand_register]
  | memory op rt v base => simp [operandTexts, isOperand_register, isOperand_place base (hop v rfl)]
  | _ => simp [operandTexts, isOperand_register, hop _ rfl]

theorem operands_operandTexts : Operands WellSigned (st.operandTexts n) st := by
  cases st with
  | nop => exact .nop
  | jr rs => exact .jr (Register.ofText?_name rs)
  | addiu rt rs v =>
    exact .addiu (Register.ofText?_name rt) (Register.ofText?_name rs) (hn v rfl).wellSigned
  | ori rt rs v =>
    exact .ori (Register.ofText?_name rt) (Register.ofText?_name rs) (hn v rfl).wellSigned
  | lui rt v => exact .lui (Register.ofText?_name rt) (hn v rfl).wellSigned
  | memory op rt v base =>
    have hnumber := hn v rfl
    refine .memory op (Register.ofText?_name rt) ⟨n, base.name, rfl, ?_,
      Register.ofText?_name base, ?_⟩
    · exact hnumber.wellSigned.not_mem (by decide)
    · rw [hnumber.isOperand.tight.trim_eq, if_neg hnumber.isOperand.ne_nil]
      exact hnumber.wellSigned
  | branch op rs rt v =>
    exact .branch op (Register.ofText?_name rs) (Register.ofText?_name rt) (hn v rfl).wellSigned
  | jump op v => exact .jump op (hn v rfl).wellSigned

theorem says_text : Says WellSigned (st.text n) st := by
  have hoperands := operands_operandTexts hn
  have hplain := isOperand_of_mem_operandTexts hn
  rw [text]
  split
  · rename_i hnone
    obtain rfl : st = nop := by cases st <;> simp [operandTexts] at hnone ⊢
    exact ⟨by decide +kernel, .nop⟩
  · rename_i op ops hops
    rw [hops] at hoperands hplain
    have hcommand := command_line st.mnemonic (by simp) hplain
    constructor
    · rw [hcommand]
      exact Mnemonic.ofText?_name st.mnemonic
    · rw [hcommand, operands_operandText (by simp) hplain]
      exact hoperands

end Texts

end Statement

namespace Assembler

/-- Every statement in range is assembled from its usual text, with a decimal or a hexadecimal
number, to the word that the architecture has for it, and the fields of the word are what it says.
Lines that are assembled to one word say one thing each, and the same thing. -/
theorem assemble_faithful :
    (∀ v : ℤ, Compact (signedDecimal v) v ∧ Compact (signedHex v) v) ∧
    (∀ (st : Statement) (n : Text), st.InRange → (∀ v, st.number? = some v → Compact n v) →
      ∃ w, assemble (st.text n) = .ok w ∧ w.toBitVec = st.bits ∧ st.ReadsBack w) ∧
    ∀ (a b : Text) (w : UInt32), assemble a = .ok w → assemble b = .ok w →
      ∃ st st' : Statement, (∀ s, Says Spelled a s ↔ s = st) ∧ (∀ s, Says Spelled b s ↔ s = st') ∧
        st.withinRegion = st'.withinRegion := by
  have hunique {l : Text} {st : Statement} (h : Says Spelled l st) (s : Statement) :
      Says Spelled l s ↔ s = st := by
    refine ⟨fun h' => h'.unique spelled_unambiguous h, ?_⟩
    rintro rfl
    exact h
  refine ⟨fun v => ⟨compact_signedDecimal v, compact_signedHex v⟩, ?_, ?_⟩
  · intro st n hrange hn
    have hsays : Says Spelled (st.text n) st := says_or.2 (.inl (Statement.says_text hn))
    exact ⟨st.instruction.word, assemble_eq_ok.2 ⟨st, hsays, hrange, rfl⟩,
      Statement.toBitVec_word hrange, Statement.readsBack_word hrange⟩
  · intro a b w ha hb
    obtain ⟨st, hsays, hrange, hword⟩ := assemble_eq_ok.1 ha
    obtain ⟨st', hsays', hrange', hword'⟩ := assemble_eq_ok.1 hb
    have hinstruction : st.instruction = st'.instruction := eq_of_word_eq (hword.trans hword'.symm)
    refine ⟨st, st', hunique hsays, hunique hsays', ?_⟩
    rw [← Statement.ofInstruction_instruction hrange, hinstruction,
      Statement.ofInstruction_instruction hrange']

def storeBelow : Statement := .memory .sw .v0 (-0x4000) .sp

theorem assemble_faithful_storeBelow :
    (∃ w, assemble "sw v0, -0x4000(sp)" = .ok w ∧ w.toBitVec = 0xAFA2C000 ∧
      storeBelow.ReadsBack w) ∧
    ∃ st st' : Statement, (∀ s, Says Spelled "sw v0, -0x4000(sp)" s ↔ s = st) ∧
      (∀ s, Says Spelled "SW $2, - 16384 ($29)" s ↔ s = st') ∧
        st.withinRegion = st'.withinRegion := by
  refine ⟨?_, assemble_faithful.2.2 _ _ 0xAFA2C000 (by decide +kernel) (by decide +kernel)⟩
  have htext : storeBelow.text "-0x4000" = "sw v0, -0x4000(sp)" := by decide +kernel
  have hnumber : ∀ v, storeBelow.number? = some v → Compact "-0x4000" v := by
    rintro v ⟨⟩
    exact assemble_faithful.1 (-0x4000) |>.2
  obtain ⟨w, hw, hbits, hback⟩ := assemble_faithful.2.1 storeBelow "-0x4000" (by decide) hnumber
  exact ⟨w, htext ▸ hw, hbits.trans (by decide +kernel), hback⟩

end Assembler

end CartPatch.Mips
