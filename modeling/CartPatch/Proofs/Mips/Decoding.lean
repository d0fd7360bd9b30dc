import CartPatch.Mips.Instruction

/-!
The instruction that a word stands for. The opcode in the top six bits tells the instructions
apart; the opcode zero is shared, and of the instructions under it only two are known here. Every
instruction is decoded from the word that it is encoded as (`ofWord?_word`).
-/

namespace CartPatch.Mips.Instruction

def opcode (w : UInt32) : Nat := w.toNat / 0x4000000

/-- The register behind the opcode. -/
def firstField (w : UInt32) : Register := ⟨w.toNat / 0x200000 % 32, Nat.mod_lt _ (by decide)⟩

def secondField (w : UInt32) : Register := ⟨w.toNat / 0x10000 % 32, Nat.mod_lt _ (by decide)⟩

def lowField (w : UInt32) : UInt16 := UInt16.ofNat w.toNat

def targetField (w : UInt32) : JumpTarget := ⟨w.toNat % 0x4000000, Nat.mod_lt _ (by decide)⟩

def memoryOp? : Nat → Option MemoryOp
  | 0x20 => some .lb
  | 0x21 => some .lh
  | 0x23 => some .lw
  | 0x24 => some .lbu
  | 0x25 => some .lhu
  | 0x28 => some .sb
  | 0x29 => some .sh
  | 0x2B => some .sw
  | _ => none

/-- The instruction that a word stands for. -/
def ofWord? (w : UInt32) : Option Instruction :=
  match opcode w with
  | 0x00 =>
    if w = 0 then some .nop
    else if w.toNat % 0x200000 = 0x08 then some (.jr (firstField w))
    else none
  | 0x02 => some (.jump .j (targetField w))
  | 0x03 => some (.jump .jal (targetField w))
  | 0x04 => some (.branch .beq (firstField w) (secondField w) (lowField w).toInt16)
  | 0x05 => some (.branch .bne (firstField w) (secondField w) (lowField w).toInt16)
  | 0x09 => some (.addiu (secondField w) (firstField w) (lowField w).toInt16)
  | 0x0D => some (.ori (secondField w) (firstField w) (lowField w))
  | 0x0F => if firstField w = .zero then some (.lui (secondField w) (lowField w)) else none
  | op => (memoryOp? op).map fun m =>
      .memory m (secondField w) (lowField w).toInt16 (firstField w)

theorem code_lt (m : Mnemonic) : m.code < 0x40 := by
  have hall : ∀ m ∈ Mnemonic.all, m.code < 0x40 := by decide
  exact hall m m.mem_all

section Fields

variable {op : Nat} (hop : op < 0x40) (rs rt : Register) (low : UInt16)
include hop

theorem toNat_immediateWord : (immediateWord op rs rt low).toNat =
    op * 0x4000000 + rs.val * 0x200000 + rt.val * 0x10000 + low.toNat := by
  have hrs := rs.isLt
  have hrt := rt.isLt
  have hlow := low.toNat_lt
  rw [immediateWord, UInt32.toNat_ofNat']
  omega

theorem opcode_immediateWord : opcode (immediateWord op rs rt low) = op := by
  have hrs := rs.isLt
  have hrt := rt.isLt
  have hlow := low.toNat_lt
  rw [opcode, toNat_immediateWord hop]
  omega

theorem firstField_immediateWord : firstField (immediateWord op rs rt low) = rs := by
  have hrt := rt.isLt
  have hlow := low.toNat_lt
  apply Fin.ext
  simp only [firstField, toNat_immediateWord hop]
  omega

theorem secondField_immediateWord : secondField (immediateWord op rs rt low) = rt := by
  have hlow := low.toNat_lt
  apply Fin.ext
  simp only [secondField, toNat_immediateWord hop]
  omega

theorem lowField_immediateWord : lowField (immediateWord op rs rt low) = low := by
  have hlow := low.toNat_lt
  apply UInt16.toNat_inj.1
  rw [lowField, UInt16.toNat_ofNat', toNat_immediateWord hop]
  omega

end Fields

theorem toNat_jumpWord {op : Nat} (hop : op < 0x40) (target : JumpTarget) :
    (UInt32.ofNat (op * 0x4000000 + target.val)).toNat = op * 0x4000000 + target.val := by
  have htarget := target.isLt
  rw [UInt32.toNat_ofNat']
  omega

theorem opcode_jumpWord {op : Nat} (hop : op < 0x40) (target : JumpTarget) :
    opcode (UInt32.ofNat (op * 0x4000000 + target.val)) = op := by
  have htarget := target.isLt
  rw [opcode, toNat_jumpWord hop]
  omega

theorem targetField_jumpWord {op : Nat} (hop : op < 0x40) (target : JumpTarget) :
    targetField (UInt32.ofNat (op * 0x4000000 + target.val)) = target := by
  have htarget := target.isLt
  apply Fin.ext
  simp only [targetField, toNat_jumpWord hop]
  omega

theorem ofWord?_jumpWord (op : JumpOp) (target : JumpTarget) :
    ofWord? (jump op target).word = some (jump op target) := by
  have hcode := code_lt (.jump op)
  have hopcode : opcode (jump op target).word = (Mnemonic.jump op).code :=
    opcode_jumpWord hcode target
  have hfield : targetField (jump op target).word = target := targetField_jumpWord hcode target
  cases op with
  | j => simp only [ofWord?, hopcode, hfield, Mnemonic.code]
  | jal => simp only [ofWord?, hopcode, hfield, Mnemonic.code]

theorem ofWord?_jrWord (rs : Register) : ofWord? (jr rs).word = some (jr rs) := by
  revert rs
  decide +kernel

theorem ofWord?_word (i : Instruction) : ofWord? i.word = some i := by
  cases i with
  | nop => rfl
  | jr rs => exact ofWord?_jrWord rs
  | jump op target => exact ofWord?_jumpWord op target
  | memory op rt offset base =>
    cases op <;> simp [ofWord?, word, mnemonic, Mnemonic.code, memoryOp?, opcode_immediateWord,
      secondField_immediateWord, firstField_immediateWord, lowField_immediateWord]
  | branch op rs rt offset =>
    cases op <;> simp [ofWord?, word, mnemonic, Mnemonic.code, opcode_immediateWord,
      secondField_immediateWord, firstField_immediateWord, lowField_immediateWord]
  | _ =>
    simp [ofWord?, word, mnemonic, Mnemonic.code, opcode_immediateWord,
      secondField_immediateWord, firstField_immediateWord, lowField_immediateWord]

theorem eq_of_word_eq {i i' : Instruction} (h : i.word = i'.word) : i = i' := by
  have hdecoded := ofWord?_word i
  rw [h, ofWord?_word] at hdecoded
  exact (Option.some.inj hdecoded).symm

end CartPatch.Mips.Instruction
