import CartPatch.Cheat.Session
import CartPatch.Proofs.Cheat.Listing
import CartPatch.Proofs.Mips.Machine
import CartPatch.Proofs.Mips.Operand

/-!
Cheat routines do what their codes say. The lines of a list are assembled to instructions
(`assembles_routineLines`), and running these has the effect of the list on memory and ends behind
the last of them (`exec_routine`). Only the registers `t0`, `t1` and `t2` change.
-/

namespace CartPatch.Cheat

open Mips Assembler Machine Numeral

namespace Code

def storeOp (o : Opcode) : MemoryOp := if o.isByteSized then .sb else .sh

def loadOp (o : Opcode) : MemoryOp := if o.isByteSized then .lbu else .lhu

def skipOp : Opcode → BranchOp
  | .if8 | .if16 => .bne
  | _ => .beq

def writeInstructions (c : Code) : List Instruction :=
  [.lui .t0 (upperHalf c.address), .ori .t1 .zero c.value,
    .memory (storeOp c.opcode) .t1 (lowerHalf c.address) .t0]

def compareInstructions (c : Code) : List Instruction :=
  [.lui .t0 (upperHalf c.address), .memory (loadOp c.opcode) .t1 (lowerHalf c.address) .t0,
    .ori .t2 .zero c.value]

/-- The branch of a comparison, over `skip` instructions behind its delay slot. -/
def branchInstruction (c : Code) (skip : ℕ) : Instruction :=
  .branch (skipOp c.opcode) .t1 .t2 (Int16.ofNat (skip + 1))

def instructions (c : Code) (skip : ℕ) : List Instruction :=
  if c.opcode.isConditional then c.compareInstructions ++ [c.branchInstruction skip, .nop]
  else c.writeInstructions

theorem size_of_isConditional {c : Code} (h : c.opcode.isConditional) : c.size = 5 := by
  simp [size, h]

theorem length_instructions (c : Code) (skip : ℕ) : (c.instructions skip).length = c.size := by
  unfold instructions size
  split <;> rfl

section Lines

theorem store_eq (o : Opcode) : store o = ((Mnemonic.memory (storeOp o)).name : Text) := by
  cases o <;> rfl

theorem load_eq (o : Opcode) : load o = ((Mnemonic.memory (loadOp o)).name : Text) := by
  cases o <;> rfl

theorem skipBranch_eq (o : Opcode) :
    skipBranch o = ((Mnemonic.branch (skipOp o)).name : Text) := by
  cases o <;> rfl

theorem parse_nop : parse "nop" = .ok .nop := rfl

theorem parse_upper (c : Code) :
    parse ("lui t0, 0x" ++ capitalHex 4 (upperHalf c.address).toNat) =
      .ok (.lui .t0 (upperHalf c.address)) := by
  have hlui := parse_luiText "lui t0, 0x" .t0 rfl (upperHalf c.address).toNat_lt
  rwa [UInt16.ofNat_toNat] at hlui

theorem parse_value (c : Code) (rt : Register) (head : Text) (hhead : head ++ "zero, 0x" =
      "ori " ++ (rt.name : Text) ++ ", " ++ (Register.zero.name : Text) ++ ", 0x") :
    parse (head ++ ("zero, 0x" ++ capitalHex 0 c.value.toNat)) = .ok (.ori rt .zero c.value) := by
  have hori := parse_oriText (head ++ "zero, 0x") rt .zero hhead 0 c.value.toNat_lt
  rwa [UInt16.ofNat_toNat, List.append_assoc] at hori

theorem parse_access (c : Code) (op : MemoryOp) :
    parse (((Mnemonic.memory op).name : Text) ++ " t1, " ++
      (offsetText (lowerHalf c.address) ++ "(t0)")) =
        .ok (.memory op .t1 (lowerHalf c.address) .t0) := by
  have hmemory := parse_memoryText (((Mnemonic.memory op).name : Text) ++ " t1, ") "(t0)" op .t1 .t0
    (by rw [List.append_assoc]; rfl) rfl (lowerHalf c.address)
  rwa [List.append_assoc] at hmemory

theorem assembles_lines (c : Code) {skip : ℕ} (hskip : skip ≤ 5) :
    Assembles (c.lines skip) (c.instructions skip) := by
  have hupper := parse_upper c
  unfold lines instructions
  split
  · have hload := parse_access c (loadOp c.opcode)
    have hvalue := parse_value c .t2 "ori t2, " rfl
    have hbranch := parse_branchText (skipBranch c.opcode ++ " t1, t2, ") (skipOp c.opcode) .t1 .t2
      (by rw [skipBranch_eq]; simp only [List.append_assoc]; rfl) (by omega : skip + 1 < 0x8000)
    rw [← load_eq] at hload
    exact assembles_cons.2 ⟨hupper, assembles_cons.2 ⟨hload, assembles_cons.2 ⟨hvalue,
      assembles_cons.2 ⟨hbranch, assembles_cons.2 ⟨parse_nop, assembles_nil⟩⟩⟩⟩⟩
  · have hvalue := parse_value c .t1 "ori t1, " rfl
    have hstore := parse_access c (storeOp c.opcode)
    rw [← store_eq] at hstore
    exact assembles_cons.2 ⟨hupper, assembles_cons.2 ⟨hvalue, assembles_cons.2 ⟨hstore,
      assembles_nil⟩⟩⟩

end Lines

section Effects

variable {c : Code} {d : Data}

theorem IsAligned.storeOp (halign : c.IsAligned) :
    c.address.toNat % (storeOp c.opcode).size = 0 := by
  have hsize : (Code.storeOp c.opcode).size = c.width := by
    unfold Code.storeOp width
    split <;> rfl
  rw [hsize]
  exact halign

theorem IsAligned.loadOp (halign : c.IsAligned) :
    c.address.toNat % (loadOp c.opcode).size = 0 := by
  have hsize : (Code.loadOp c.opcode).size = c.width := by
    unfold Code.loadOp width
    split <;> rfl
  rw [hsize]
  exact halign

theorem perform_storeOp (hvalue : d.reg .t1 = c.value.toUInt32) :
    (storeOp c.opcode).perform .t1 c.address d = d.store c.address c.bytes := by
  have hlt := c.value.toNat_lt
  unfold storeOp bytes
  split
  · have hbyte : c.value.toUInt32.toUInt8 = UInt8.ofNat c.value.toNat := rfl
    simp only [MemoryOp.perform, hvalue, hbyte]
  · simp only [MemoryOp.perform, hvalue, UInt16.toUInt16_toUInt32]

theorem perform_loadOp : ∃ v, (loadOp c.opcode).perform .t1 c.address d = d.set .t1 v ∧
    (v = c.value.toUInt32 ↔ c.isHeld d.memory) := by
  unfold loadOp isHeld
  split
  · refine ⟨(d.memory c.address).toUInt32, rfl, ?_⟩
    simp [← UInt32.toNat_inj]
  · refine ⟨(d.memory.half c.address).toUInt32, rfl, ?_⟩
    simp [← UInt32.toNat_inj, ← UInt16.toNat_inj]

theorem straight_write (halign : c.IsAligned) :
    ∃ d', straight c.writeInstructions d = some d' ∧ d'.memory = c.write d.memory ∧
      ∀ r, r ∉ [Register.t0, .t1, .t2] → d'.reg r = d.reg r := by
  set d₁ := d.set .t0 ((upperHalf c.address).toUInt32 <<< 16) with hd₁
  set d₂ := d₁.set .t1 c.value.toUInt32 with hd₂
  have hupper : d₂.reg .t0 = (upperHalf c.address).toUInt32 <<< 16 := by
    rw [hd₂, Data.reg_set_of_ne _ _ (by decide), hd₁, Data.reg_set_self _ _ (by decide)]
  have hstore := Instruction.effect_lowerHalf (storeOp c.opcode) .t1 .t0 halign.storeOp hupper
  rw [perform_storeOp (Data.reg_set_self _ _ (by decide))] at hstore
  refine ⟨d₂.store c.address c.bytes, ?_, rfl, ?_⟩
  · have hvalue : (Instruction.ori .t1 .zero c.value).effect d₁ = some d₂ := by
      simp [Instruction.effect, hd₂]
    rw [writeInstructions, straight_cons, Instruction.effect, Option.bind_some, straight_cons,
      hvalue, Option.bind_some, straight_cons, hstore]
    rfl
  · intro r hr
    simp only [List.mem_cons, List.not_mem_nil, or_false, not_or] at hr
    rw [Data.reg_store, hd₂, Data.reg_set_of_ne _ _ hr.2.1, hd₁, Data.reg_set_of_ne _ _ hr.1]

theorem straight_compare (halign : c.IsAligned) :
    ∃ d', straight c.compareInstructions d = some d' ∧ d'.memory = d.memory ∧
      (d'.reg .t1 = d'.reg .t2 ↔ c.isHeld d.memory) ∧
      ∀ r, r ∉ [Register.t0, .t1, .t2] → d'.reg r = d.reg r := by
  set d₁ := d.set .t0 ((upperHalf c.address).toUInt32 <<< 16) with hd₁
  have hupper : d₁.reg .t0 = (upperHalf c.address).toUInt32 <<< 16 :=
    Data.reg_set_self _ _ (by decide)
  obtain ⟨v, hv, hheld⟩ := perform_loadOp (c := c) (d := d₁)
  have hload := Instruction.effect_lowerHalf (loadOp c.opcode) .t1 .t0 halign.loadOp hupper
  rw [hv] at hload
  refine ⟨(d₁.set .t1 v).set .t2 c.value.toUInt32, ?_, rfl, ?_, ?_⟩
  · rw [compareInstructions, straight_cons, Instruction.effect, Option.bind_some, straight_cons,
      hload]
    simp [Instruction.effect]
  · rw [Data.reg_set_of_ne _ _ (by decide), Data.reg_set_self _ _ (by decide),
      Data.reg_set_self _ _ (by decide)]
    exact hheld
  · intro r hr
    simp only [List.mem_cons, List.not_mem_nil, or_false, not_or] at hr
    rw [Data.reg_set_of_ne _ _ hr.2.2, Data.reg_set_of_ne _ _ hr.2.1, hd₁,
      Data.reg_set_of_ne _ _ hr.1]

theorem target_branchInstruction {m : Memory} (skip : ℕ) (pc : UInt32)
    (hconditional : c.opcode.isConditional) (hheld : d.reg .t1 = d.reg .t2 ↔ c.isHeld m) :
    (c.branchInstruction skip).target pc d =
      if c.passes m then none else some (pc + 4 + signed (Int16.ofNat (skip + 1)) * 4) := by
  unfold branchInstruction passes
  cases hopcode : c.opcode with
  | write8 | write16 => simp [hopcode, Opcode.isConditional] at hconditional
  | if8 | if16 => simp [skipOp, Instruction.target, hheld]
  | ifNot8 | ifNot16 => by_cases h : c.isHeld m <;> simp [skipOp, Instruction.target, hheld, h]

end Effects

end Code

def routineInstructions : List Code → List Instruction
  | [] => []
  | c :: cs => c.instructions (nextSize cs) ++ routineInstructions cs

theorem length_routineInstructions (codes : List Code) :
    (routineInstructions codes).length = routineSize codes := by
  induction codes with
  | nil => rfl
  | cons c cs ih => simp [routineInstructions, routineSize, ih, Code.length_instructions]

theorem nextSize_le (codes : List Code) : nextSize codes ≤ 5 := by
  cases codes with
  | nil => simp [nextSize]
  | cons c cs =>
    simp only [nextSize, Code.size]
    split <;> omega

theorem assembles_routineLines (codes : List Code) :
    Assembles (routineLines codes) (routineInstructions codes) := by
  induction codes with
  | nil => exact assembles_nil
  | cons c cs ih => exact (c.assembles_lines (nextSize_le cs)).append ih

/-- The routine of a list is its instructions, however long the list is. -/
theorem compile_eq (codes : List Code) :
    compile codes = .ok (Bytes.ofWords ((routineInstructions codes).map Instruction.word)) := by
  rw [compile, machineCode, (assembles_routineLines codes).assembleAll_eq]
  rfl

/-- The number of instructions passed over at the beginning of a list. -/
def skippedSize (skip : Bool) (codes : List Code) : ℕ := if skip then nextSize codes else 0

theorem skippedSize_not (passes : Bool) (codes : List Code) :
    skippedSize (!passes) codes = if passes then 0 else nextSize codes := by cases passes <;> rfl

section Runs

variable {p : Program} {base : UInt32} {d : Data}

theorem exec_write {c : Code} (halign : c.IsAligned) (hconditional : c.opcode.isConditional = false)
    {skip : ℕ} (hwords : p.Holds base ((c.instructions skip).map Instruction.word)) :
    ∃ d', Exec p (before base d) c.size (before (place base c.size) d') ∧
      d'.memory = c.write d.memory ∧ ∀ r, r ∉ [Register.t0, .t1, .t2] → d'.reg r = d.reg r := by
  obtain ⟨d', hrun, hmemory, hreg⟩ := Code.straight_write (d := d) halign
  have his : c.instructions skip = c.writeInstructions := by simp [Code.instructions, hconditional]
  have hexec := exec_straight hwords (by simp [his, Code.writeInstructions, Instruction.isPlain])
    (his ▸ hrun)
  rw [Code.length_instructions] at hexec
  exact ⟨d', hexec, hmemory, hreg⟩

/-- A comparison that holds goes on behind itself, and one that fails behind the next code. -/
theorem exec_compare {c : Code} (halign : c.IsAligned) (hconditional : c.opcode.isConditional)
    {skip : ℕ} (hskip : skip ≤ 5)
    (hwords : p.Holds base ((c.instructions skip).map Instruction.word)) :
    ∃ d', Exec p (before base d) 5
        (before (place base (c.size + if c.passes d.memory then 0 else skip)) d') ∧
      d'.memory = d.memory ∧ ∀ r, r ∉ [Register.t0, .t1, .t2] → d'.reg r = d.reg r := by
  obtain ⟨d', hrun, hmemory, hheld, hreg⟩ := Code.straight_compare (d := d) halign
  have hsize := Code.size_of_isConditional hconditional
  have his : c.instructions skip =
      c.compareInstructions ++ [c.branchInstruction skip, .nop] := by
    simp [Code.instructions, hconditional]
  rw [his, List.map_append] at hwords
  obtain ⟨hcompare, hbranch⟩ := Program.holds_append.1 hwords
  have h₁ := exec_straight hcompare (by simp [Code.compareInstructions, Instruction.isPlain]) hrun
  have htarget := Code.target_branchInstruction skip (place base 3) hconditional hheld
  refine ⟨d', ?_, hmemory, hreg⟩
  by_cases hpasses : c.passes d.memory
  · rw [if_pos hpasses] at htarget
    obtain ⟨hword, hrest⟩ := Program.holds_cons.1 hbranch
    have h₂ : Exec p (before (place base 3) d') 1 (before (place base 3 + 4) d') :=
      exec_onward hword rfl htarget rfl
    have h₃ : Exec p (before (place base 3 + 4) d') 1 (before (place base 3 + 4 + 4) d') :=
      exec_onward (Program.holds_cons.1 hrest).1 rfl rfl rfl
    rw [← place_succ] at h₂
    rw [← place_succ, ← place_succ] at h₃
    rw [if_pos hpasses, hsize]
    exact h₁.trans (h₂.trans h₃)
  · rw [if_neg hpasses] at htarget
    have h₂ := exec_away hbranch rfl rfl htarget rfl
    rw [place_branch base 3 (by omega), Nat.add_comm skip, ← Nat.add_assoc] at h₂
    rw [if_neg hpasses, hsize]
    exact h₁.trans h₂

theorem exec_routine {codes : List Code} (halign : ∀ c ∈ codes, c.IsAligned) (skip : Bool)
    (hwords : p.Holds base ((routineInstructions codes).map Instruction.word)) :
    ∃ n d', n + skippedSize skip codes ≤ routineSize codes ∧
      Exec p (before (place base (skippedSize skip codes)) d) n
        (before (place base (routineSize codes)) d') ∧
      d'.memory = interpretFrom skip codes d.memory ∧
      ∀ r, r ∉ [Register.t0, .t1, .t2] → d'.reg r = d.reg r := by
  induction codes generalizing skip base d with
  | nil =>
    refine ⟨0, d, ?_, ?_, ?_, fun _ _ => rfl⟩
    · cases skip <;> simp [skippedSize, nextSize, routineSize]
    · cases skip <;> exact .refl _
    · cases skip <;> rfl
  | cons c cs ih =>
    rw [routineInstructions, List.map_append] at hwords
    obtain ⟨hcode, hrest⟩ := Program.holds_append.1 hwords
    rw [List.length_map, Code.length_instructions] at hrest
    have hc := halign c List.mem_cons_self
    have hcs := fun c' hc' => halign c' (List.mem_cons_of_mem c hc')
    cases skip with
    | true =>
      obtain ⟨n, d', hn, hexec, hmemory, hreg⟩ := ih (d := d) hcs false hrest
      rw [place_place, place_place] at hexec
      refine ⟨n, d', ?_, hexec, hmemory, hreg⟩
      simp only [skippedSize, nextSize, routineSize, if_true, Bool.false_eq_true, if_false] at hn ⊢
      omega
    | false =>
      by_cases hconditional : c.opcode.isConditional
      · obtain ⟨d₁, h₁, hmemory₁, hreg₁⟩ := exec_compare (d := d) hc hconditional
          (nextSize_le cs) hcode
        obtain ⟨n, d', hn, h₂, hmemory, hreg⟩ := ih (d := d₁) hcs (!c.passes d.memory) hrest
        rw [place_place, place_place, skippedSize_not] at h₂
        refine ⟨5 + n, d', ?_, by simpa [skippedSize, routineSize] using h₁.trans h₂, ?_, ?_⟩
        · have hsize := Code.size_of_isConditional hconditional
          simp only [skippedSize, routineSize, hsize, Bool.false_eq_true, if_false]
          omega
        · rw [hmemory, hmemory₁, interpretFrom, if_pos hconditional]
        · intro r hr
          rw [hreg r hr, hreg₁ r hr]
      · obtain ⟨d₁, h₁, hmemory₁, hreg₁⟩ :=
          exec_write (d := d) hc (by simpa using hconditional) hcode
        obtain ⟨n, d', hn, h₂, hmemory, hreg⟩ := ih (d := d₁) hcs false hrest
        rw [place_place, place_place] at h₂
        refine ⟨c.size + n, d', ?_, by simpa [skippedSize, routineSize] using h₁.trans h₂, ?_, ?_⟩
        · simp only [skippedSize, routineSize, Bool.false_eq_true, if_false] at hn ⊢
          omega
        · rw [hmemory, hmemory₁, interpretFrom, if_neg hconditional]
        · intro r hr
          rw [hreg r hr, hreg₁ r hr]

/-- A routine has the effect of its codes on memory, and falls through behind its last word. -/
theorem compile_interprets {text : Text} {codes : List Code}
    (hparse : Listing.parse text = .ok codes) :
    ∃ words, compile codes = .ok (Bytes.ofWords words) ∧
      ∀ (p : Program) (base : UInt32) (d : Data), p.Holds base words →
        ∃ n d', n ≤ words.length ∧
          Exec p (before base d) n (before (place base words.length) d') ∧
          d'.memory = interpret codes d.memory ∧
          ∀ r, r ∉ [Register.t0, .t1, .t2] → d'.reg r = d.reg r := by
  refine ⟨(routineInstructions codes).map Instruction.word, compile_eq codes, ?_⟩
  intro p base d hwords
  obtain ⟨n, d', hn, hexec, hmemory, hreg⟩ :=
    exec_routine (d := d) (Listing.isAligned_of_parse hparse) false hwords
  rw [List.length_map, length_routineInstructions]
  refine ⟨n, d', ?_, ?_, hmemory, hreg⟩
  · simpa [skippedSize] using hn
  · simpa [skippedSize] using hexec

/-- A comparison with one guarded write. -/
theorem compile_interprets_guarded :
    ∃ codes, Listing.parse "D00F93AA 0001 810F93AC 0063" = .ok codes ∧
      ∃ words, compile codes = .ok (Bytes.ofWords words) ∧
        ∀ (p : Program) (base : UInt32) (d : Data), p.Holds base words →
          ∃ n d', n ≤ words.length ∧
            Exec p (before base d) n (before (place base words.length) d') ∧
            d'.memory = interpret codes d.memory ∧
            ∀ r, r ∉ [Register.t0, .t1, .t2] → d'.reg r = d.reg r := by
  have hparse : Listing.parse "D00F93AA 0001 810F93AC 0063" =
      .ok [⟨.if8, 0x800F93AA, 1⟩, ⟨.write16, 0x800F93AC, 0x63⟩] := by rfl
  exact ⟨_, hparse, compile_interprets hparse⟩

end Runs

end CartPatch.Cheat
