import Mathlib.Logic.Function.Basic
import CartPatch.Mips.Address
import CartPatch.Proofs.Mips.Decoding
import CartPatch.Proofs.Mips.Memory

/-!
The machine that runs the instructions, one word at a time. A jump or a taken branch takes effect
one instruction late: the word behind it, its delay slot, runs in any case. So the machine has the
address of the instruction to run and the address of the one after it.

Programs do not change while they run: the words of the program are kept apart from memory. An
address of a half word or a word that is not a multiple of its size stops the machine.
-/

namespace CartPatch.Mips

abbrev Program := UInt32 → Option UInt32

def Program.Holds (p : Program) (base : UInt32) (ws : List UInt32) : Prop :=
  ∀ i, (h : i < ws.length) → p (place base i) = some ws[i]

theorem Program.holds_cons {p : Program} {base w : UInt32} {ws : List UInt32} :
    p.Holds base (w :: ws) ↔ p base = some w ∧ p.Holds (base + 4) ws := by
  constructor
  · intro h
    have hfirst : p (place base 0) = some w := h 0 (by simp)
    refine ⟨by simpa using hfirst, fun i hi => ?_⟩
    rw [place_add_four]
    exact h (i + 1) (by simpa using hi)
  · rintro ⟨hw, h⟩ i hi
    cases i with
    | zero => simpa using hw
    | succ i =>
      rw [← place_add_four]
      exact h i (by simpa using hi)

theorem Program.holds_append {p : Program} {base : UInt32} {ws ws' : List UInt32} :
    p.Holds base (ws ++ ws') ↔ p.Holds base ws ∧ p.Holds (place base ws.length) ws' := by
  induction ws generalizing base with
  | nil => simp [Program.Holds]
  | cons w ws ih =>
    rw [List.cons_append, holds_cons, holds_cons, ih, place_add_four, and_assoc, List.length_cons]

def Program.ofWords (base : UInt32) (ws : List UInt32) : Program := fun a =>
  if (a - base).toNat % 4 = 0 then ws[(a - base).toNat / 4]? else none

theorem Program.holds_ofWords (base : UInt32) {ws : List UInt32}
    (hsize : 4 * ws.length ≤ 0x100000000) : (Program.ofWords base ws).Holds base ws := by
  intro i hi
  have hdistance : (place base i - base).toNat = 4 * i := by
    have heq : place base i - base = UInt32.ofNat (4 * i) := by
      rw [place]
      grind
    rw [heq, UInt32.toNat_ofNat']
    omega
  have hindex : 4 * i / 4 = i := by omega
  rw [ofWords, hdistance, if_pos (Nat.mul_mod_right 4 i), hindex, List.getElem?_eq_getElem hi]

theorem Program.mem_of_ofWords {base a w : UInt32} {ws : List UInt32}
    (h : Program.ofWords base ws a = some w) : w ∈ ws := by
  rw [ofWords, Option.ite_none_right_eq_some] at h
  exact List.mem_of_getElem? h.2

structure Data where
  registers : Register → UInt32
  memory : Memory

namespace Data

/-- The value of a register; the register `zero` is always zero. -/
def reg (d : Data) (r : Register) : UInt32 := if r = .zero then 0 else d.registers r

def set (d : Data) (r : Register) (v : UInt32) : Data :=
  { d with registers := Function.update d.registers r v }

def store (d : Data) (a : UInt32) (bytes : Bytes) : Data :=
  { d with memory := d.memory.write a bytes }

@[simp] theorem reg_zero (d : Data) : d.reg .zero = 0 := by simp [reg]

theorem reg_set_self (d : Data) {r : Register} (v : UInt32) (hr : r ≠ .zero) :
    (d.set r v).reg r = v := by simp [reg, set, hr]

theorem reg_set_of_ne (d : Data) {r r' : Register} (v : UInt32) (h : r' ≠ r) :
    (d.set r v).reg r' = d.reg r' := by simp [reg, set, h]

@[simp] theorem memory_set (d : Data) (r : Register) (v : UInt32) :
    (d.set r v).memory = d.memory := rfl

@[simp] theorem reg_store (d : Data) (a : UInt32) (bytes : Bytes) (r : Register) :
    (d.store a bytes).reg r = d.reg r := rfl

@[simp] theorem memory_store (d : Data) (a : UInt32) (bytes : Bytes) :
    (d.store a bytes).memory = d.memory.write a bytes := rfl

end Data

def signed (offset : Int16) : UInt32 := UInt32.ofInt offset.toInt

theorem toNat_signed (offset : Int16) :
    (signed offset).toNat = (offset.toInt % 0x100000000).toNat := by
  rw [signed, UInt32.ofInt, UInt32.toNat_ofNat']
  omega

theorem signed_ofNat {n : ℕ} (hn : n < 0x8000) : signed (Int16.ofNat n) = UInt32.ofNat n := by
  apply UInt32.toNat_inj.1
  rw [toNat_signed, Int16.toInt_ofNat_of_lt hn, UInt32.toNat_ofNat']
  omega

theorem signed_ofInt_neg {n : ℕ} (hn : n ≤ 0x8000) :
    signed (Int16.ofInt (-n)) = -UInt32.ofNat n := by
  have htoInt : (Int16.ofInt (-n)).toInt = -n := Int16.toInt_ofInt_of_le (by omega) (by omega)
  apply UInt32.toNat_inj.1
  rw [toNat_signed, htoInt, UInt32.toNat_neg, UInt32.toNat_ofNat', UInt32.size]
  omega

/-- A branch counts words from its delay slot. -/
theorem place_branch (base : UInt32) (n : ℕ) {k : ℕ} (hk : k < 0x8000) :
    place base n + 4 + signed (Int16.ofNat k) * 4 = place base (n + 1 + k) := by
  rw [signed_ofNat hk, ← place_succ, ← place_place base (n + 1) k]
  show _ = place base (n + 1) + UInt32.ofNat (4 * k)
  rw [Nat.mul_comm, UInt32.ofNat_mul]
  rfl

theorem upperHalf_shiftLeft_add_lowerHalf (a : UInt32) :
    (upperHalf a).toUInt32 <<< 16 + signed (lowerHalf a) = a := by
  have ha := a.toNat_lt
  apply UInt32.toNat_inj.1
  rw [UInt32.toNat_add, UInt32.toNat_shiftLeft, UInt16.toNat_toUInt32, upperHalf, toNat_signed,
    lowerHalf, UInt16.toNat_ofNat', Int16.toInt_ofNat', Int.bmod_def, Nat.shiftLeft_eq]
  simp only [UInt32.reduceToNat, Nat.reduceMod, Nat.reducePow, Int16.size]
  split <;> omega

theorem shiftLeft_or_halves (w : UInt32) :
    (UInt16.ofNat (w.toNat / 0x10000)).toUInt32 <<< 16 |||
      (UInt16.ofNat (w.toNat % 0x10000)).toUInt32 = w := by
  have hw := w.toNat_lt
  have hlow : w.toNat % 0x10000 < 2 ^ 16 := Nat.mod_lt _ (by decide)
  have hhigh : w.toNat / 0x10000 % 2 ^ 16 = w.toNat / 0x10000 := Nat.mod_eq_of_lt (by omega)
  have hshift : (w.toNat / 0x10000) <<< 16 % 2 ^ 32 = (w.toNat / 0x10000) <<< 16 := by
    rw [Nat.shiftLeft_eq]
    omega
  apply UInt32.toNat_inj.1
  rw [UInt32.toNat_or, UInt32.toNat_shiftLeft, UInt16.toNat_toUInt32, UInt16.toNat_toUInt32,
    UInt16.toNat_ofNat', UInt16.toNat_ofNat', hhigh, Nat.mod_eq_of_lt hlow]
  show (w.toNat / 0x10000) <<< 16 % 2 ^ 32 ||| w.toNat % 0x10000 = w.toNat
  rw [hshift, ← Nat.shiftLeft_add_eq_or_of_lt hlow, Nat.shiftLeft_eq]
  omega

def MemoryOp.size : MemoryOp → ℕ
  | lb | lbu | sb => 1
  | lh | lhu | sh => 2
  | lw | sw => 4

def MemoryOp.perform (op : MemoryOp) (rt : Register) (a : UInt32) (d : Data) : Data :=
  match op with
  | lb => d.set rt (UInt32.ofInt (d.memory a).toInt8.toInt)
  | lbu => d.set rt (d.memory a).toUInt32
  | lh => d.set rt (UInt32.ofInt (d.memory.half a).toInt16.toInt)
  | lhu => d.set rt (d.memory.half a).toUInt32
  | lw => d.set rt (d.memory.word a)
  | sb => d.store a [(d.reg rt).toUInt8]
  | sh => d.store a (Bytes.ofHalf (d.reg rt).toUInt16)
  | sw => d.store a (Bytes.ofWord (d.reg rt))

namespace Instruction

/-- What an instruction does to registers and memory, but for the return address of a call. -/
def effect (d : Data) : Instruction → Option Data
  | addiu rt rs value => some (d.set rt (d.reg rs + signed value))
  | ori rt rs value => some (d.set rt (d.reg rs ||| value.toUInt32))
  | lui rt value => some (d.set rt (value.toUInt32 <<< 16))
  | memory op rt offset base =>
    let a := d.reg base + signed offset
    if a.toNat % op.size = 0 then some (op.perform rt a d) else none
  | nop | jr _ | branch _ _ _ _ | jump _ _ => some d

/-- The address that a jump's target stands for, in the segment of its delay slot. -/
def jumpAddress (pc : UInt32) (target : JumpTarget) : UInt32 :=
  UInt32.ofNat ((pc + 4).toNat / 0x10000000 * 0x10000000 + target.val * 4)

/-- Where an instruction at `pc` has the machine go on behind its delay slot. -/
def target (pc : UInt32) (d : Data) : Instruction → Option UInt32
  | jr rs => some (d.reg rs)
  | branch .beq rs rt offset =>
    if d.reg rs = d.reg rt then some (pc + 4 + signed offset * 4) else none
  | branch .bne rs rt offset =>
    if d.reg rs = d.reg rt then none else some (pc + 4 + signed offset * 4)
  | jump _ t => some (jumpAddress pc t)
  | nop | addiu _ _ _ | ori _ _ _ | lui _ _ | memory _ _ _ _ => none

/-- Keeps the return address of a call, which is behind the delay slot. -/
def link (pc : UInt32) (d : Data) : Instruction → Data
  | jump .jal _ => d.set .ra (pc + 8)
  | _ => d

/-- Whether the machine always goes on with the next instruction. -/
def isPlain : Instruction → Bool
  | jr _ | branch _ _ _ _ | jump _ _ => false
  | nop | addiu _ _ _ | ori _ _ _ | lui _ _ | memory _ _ _ _ => true

theorem target_of_isPlain {i : Instruction} (h : i.isPlain) (pc : UInt32) (d : Data) :
    i.target pc d = none := by
  cases i with
  | jr | branch | jump => simp [isPlain] at h
  | _ => rfl

theorem link_of_isPlain {i : Instruction} (h : i.isPlain) (pc : UInt32) (d : Data) :
    i.link pc d = d := by
  cases i with
  | jump => simp [isPlain] at h
  | _ => rfl

theorem effect_of_not_isPlain {i : Instruction} (h : i.isPlain = false) (d : Data) :
    i.effect d = some d := by
  cases i with
  | jr | branch | jump => rfl
  | _ => simp [isPlain] at h

/-- With the upper half of an address in a register, a load or a store behind it reaches the
address. -/
theorem effect_lowerHalf (op : MemoryOp) (rt base : Register) {a : UInt32} {d : Data}
    (halign : a.toNat % op.size = 0) (hupper : d.reg base = (upperHalf a).toUInt32 <<< 16) :
    (memory op rt (lowerHalf a) base).effect d = some (op.perform rt a d) := by
  have haddress : d.reg base + signed (lowerHalf a) = a := by
    rw [hupper, upperHalf_shiftLeft_add_lowerHalf]
  simp only [effect, haddress, halign, if_true]

theorem jumpAddress_ofAddress {pc a : UInt32} (haligned : a.toNat % 4 = 0)
    (hsegment : a.toNat / 0x10000000 = (pc + 4).toNat / 0x10000000) :
    jumpAddress pc (.ofAddress a) = a := by
  have ha := a.toNat_lt
  apply UInt32.toNat_inj.1
  simp only [jumpAddress, JumpTarget.ofAddress, ← hsegment]
  rw [UInt32.toNat_ofNat']
  omega

end Instruction

/-- A state of the machine: the address of the instruction to run, the address of the one after it,
registers and memory. -/
structure Machine where
  pc : UInt32
  nextPc : UInt32
  data : Data

/-- The state before the instruction at `pc`, where it is in no delay slot. -/
def Machine.before (pc : UInt32) (d : Data) : Machine := ⟨pc, pc + 4, d⟩

def step (p : Program) (s : Machine) : Option Machine := do
  let i ← Instruction.ofWord? (← p s.pc)
  let d ← i.effect s.data
  return ⟨s.nextPc, (i.target s.pc s.data).getD (s.nextPc + 4), i.link s.pc d⟩

/-- The machine gets from one state to another in a number of steps. -/
inductive Exec (p : Program) : Machine → ℕ → Machine → Prop
  | refl (s : Machine) : Exec p s 0 s
  | succ {s s' t : Machine} {n : ℕ} : step p s = some s' → Exec p s' n t → Exec p s (n + 1) t

variable {p : Program}

theorem Exec.trans {s t u : Machine} {m n : ℕ} (h : Exec p s m t) (h' : Exec p t n u) :
    Exec p s (m + n) u := by
  induction h with
  | refl => simpa using h'
  | succ hstep _ ih =>
    rw [Nat.add_right_comm]
    exact .succ hstep (ih h')

open Machine

section Steps

variable {pc : UInt32} {d d' : Data} {i : Instruction}

theorem step_eq {s : Machine} (hword : p s.pc = some i.word) (heffect : i.effect s.data = some d') :
    step p s =
      some ⟨s.nextPc, (i.target s.pc s.data).getD (s.nextPc + 4), i.link s.pc d'⟩ := by
  simp [step, hword, Instruction.ofWord?_word, heffect]

theorem exec_onward (hword : p pc = some i.word) (heffect : i.effect d = some d')
    (htarget : i.target pc d = none) (hlink : i.link pc d' = d') :
    Exec p (before pc d) 1 (before (pc + 4) d') := by
  have hstep := step_eq (s := before pc d) hword heffect
  simp only [before, htarget, hlink, Option.getD_none] at hstep
  exact .succ hstep (.refl _)

theorem exec_away {a : UInt32} {slot : Instruction} (hwords : p.Holds pc [i.word, slot.word])
    (hi : i.isPlain = false) (hslot : slot.isPlain) (htarget : i.target pc d = some a)
    (heffect : slot.effect (i.link pc d) = some d') :
    Exec p (before pc d) 2 (before a d') := by
  obtain ⟨hword, hrest⟩ := Program.holds_cons.1 hwords
  have hword' := (Program.holds_cons.1 hrest).1
  have hjump := step_eq (s := before pc d) hword (Instruction.effect_of_not_isPlain hi d)
  have hdelay := step_eq (s := ⟨pc + 4, a, i.link pc d⟩) hword' heffect
  simp only [before, htarget, Option.getD_some] at hjump
  simp only [Instruction.target_of_isPlain hslot, Instruction.link_of_isPlain hslot,
    Option.getD_none] at hdelay
  exact .succ hjump (.succ hdelay (.refl _))

end Steps

/-- What instructions in a row do when none of them jumps. -/
def straight (is : List Instruction) (d : Data) : Option Data :=
  is.foldlM (fun d i => i.effect d) d

@[simp] theorem straight_nil (d : Data) : straight [] d = some d := rfl

@[simp] theorem straight_cons (i : Instruction) (is : List Instruction) (d : Data) :
    straight (i :: is) d = (i.effect d).bind (straight is) := rfl

theorem straight_append (is is' : List Instruction) (d : Data) :
    straight (is ++ is') d = (straight is d).bind (straight is') := List.foldlM_append

theorem exec_straight {is : List Instruction} {base : UInt32} {d d' : Data}
    (hwords : p.Holds base (is.map Instruction.word)) (hplain : ∀ i ∈ is, i.isPlain)
    (hrun : straight is d = some d') :
    Exec p (before base d) is.length (before (place base is.length) d') := by
  induction is generalizing base d with
  | nil =>
    obtain rfl : d = d' := by simpa using hrun
    simpa using Exec.refl (before base d)
  | cons i is ih =>
    obtain ⟨hword, hrest⟩ := Program.holds_cons.1 hwords
    have hi := hplain i List.mem_cons_self
    obtain ⟨d₁, heffect, hrun⟩ := Option.bind_eq_some_iff.1 (straight_cons i is d ▸ hrun)
    have h₁ := exec_onward hword heffect (Instruction.target_of_isPlain hi _ _)
      (Instruction.link_of_isPlain hi _ _)
    have h₂ := ih hrest (fun j hj => hplain j (List.mem_cons_of_mem i hj)) hrun
    rw [place_add_four] at h₂
    simpa [Nat.add_comm] using h₁.trans h₂

end CartPatch.Mips
