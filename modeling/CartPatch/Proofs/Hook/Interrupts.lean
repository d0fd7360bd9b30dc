import CartPatch.Proofs.Hook.Obstacle
import CartPatch.Proofs.Hook.Passage
import CartPatch.Proofs.Hook.StoredRoutine
import CartPatch.Proofs.Mips.Agreement

/-!
A hook under interrupts. The interrupt handler of the game uses the registers `k0` and `k1` without
keeping them, and it may run before any instruction. No instruction of the trampoline or of a stored
routine reads or writes either of them (`avoids_trampoline`, `avoids_stored`), so a run with any
interrupts takes the path of the run without, and ends in the same state but for these two
(`interrupts_invisible`).
-/

namespace CartPatch.Hook

open Mips Machine Assembler Cheat Outcome

/-- The registers that an interrupt handler does not keep. -/
def kernelRegisters : List Register := [.k0, .k1]

structure Interrupt where
  k0 : UInt32
  k1 : UInt32
  deriving DecidableEq, Repr

def interrupted (s : Machine) : Option Interrupt → Machine
  | none => s
  | some i => { s with data := (s.data.set .k0 i.k0).set .k1 i.k1 }

@[simp] theorem interrupted_none (s : Machine) : interrupted s none = s := rfl

/-- One move: an instruction of the program, or a call of the primitive. -/
def move (p : Program) (prim : Primitive) (s : Machine) : Option Machine :=
  if p prim.entry = none ∧ s.pc = prim.entry ∧ s.nextPc = prim.entry + 4 then
    some (before (s.data.reg .ra) (prim.result s.data))
  else step p s

/-- Makes a number of moves, each behind an interrupt or none, as long as the machine can go on. Gives
the addresses on the way, and the state at the end. -/
def moves (p : Program) (prim : Primitive) : List (Option Interrupt) → Machine → List UInt32 × Machine
  | [], s => ([], s)
  | i :: rest, s =>
    match move p prim (interrupted s i) with
    | none => ([], interrupted s i)
    | some s' => (s.pc :: (moves p prim rest s').1, (moves p prim rest s').2)

/-- A primitive that does not depend on some registers. -/
def Primitive.Ignores (prim : Primitive) (hidden : List Register) : Prop :=
  ∀ d d' : Data, d.Agrees hidden d' → (prim.result d).Agrees hidden (prim.result d')

section Moves

variable {p : Program} {prim : Primitive} {s s' t : Machine}

theorem agrees_interrupted (h : s.Agrees kernelRegisters s') (i : Option Interrupt) :
    (interrupted s i).Agrees kernelRegisters s' := by
  cases i with
  | none => exact h
  | some i => exact ⟨h.pc, h.nextPc, (h.data.set_left (by decide) i.k0).set_left (by decide) i.k1⟩

theorem agrees_move (hp : p.Avoids kernelRegisters) (hprim : prim.Ignores kernelRegisters)
    (h : s.Agrees kernelRegisters s') :
    Option.Rel (Machine.Agrees kernelRegisters) (move p prim s) (move p prim s') := by
  unfold move
  rw [← h.pc, ← h.nextPc]
  split
  · have hra : s.data.reg .ra = s'.data.reg .ra := h.data.reg_eq (by decide)
    rw [hra]
    exact .some ⟨rfl, rfl, hprim _ _ h.data⟩
  · exact h.step hp

theorem agrees_moves (hp : p.Avoids kernelRegisters) (hprim : prim.Ignores kernelRegisters)
    (interrupts : List (Option Interrupt)) (h : s.Agrees kernelRegisters s') :
    (moves p prim interrupts s).1 = (moves p prim (List.replicate interrupts.length none) s').1 ∧
      (moves p prim interrupts s).2.Agrees kernelRegisters
        (moves p prim (List.replicate interrupts.length none) s').2 := by
  induction interrupts generalizing s s' with
  | nil => exact ⟨rfl, h⟩
  | cons i rest ih =>
    have hbefore := agrees_interrupted h i
    have hmove := agrees_move hp hprim hbefore
    rw [List.length_cons, List.replicate_succ, moves, moves, interrupted_none]
    generalize move p prim (interrupted s i) = next at hmove ⊢
    generalize move p prim s' = next' at hmove ⊢
    cases hmove with
    | none => exact ⟨rfl, hbefore⟩
    | some hnext =>
      obtain ⟨hpath, hend⟩ := ih hnext
      exact ⟨congrArg₂ List.cons h.pc hpath, hend⟩

theorem move_of_step (h : step p s = some s') : move p prim s = some s' := by
  refine (if_neg fun hentry => ?_).trans h
  have hnone := step_eq_none (p := p) (s := s) (by rw [hentry.2.1, hentry.1])
  rw [h] at hnone
  cases hnone

theorem Run.exists_moves {calls : List Data} (h : Run p prim s calls t) :
    ∃ n, (moves p prim (List.replicate n none) s).2 = t := by
  induction h with
  | refl s => exact ⟨0, rfl⟩
  | step hstep _ ih =>
    obtain ⟨n, hn⟩ := ih
    refine ⟨n + 1, ?_⟩
    rw [List.replicate_succ, moves, interrupted_none, move_of_step hstep]
    exact hn
  | call hentry _ ih =>
    obtain ⟨n, hn⟩ := ih
    refine ⟨n + 1, ?_⟩
    rw [List.replicate_succ, moves, interrupted_none, move, if_pos ⟨hentry, rfl, rfl⟩]
    exact hn

end Moves

section Instructions

theorem avoids_frames (rs : List Register)
    (hrs : rs ∈ [pointerRegisters, savedRegisters, scratchRegisters]) :
    (∀ i ∈ pushInstructions rs, i.Avoids kernelRegisters) ∧
      ∀ i ∈ popInstructions rs, i.Avoids kernelRegisters := by
  revert rs
  decide +kernel

theorem avoids_trampoline (d : Descriptor) (readPrimitive : UInt32) :
    ∀ i ∈ d.resolveInstructions readPrimitive ++ leaveInstructions, i.Avoids kernelRegisters := by
  obtain ⟨hpushPointer, -⟩ := avoids_frames pointerRegisters (by simp)
  obtain ⟨hpush, hpop⟩ := avoids_frames savedRegisters (by simp)
  simp only [Descriptor.resolveInstructions, Descriptor.enterInstructions,
    Descriptor.askInstructions, Descriptor.fileInstruction, Descriptor.keepInstructions,
    skipInstruction, leaveInstructions, List.forall_mem_append]
  refine ⟨⟨⟨hpushPointer, ?_⟩, ?_, ⟨hpush, ?_⟩, ?_, ?_, hpop⟩, ?_⟩ <;>
    simp +decide [Instruction.Avoids, kernelRegisters, Instruction.registers]

theorem avoids_code (c : Code) (skip : ℕ) : ∀ i ∈ c.instructions skip, i.Avoids kernelRegisters := by
  unfold Code.instructions Code.compareInstructions Code.branchInstruction Code.writeInstructions
  split <;> simp +decide [Instruction.Avoids, kernelRegisters, Instruction.registers]

theorem avoids_routine (codes : List Code) :
    ∀ i ∈ routineInstructions codes, i.Avoids kernelRegisters := by
  induction codes with
  | nil => simp [routineInstructions]
  | cons c codes ih => exact List.forall_mem_append.2 ⟨avoids_code c _, ih⟩

theorem avoids_stored (lists : List (List Code)) :
    ∀ i ∈ storedInstructions lists, i.Avoids kernelRegisters := by
  obtain ⟨hpush, hpop⟩ := avoids_frames scratchRegisters (by simp)
  obtain ⟨-, hpopPointer⟩ := avoids_frames pointerRegisters (by simp)
  have hcheats : ∀ i ∈ joinedInstructions lists, i.Avoids kernelRegisters := by
    intro i hi
    obtain ⟨codes, -, hi⟩ := List.mem_flatMap.1 hi
    exact avoids_routine codes i hi
  simp only [storedInstructions, List.forall_mem_append]
  exact ⟨hpush, hcheats, hpop, hpopPointer⟩

theorem words_of_trampoline {d : Descriptor} {readPrimitive : UInt32} {words : List UInt32}
    (h : assembleAll (d.trampolineLines readPrimitive) = .ok words) :
    words = (d.resolveInstructions readPrimitive ++ leaveInstructions).map Instruction.word := by
  have hcode : codeWords d readPrimitive = .ok (d.sentinel :: words) := by
    rw [codeWords, assembleLines, h]
    rfl
  have hno {e : HookError} (herror : codeWords d readPrimitive = .error e) : False := by
    rw [hcode] at herror
    cases herror
  have hfolder : d.slot.folder.toNat ≤ 0xFFFF :=
    Nat.not_lt.1 fun hlarge => hno (codeWords_of_folder hlarge)
  have haligned : readPrimitive.toNat % 4 = 0 :=
    Decidable.not_not.1 fun hunaligned => hno (codeWords_of_primitive hfolder hunaligned)
  have hfile : d.slot.file.toNat ≤ 0xFFFF :=
    Nat.not_lt.1 fun hlarge => hno (codeWords_of_file hfolder haligned hlarge)
  rw [(assembles_trampolineLines hfolder hfile haligned).assembleAll_eq] at h
  exact (Except.ok.inj h).symm

theorem flatten_of_compile {lists : List (List Code)} {cheats : List Bytes}
    (h : List.Forall₂ (fun codes cheat => compile codes = .ok cheat) lists cheats) :
    cheats.flatten = Bytes.ofWords ((joinedInstructions lists).map Instruction.word) := by
  induction h with
  | nil => rfl
  | cons hcompile _ ih =>
    rw [compile_eq] at hcompile
    cases hcompile
    rw [List.flatten_cons, ih]
    simp [joinedInstructions]

/-- All words of a hook are those of instructions that keep away from the kernel registers. -/
theorem words_of_hook {d : Descriptor} {readPrimitive : UInt32} {lists : List (List Code)}
    {trampoline prologue epilogue : List UInt32} {cheats : List Bytes}
    (htrampoline : assembleAll (d.trampolineLines readPrimitive) = .ok trampoline)
    (hprologue : assembleAll prologueLines = .ok prologue)
    (hcheats : List.Forall₂ (fun codes cheat => compile codes = .ok cheat) lists cheats)
    (hepilogue : assembleAll epilogueLines = .ok epilogue) :
    trampoline ++ (prologue ++ (Bytes.words cheats.flatten ++ epilogue)) =
      (d.resolveInstructions readPrimitive ++ leaveInstructions ++ storedInstructions lists).map
        Instruction.word := by
  rw [mapError_eq_ok.1 assembleLines_prologueLines] at hprologue
  rw [mapError_eq_ok.1 assembleLines_epilogueLines] at hepilogue
  cases hprologue
  cases hepilogue
  rw [words_of_trampoline htrampoline, flatten_of_compile hcheats, Bytes.words_ofWords]
  simp [storedInstructions, prologueWords, epilogueWords]

end Instructions

/-- Interrupts cannot be told from any run of a hook, from whatever state. With them the machine goes
the same way and ends, where it does, with the same memory and the same registers but for the two that
the handler does not keep. -/
theorem interrupts_invisible {d : Descriptor} {prim : Primitive} {lists : List (List Code)}
    {trampoline prologue epilogue : List UInt32} {cheats : List Bytes}
    (htrampoline : assembleAll (d.trampolineLines prim.entry) = .ok trampoline)
    (hprologue : assembleAll prologueLines = .ok prologue)
    (hcheats : List.Forall₂ (fun codes cheat => compile codes = .ok cheat) lists cheats)
    (hepilogue : assembleAll epilogueLines = .ok epilogue)
    (hprim : prim.Ignores kernelRegisters) {p : Program}
    (hp : ∀ a w, p a = some w →
      w ∈ trampoline ++ (prologue ++ (Bytes.words cheats.flatten ++ epilogue)))
    (s : Machine) :
    (∀ interrupts, (moves p prim interrupts s).1 =
        (moves p prim (List.replicate interrupts.length none) s).1 ∧
      (moves p prim interrupts s).2.Agrees kernelRegisters
        (moves p prim (List.replicate interrupts.length none) s).2) ∧
      ∀ calls t, Run p prim s calls t → ∃ n, ∀ interrupts, interrupts.length = n →
        (moves p prim interrupts s).2.Agrees kernelRegisters t := by
  have havoids : p.Avoids kernelRegisters := by
    rw [words_of_hook htrampoline hprologue hcheats hepilogue] at hp
    exact Program.avoids_of_words hp
      (List.forall_mem_append.2 ⟨avoids_trampoline d prim.entry, avoids_stored lists⟩)
  refine ⟨fun interrupts => agrees_moves havoids hprim interrupts (.refl s), fun calls t hrun => ?_⟩
  obtain ⟨n, hn⟩ := hrun.exists_moves
  refine ⟨n, ?_⟩
  rintro interrupts rfl
  rw [← hn]
  exact (agrees_moves havoids hprim interrupts (.refl s)).2

theorem Primitive.ofPointer_ignores (pointer : UInt32) (hidden : List Register) :
    (ofPointer pointer).Ignores hidden := fun _ _ h => h.set .v0 pointer

/-- The hook of the small descriptor, and at `0x80700000` a routine that writes one byte where another
one is set. -/
def guardedHook : Program := fun a =>
  (Program.ofWords Descriptor.small.trampolineAddress
    ((Descriptor.small.resolveInstructions 0x80001000 ++ leaveInstructions).map Instruction.word) a).or
  (Program.ofWords 0x80700000
    ((storedInstructions [[⟨.if8, 0x800F93AA, 1⟩, ⟨.write8, 0x8025AA00, 5⟩]]).map Instruction.word) a)

def firstFrame : Machine := before Descriptor.small.trampolineAddress
  (Data.store ⟨fun _ => 0x80200000, fun _ => 0⟩ 0x80040E00 (Bytes.ofWord 0x4D503243))

/-- An interrupt before every move of the first frame. -/
theorem interrupts_invisible_firstFrame :
    (moves guardedHook (.ofPointer 0x80700000) (List.replicate 60 (some ⟨0xDEADBEEF, 7⟩))
        firstFrame).1.length = 50 ∧
      (moves guardedHook (.ofPointer 0x80700000) (List.replicate 60 (some ⟨0xDEADBEEF, 7⟩))
        firstFrame).2.Agrees kernelRegisters
        (moves guardedHook (.ofPointer 0x80700000) (List.replicate 60 none) firstFrame).2 := by
  set prim := Primitive.ofPointer 0x80700000
  obtain ⟨trampoline, htrampoline⟩ : ∃ words,
      assembleAll (Descriptor.small.trampolineLines prim.entry) = .ok words :=
    ⟨_, (assembles_trampolineLines (by decide) (by decide) (by decide)).assembleAll_eq⟩
  obtain ⟨cheat, hcheat⟩ : ∃ cheat,
      compile [⟨.if8, 0x800F93AA, 1⟩, ⟨.write8, 0x8025AA00, 5⟩] = .ok cheat := ⟨_, compile_eq _⟩
  obtain ⟨prologue, hprologue⟩ : ∃ words, assembleAll prologueLines = .ok words :=
    ⟨_, mapError_eq_ok.1 assembleLines_prologueLines⟩
  obtain ⟨epilogue, hepilogue⟩ : ∃ words, assembleAll epilogueLines = .ok words :=
    ⟨_, mapError_eq_ok.1 assembleLines_epilogueLines⟩
  have hcheats : List.Forall₂ (fun codes cheat => compile codes = .ok cheat) [_] [cheat] :=
    .cons hcheat .nil
  have hwords : ∀ a w, guardedHook a = some w →
      w ∈ trampoline ++ (prologue ++ (Bytes.words [cheat].flatten ++ epilogue)) := by
    intro a w hw
    rw [words_of_hook htrampoline hprologue hcheats hepilogue, List.map_append, List.mem_append]
    exact (Option.or_eq_some_iff.1 hw).imp Program.mem_of_ofWords
      fun hstored => Program.mem_of_ofWords hstored.2
  obtain ⟨hpath, hend⟩ := (interrupts_invisible htrampoline hprologue hcheats hepilogue
    (Primitive.ofPointer_ignores _ _) hwords firstFrame).1
      (List.replicate 60 (some ⟨0xDEADBEEF, 7⟩))
  rw [List.length_replicate] at hpath hend
  refine ⟨?_, hend⟩
  rw [hpath]
  decide +kernel

end CartPatch.Hook
