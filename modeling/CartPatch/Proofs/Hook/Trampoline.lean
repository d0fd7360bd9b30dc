import CartPatch.Proofs.Hook.Descriptor
import CartPatch.Proofs.Hook.Frame
import CartPatch.Proofs.Hook.Platform

/-!
The instructions of the trampoline, and what each part of it does. It pushes `t8` and `t9` and
loads the cache cell and the sentinel (`straight_enter`). Where they are equal it pushes what a call
may change (`straight_ask`), and behind the call it keeps the pointer in the cell and pops again
(`Asked.straight_back`). Both ways end in the same state but for `t9` (`Leaves`).
-/

namespace CartPatch.Hook

open Mips Assembler Machine Numeral

/-- The branch to the last jump where the cell and the sentinel differ. -/
def skipInstruction : Instruction := .branch .bne .t8 .t9 (Int16.ofNat 23)

def leaveInstructions : List Instruction := [.jr .t8, .nop]

namespace Descriptor

variable (d : Descriptor)

/-- Pushes the pointer registers and loads the cache cell and the sentinel. -/
def enterInstructions : List Instruction :=
  pushInstructions pointerRegisters ++
    [.lui .t8 (upperHalf d.cacheAddress), .memory .lw .t8 (lowerHalf d.cacheAddress) .t8,
      .lui .t9 (UInt16.ofNat (d.sentinel.toNat / 0x10000)),
      .ori .t9 .t9 (UInt16.ofNat (d.sentinel.toNat % 0x10000))]

def askInstructions : List Instruction :=
  pushInstructions savedRegisters ++ [.ori .a0 .zero (UInt16.ofNat d.slot.folder.toNat)]

def fileInstruction : Instruction := .ori .a1 .zero (UInt16.ofNat d.slot.file.toNat)

def keepInstructions : List Instruction :=
  [.lui .t9 (upperHalf d.cacheAddress), .memory .sw .v0 (lowerHalf d.cacheAddress) .t9,
    .addiu .t8 .v0 (Int16.ofNat 0)]

/-- The trampoline, up to its last jump. -/
def resolveInstructions (readPrimitive : UInt32) : List Instruction :=
  d.enterInstructions ++ ([skipInstruction, .nop] ++ (d.askInstructions ++
    ([.jump .jal (.ofAddress readPrimitive), d.fileInstruction] ++
      (d.keepInstructions ++ popInstructions savedRegisters))))

end Descriptor

section Lines

theorem parse_jumpLine (op : JumpOp) (a : UInt32) :
    parse (jumpLine (Mnemonic.jump op).name a) =
      if a.toNat % 4 = 0 then .ok (.jump op (.ofAddress a)) else .error (.misalignedTarget a) := by
  have hline : jumpLine (Mnemonic.jump op).name a =
      line (.jump op) ["0x" ++ capitalHex 8 a.toNat] := by
    simp [jumpLine, line, operandText]
  rw [hline, parse_jump]

theorem parse_luiCell (d : Descriptor) (rt : Register) (head : Text)
    (hhead : head = "lui " ++ (rt.name : Text) ++ ", 0x") :
    parse (head ++ capitalHex 4 (upperHalf d.cacheAddress).toNat) =
      .ok (.lui rt (upperHalf d.cacheAddress)) := by
  have hlui := parse_luiText head rt hhead (upperHalf d.cacheAddress).toNat_lt
  rwa [UInt16.ofNat_toNat] at hlui

theorem assembles_loadLines (d : Descriptor) : Assembles (saveLines pointerRegisters ++ d.loadLines)
    d.enterInstructions := by
  have hsentinel := d.sentinel.toNat_lt
  have hcell := parse_luiCell d .t8 "lui t8, 0x" rfl
  have hload := parse_memoryText "lw t8, " "(t8)" .lw .t8 .t8 rfl rfl (lowerHalf d.cacheAddress)
  have hupper := parse_luiText "lui t9, 0x" .t9 rfl (by omega : d.sentinel.toNat / 0x10000 < 0x10000)
  have hlower := parse_oriText "ori t9, t9, 0x" .t9 .t9 rfl 4
    (by omega : d.sentinel.toNat % 0x10000 < 0x10000)
  exact (assembles_saveLines (by decide)).append (assembles_cons.2 ⟨hcell, assembles_cons.2 ⟨hload,
    assembles_cons.2 ⟨hupper, assembles_cons.2 ⟨hlower, assembles_nil⟩⟩⟩⟩)

theorem assembles_trampolineLines {d : Descriptor} {readPrimitive : UInt32}
    (hfolder : d.slot.folder.toNat ≤ 0xFFFF) (hfile : d.slot.file.toNat ≤ 0xFFFF)
    (haligned : readPrimitive.toNat % 4 = 0) :
    Assembles (d.trampolineLines readPrimitive)
      (d.resolveInstructions readPrimitive ++ leaveInstructions) := by
  have hskip := parse_branchText "bne t8, t9, " .bne .t8 .t9 rfl (by decide : 23 < 0x8000)
  have ha0 := parse_oriText "ori a0, zero, 0x" .a0 .zero rfl 0
    (by omega : d.slot.folder.toNat < 0x10000)
  have hcall := parse_jumpLine .jal readPrimitive
  rw [if_pos haligned] at hcall
  have ha1 := parse_oriText "ori a1, zero, 0x" .a1 .zero rfl 0
    (by omega : d.slot.file.toNat < 0x10000)
  have hcell := parse_luiCell d .t9 "lui t9, 0x" rfl
  have hstore := parse_memoryText "sw v0, " "(t9)" .sw .v0 .t9 rfl rfl (lowerHalf d.cacheAddress)
  have hpointer : parse "addiu t8, v0, 0" = .ok (.addiu .t8 .v0 (Int16.ofNat 0)) :=
    parse_addiu (isOperand_decimal 0) (immediate_decimal (by decide)) .t8 .v0
      (signedHalf_natCast .addiu (by decide))
  have hjr : parse "jr t8" = .ok (.jr .t8) := rfl
  have hnop : parse "nop" = .ok .nop := rfl
  have henter := assembles_loadLines d
  have hsave := assembles_saveLines (by decide : savedRegisters.length ≤ 32)
  have hrestore := assembles_restoreLines (by decide : savedRegisters.length ≤ 32)
  have hbranch := assembles_cons.2 ⟨hskip, assembles_cons.2 ⟨hnop, assembles_nil⟩⟩
  have hask := assembles_cons.2 ⟨ha0, assembles_cons.2 ⟨hcall, assembles_cons.2 ⟨ha1,
    assembles_cons.2 ⟨hcell, assembles_cons.2 ⟨hstore, assembles_cons.2 ⟨hpointer,
      assembles_nil⟩⟩⟩⟩⟩⟩
  have hleave := assembles_cons.2 ⟨hjr, assembles_cons.2 ⟨hnop, assembles_nil⟩⟩
  exact ((henter.append hbranch).append ((hsave.append hask).append hrestore)).append hleave

end Lines

/-- The room that the trampoline needs on the stack, away from the cache cell. -/
structure StackReady (cell : UInt32) (d : Data) : Prop where
  aligned : (d.reg .sp).toNat % 4 = 0
  room : 40 ≤ (d.reg .sp).toNat
  apart : ∀ x, Within cell 4 x → ¬Within (d.reg .sp - 40) 40 x

/-- The trampoline before it branches: the pointer registers are pushed and hold the cell and the
sentinel. -/
structure Entered (d : Descriptor) (entry now : Data) : Prop where
  pointer : now.reg .t8 = entry.memory.word d.cacheAddress
  sentinel : now.reg .t9 = d.sentinel
  stack : now.reg .sp = entry.reg .sp - 8
  registers : ∀ r, r ∉ [Register.t8, .t9, .sp] → now.reg r = entry.reg r
  pushed : Frame now.memory (entry.reg .sp - 8) entry.reg pointerRegisters
  memory : ∀ x, ¬Within (entry.reg .sp - 8) 8 x → now.memory x = entry.memory x

/-- The call of the platform: the slot is in the argument registers, and below the pointer
registers those that the call may change are pushed. -/
structure Asked (d : Descriptor) (entry given : Data) : Prop where
  folder : given.reg .a0 = d.slot.folder
  file : given.reg .a1 = d.slot.file
  stack : given.reg .sp = entry.reg .sp - 40
  registers : ∀ r, r ∉ [Register.ra, .a0, .a1, .t8, .t9, .sp] → given.reg r = entry.reg r
  saved : Frame given.memory (entry.reg .sp - 40) entry.reg savedRegisters
  pushed : Frame given.memory (entry.reg .sp - 8) entry.reg pointerRegisters
  memory : ∀ x, ¬Within (entry.reg .sp - 40) 40 x → given.memory x = entry.memory x

/-- The trampoline at its last jump: the pointer is in `t8` and in the cache cell, the pointer
registers are pushed, and everything else is as it was, but for `t9` and the stack below. -/
structure Leaves (d : Descriptor) (pointer : UInt32) (entry exit : Data) : Prop where
  jump : exit.reg .t8 = pointer
  cell : exit.memory.word d.cacheAddress = pointer
  stack : exit.reg .sp = entry.reg .sp - 8
  pushedT8 : exit.memory.word (exit.reg .sp) = entry.reg .t8
  pushedT9 : exit.memory.word (exit.reg .sp + 4) = entry.reg .t9
  registers : ∀ r, r ∉ [Register.t8, .t9, .sp] → exit.reg r = entry.reg r
  memory : ∀ x, (entry.reg .sp).toNat ≤ x.toNat → ¬Within d.cacheAddress 4 x →
    exit.memory x = entry.memory x

section Effects

variable {d : Descriptor} {entry now given : Data}

theorem StackReady.within_first {cell : UInt32} (hready : StackReady cell entry) {x : UInt32}
    {k : ℕ} (hk : k ≤ 8) : Within (entry.reg .sp - 8) k x ↔
      (entry.reg .sp).toNat - 8 ≤ x.toNat ∧ x.toNat < (entry.reg .sp).toNat - 8 + k :=
  within_below (n := 8) (by have := hready.room; omega) hk

theorem StackReady.within_second {cell : UInt32} (hready : StackReady cell entry) {x : UInt32}
    {k : ℕ} (hk : k ≤ 40) : Within (entry.reg .sp - 40) k x ↔
      (entry.reg .sp).toNat - 40 ≤ x.toNat ∧ x.toNat < (entry.reg .sp).toNat - 40 + k :=
  within_below (n := 40) hready.room hk

theorem StackReady.not_within_first {cell : UInt32} (hready : StackReady cell entry) {x : UInt32}
    (hx : Within cell 4 x) : ¬Within (entry.reg .sp - 8) 8 x := by
  have hroom := hready.room
  have hapart := hready.apart x hx
  rw [hready.within_second (by omega)] at hapart
  rw [hready.within_first (by omega)]
  omega

theorem straight_load (halign : d.cacheAddress.toNat % 4 = 0) (x : Data) :
    ∃ y, straight [.lui .t8 (upperHalf d.cacheAddress),
        .memory .lw .t8 (lowerHalf d.cacheAddress) .t8,
        .lui .t9 (UInt16.ofNat (d.sentinel.toNat / 0x10000)),
        .ori .t9 .t9 (UInt16.ofNat (d.sentinel.toNat % 0x10000))] x = some y ∧
      y.memory = x.memory ∧ y.reg .t8 = x.memory.word d.cacheAddress ∧ y.reg .t9 = d.sentinel ∧
      ∀ r, r ≠ .t8 → r ≠ .t9 → y.reg r = x.reg r := by
  set x₁ := x.set .t8 ((upperHalf d.cacheAddress).toUInt32 <<< 16) with hx₁
  set x₂ := x₁.set .t8 (x.memory.word d.cacheAddress) with hx₂
  set x₃ := x₂.set .t9 ((UInt16.ofNat (d.sentinel.toNat / 0x10000)).toUInt32 <<< 16) with hx₃
  have hupper : x₁.reg .t8 = (upperHalf d.cacheAddress).toUInt32 <<< 16 :=
    Data.reg_set_self _ _ (by decide)
  have hload := Instruction.effect_lowerHalf .lw .t8 .t8 halign hupper
  have hlower : (Instruction.ori .t9 .t9 (UInt16.ofNat (d.sentinel.toNat % 0x10000))).effect x₃ =
      some (x₃.set .t9 d.sentinel) := by
    rw [Instruction.effect, hx₃, Data.reg_set_self _ _ (by decide), shiftLeft_or_halves]
  refine ⟨x₃.set .t9 d.sentinel, ?_, rfl, ?_, ?_, ?_⟩
  · rw [straight_cons, Instruction.effect, Option.bind_some, straight_cons, hload,
      Option.bind_some, straight_cons, Instruction.effect, Option.bind_some, straight_cons]
    show (Instruction.effect x₃ _).bind _ = _
    rw [hlower, Option.bind_some, straight_nil]
  · rw [Data.reg_set_of_ne _ _ (by decide), hx₃, Data.reg_set_of_ne _ _ (by decide), hx₂,
      Data.reg_set_self _ _ (by decide)]
  · exact Data.reg_set_self _ _ (by decide)
  · intro r h₈ h₉
    rw [Data.reg_set_of_ne _ _ h₉, hx₃, Data.reg_set_of_ne _ _ h₉, hx₂, Data.reg_set_of_ne _ _ h₈,
      hx₁, Data.reg_set_of_ne _ _ h₈]

theorem straight_enter (halign : d.cacheAddress.toNat % 4 = 0)
    (hready : StackReady d.cacheAddress entry) :
    ∃ now, straight d.enterInstructions entry = some now ∧ Entered d entry now := by
  set top := entry.reg .sp - 8 with htop
  set pushed := (entry.set .sp top).store top (Bytes.ofWords (pointerRegisters.map entry.reg))
    with hpushed
  have hpush : straight (pushInstructions pointerRegisters) entry = some pushed :=
    straight_push (by decide) (by decide) hready.aligned
  obtain ⟨now, hload, hmemory, hpointer, hsentinel, hreg⟩ := straight_load halign pushed
  have hcell : pushed.memory.word d.cacheAddress = entry.memory.word d.cacheAddress :=
    Memory.word_congr fun x hx => Memory.write_of_not_within (hready.not_within_first hx)
  refine ⟨now, ?_, ?_⟩
  · rw [Descriptor.enterInstructions, straight_append, hpush, Option.bind_some, hload]
  · refine ⟨hpointer.trans hcell, hsentinel, ?_, ?_, ?_, ?_⟩
    · rw [hreg .sp (by decide) (by decide), hpushed, Data.reg_store,
        Data.reg_set_self _ _ (by decide)]
    · intro r hr
      simp only [List.mem_cons, List.not_mem_nil, or_false, not_or] at hr
      rw [hreg r hr.1 hr.2.1, hpushed, Data.reg_store, Data.reg_set_of_ne _ _ hr.2.2]
    · rw [hmemory]
      exact frame_write _ _ _ (by decide)
    · intro x hx
      rw [hmemory]
      exact Memory.write_of_not_within hx

/-- The second path through the trampoline: it leaves at once. -/
theorem Entered.leaves (hentered : Entered d entry now)
    (hready : StackReady d.cacheAddress entry) :
    Leaves d (entry.memory.word d.cacheAddress) entry now := by
  obtain ⟨hfirst, hsecond⟩ := hentered.pushed.pair
  have hstack := hentered.stack
  have hroom := hready.room
  refine ⟨hentered.pointer, ?_, hstack, ?_, ?_, hentered.registers, ?_⟩
  · exact Memory.word_congr fun x hx => hentered.memory x (hready.not_within_first hx)
  · rw [hstack, hfirst]
  · rw [hstack, hsecond]
  · intro x hx _
    refine hentered.memory x ?_
    rw [hready.within_first (by omega)]
    omega

theorem effect_slotInstruction (rt : Register) {w : UInt32} (hw : w.toNat ≤ 0xFFFF) (x : Data) :
    (Instruction.ori rt .zero (UInt16.ofNat w.toNat)).effect x = some (x.set rt w) := by
  have hvalue : (UInt16.ofNat w.toNat).toUInt32 = w := by
    apply UInt32.toNat_inj.1
    rw [UInt16.toNat_toUInt32, UInt16.toNat_ofNat']
    omega
  rw [Instruction.effect, Data.reg_zero, hvalue, UInt32.zero_or]

theorem straight_ask (hentered : Entered d entry now) (hready : StackReady d.cacheAddress entry)
    (hfolder : d.slot.folder.toNat ≤ 0xFFFF) (hfile : d.slot.file.toNat ≤ 0xFFFF)
    (back : UInt32) :
    ∃ asked given, straight d.askInstructions now = some asked ∧
      d.fileInstruction.effect (asked.set .ra back) = some given ∧ given.reg .ra = back ∧
      Asked d entry given := by
  have hroom := hready.room
  set low := entry.reg .sp - 40 with hlow
  have hlower : now.reg .sp - UInt32.ofNat (frameSize savedRegisters.length) = low := by
    rw [hentered.stack, hlow]
    show entry.reg .sp - 8 - 32 = entry.reg .sp - 40
    grind
  have halign : (now.reg .sp).toNat % 4 = 0 := by
    have haligned := hready.aligned
    rw [hentered.stack, UInt32.toNat_sub]
    simp only [UInt32.reduceToNat]
    omega
  have hvalues : savedRegisters.map now.reg = savedRegisters.map entry.reg := by
    have hsaved : ∀ r ∈ savedRegisters, r ∉ [Register.t8, .t9, .sp] := by decide
    exact List.map_congr_left fun r hr => hentered.registers r (hsaved r hr)
  set pushed := (now.set .sp low).store low (Bytes.ofWords (savedRegisters.map entry.reg))
    with hpushed
  have hpush : straight (pushInstructions savedRegisters) now = some pushed := by
    rw [straight_push (by decide) (by decide) halign, hlower, hvalues]
  set asked := pushed.set .a0 d.slot.folder with hasked
  refine ⟨asked, (asked.set .ra back).set .a1 d.slot.file, ?_,
    effect_slotInstruction .a1 hfile _, ?_, ?_⟩
  · rw [Descriptor.askInstructions, straight_append, hpush, Option.bind_some, straight_cons,
      effect_slotInstruction .a0 hfolder, Option.bind_some, straight_nil]
  · rw [Data.reg_set_of_ne _ _ (by decide), Data.reg_set_self _ _ (by decide)]
  · refine ⟨?_, Data.reg_set_self _ _ (by decide), ?_, ?_, frame_write _ _ _ (by decide), ?_, ?_⟩
    · rw [Data.reg_set_of_ne _ _ (by decide), Data.reg_set_of_ne _ _ (by decide), hasked,
        Data.reg_set_self _ _ (by decide)]
    · rw [Data.reg_set_of_ne _ _ (by decide), Data.reg_set_of_ne _ _ (by decide), hasked,
        Data.reg_set_of_ne _ _ (by decide), hpushed, Data.reg_store,
        Data.reg_set_self _ _ (by decide)]
    · intro r hr
      simp only [List.mem_cons, List.not_mem_nil, or_false, not_or] at hr
      obtain ⟨hra, ha0, ha1, h₈, h₉, hsp⟩ := hr
      rw [Data.reg_set_of_ne _ _ ha1, Data.reg_set_of_ne _ _ hra, hasked,
        Data.reg_set_of_ne _ _ ha0, hpushed, Data.reg_store, Data.reg_set_of_ne _ _ hsp]
      exact hentered.registers r (by simp [h₈, h₉, hsp])
    · refine hentered.pushed.congr (by decide) fun x hx => ?_
      refine (Memory.write_of_not_within ?_).symm
      have hx := (hready.within_first (by decide)).1 hx
      rw [Bytes.length_ofWords, List.length_map, hlow, hready.within_second (by decide)]
      simp only [savedRegisters, List.length_cons, List.length_nil]
      omega
    · intro x hx
      rw [hready.within_second (by omega)] at hx
      refine (Memory.write_of_not_within ?_).trans (hentered.memory x ?_)
      · rw [Bytes.length_ofWords, List.length_map, hlow, hready.within_second (by decide)]
        simp only [savedRegisters, List.length_cons, List.length_nil]
        omega
      · rw [hready.within_first (by omega)]
        omega

theorem straight_keep (halign : d.cacheAddress.toNat % 4 = 0) (x : Data) :
    ∃ y, straight d.keepInstructions x = some y ∧
      y.memory = x.memory.write d.cacheAddress (Bytes.ofWord (x.reg .v0)) ∧
      y.reg .t8 = x.reg .v0 ∧ ∀ r, r ≠ .t8 → r ≠ .t9 → y.reg r = x.reg r := by
  set x₁ := x.set .t9 ((upperHalf d.cacheAddress).toUInt32 <<< 16) with hx₁
  set x₂ := x₁.store d.cacheAddress (Bytes.ofWord (x₁.reg .v0)) with hx₂
  have hupper : x₁.reg .t9 = (upperHalf d.cacheAddress).toUInt32 <<< 16 :=
    Data.reg_set_self _ _ (by decide)
  have hv0 : x₁.reg .v0 = x.reg .v0 := Data.reg_set_of_ne _ _ (by decide)
  have hstore := Instruction.effect_lowerHalf .sw .v0 .t9 halign hupper
  have hmove : (Instruction.addiu .t8 .v0 (Int16.ofNat 0)).effect x₂ =
      some (x₂.set .t8 (x.reg .v0)) := by
    rw [Instruction.effect, signed_ofNat (by decide), hx₂, Data.reg_store, hv0]
    simp
  refine ⟨x₂.set .t8 (x.reg .v0), ?_, ?_, Data.reg_set_self _ _ (by decide), ?_⟩
  · rw [Descriptor.keepInstructions, straight_cons, Instruction.effect, Option.bind_some,
      straight_cons, hstore, Option.bind_some, straight_cons]
    show (Instruction.effect x₂ _).bind _ = _
    rw [hmove, Option.bind_some, straight_nil]
  · rw [Data.memory_set, hx₂, Data.memory_store, hv0]
    rfl
  · intro r h₈ h₉
    rw [Data.reg_set_of_ne _ _ h₈, hx₂, Data.reg_store, hx₁, Data.reg_set_of_ne _ _ h₉]

/-- The first path through the trampoline, behind the call. -/
theorem Asked.straight_back {prim : Primitive} (hasked : Asked d entry given)
    (halign : d.cacheAddress.toNat % 4 = 0) (hready : StackReady d.cacheAddress entry)
    (hreturns : prim.Returns d.cacheAddress d.sentinel given) :
    ∃ exit, straight (d.keepInstructions ++ popInstructions savedRegisters) (prim.result given) =
        some exit ∧ Leaves d ((prim.result given).reg .v0) entry exit := by
  have hroom := hready.room
  obtain ⟨y, hkeep, hmemory, hpointer, hreg⟩ := straight_keep halign (prim.result given)
  have hlow : (entry.reg .sp - 40).toNat = (entry.reg .sp).toNat - 40 := by
    have htop := (entry.reg .sp).toNat_lt
    rw [UInt32.toNat_sub]
    simp only [UInt32.reduceToNat]
    omega
  have hsp : y.reg .sp = entry.reg .sp - 40 := by
    rw [hreg .sp (by decide) (by decide), hreturns.registers .sp (by decide), hasked.stack]
  have hkept (x : UInt32) (hx : (entry.reg .sp).toNat - 40 ≤ x.toNat)
      (hcell : ¬Within d.cacheAddress 4 x) : given.memory x = y.memory x := by
    rw [hmemory, Memory.write_of_not_within hcell]
    exact (hreturns.stack x (by rw [hasked.stack, hlow]; exact hx)).symm
  have hbelow (x : UInt32) (hx : (entry.reg .sp).toNat - 40 ≤ x.toNat)
      (hx' : x.toNat < (entry.reg .sp).toNat) : given.memory x = y.memory x := by
    refine hkept x hx fun hcell => hready.apart x hcell ?_
    rw [hready.within_second (by omega)]
    omega
  have hsaved : Frame y.memory (y.reg .sp) entry.reg savedRegisters := by
    rw [hsp]
    refine hasked.saved.congr (by decide) fun x hx => ?_
    have hx := (hready.within_second (by decide)).1 hx
    simp only [savedRegisters, List.length_cons, List.length_nil] at hx
    exact hbelow x (by omega) (by omega)
  have hpushed : Frame y.memory (entry.reg .sp - 8) entry.reg pointerRegisters := by
    refine hasked.pushed.congr (by decide) fun x hx => ?_
    have hx := (hready.within_first (by decide)).1 hx
    simp only [pointerRegisters, List.length_cons, List.length_nil] at hx
    exact hbelow x (by omega) (by omega)
  have haligned : (y.reg .sp).toNat % 4 = 0 := by
    have hready := hready.aligned
    rw [hsp, hlow]
    omega
  obtain ⟨exit, hpop, hexit, hstack, hrestored, hregs⟩ :=
    straight_pop (by decide) (by decide) haligned hsaved
  have hleave : exit.reg .sp = entry.reg .sp - 8 := by
    rw [hstack, hsp]
    show entry.reg .sp - 40 + 32 = entry.reg .sp - 8
    grind
  obtain ⟨hfirst, hsecond⟩ := hpushed.pair
  refine ⟨exit, by rw [straight_append, hkeep, Option.bind_some, hpop], ?_, ?_, hleave, ?_, ?_, ?_, ?_⟩
  · rw [hregs .t8 (by decide) (by decide), hpointer]
  · rw [hexit, hmemory, Memory.word_write_ofWord]
  · rw [hexit, hleave, hfirst]
  · rw [hexit, hleave, hsecond]
  · intro r hr
    simp only [List.mem_cons, List.not_mem_nil, or_false, not_or] at hr
    obtain ⟨h₈, h₉, hrsp⟩ := hr
    by_cases hr : r ∈ savedRegisters
    · exact hrestored r hr
    · rw [hregs r hr hrsp, hreg r h₈ h₉]
      simp only [savedRegisters, List.mem_cons, List.not_mem_nil, or_false, not_or] at hr
      rw [hreturns.registers r (by simp [hr, h₈, h₉]), hasked.registers r (by simp [hr, h₈, h₉, hrsp])]
  · intro x hx hcell
    rw [hexit, ← hkept x (by omega) hcell]
    refine hasked.memory x ?_
    rw [hready.within_second (by omega)]
    omega

end Effects

end CartPatch.Hook
