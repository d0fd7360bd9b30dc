import CartPatch.Proofs.Hook.Trampoline

/-!
The trampoline frame after frame. Where the cache cell holds a pointer, it leaves with it at once
(`run_resolved`); where it holds the sentinel, it calls the platform and leaves with what that
returns (`run_unresolved`). As the cell then holds the pointer, the platform is called in the first
frame only (`trampoline_calls_once`), and no frame has another run (`Passages.isOnly`).
-/

namespace CartPatch.Hook

open Mips Assembler Machine

section Runs

variable {d : Descriptor} {prim : Primitive} {p : Program}

theorem holds_resolveInstructions {base : UInt32} (h : p.Holds base
      ((d.resolveInstructions prim.entry ++ leaveInstructions).map Instruction.word)) :
    p.Holds base (d.enterInstructions.map Instruction.word) ∧
      p.Holds (place base 7) ([skipInstruction, .nop].map Instruction.word) ∧
      p.Holds (place base 9) (d.askInstructions.map Instruction.word) ∧
      p.Holds (place base 18) ([.jump .jal (.ofAddress prim.entry), d.fileInstruction].map
        Instruction.word) ∧
      p.Holds (place base 20)
        ((d.keepInstructions ++ popInstructions savedRegisters).map Instruction.word) := by
  rw [List.map_append] at h
  have h₁ := (Program.holds_append.1 h).1
  rw [Descriptor.resolveInstructions, List.map_append] at h₁
  obtain ⟨henter, h₂⟩ := Program.holds_append.1 h₁
  rw [List.map_append] at h₂
  obtain ⟨hskip, h₃⟩ := Program.holds_append.1 h₂
  rw [List.map_append] at h₃
  obtain ⟨hask, h₄⟩ := Program.holds_append.1 h₃
  rw [List.map_append] at h₄
  obtain ⟨hcall, hback⟩ := Program.holds_append.1 h₄
  rw [place_place] at h₃ h₄ hask hcall hback
  rw [place_place] at hcall hback
  rw [place_place] at hback
  exact ⟨henter, hskip, hask, hcall, hback⟩

variable (halign : d.cacheAddress.toNat % 4 = 0)
  (hwords : p.Holds d.trampolineAddress
    ((d.resolveInstructions prim.entry ++ leaveInstructions).map Instruction.word))
  {entry : Data} (hready : StackReady d.cacheAddress entry)
include halign hwords hready

theorem exec_enter : ∃ now, Entered d entry now ∧ Exec p (before d.trampolineAddress entry) 7
    (before (place d.trampolineAddress 7) now) := by
  obtain ⟨henter, -⟩ := holds_resolveInstructions hwords
  obtain ⟨now, hrun, hentered⟩ := straight_enter halign hready
  refine ⟨now, hentered, exec_straight henter ?_ hrun⟩
  exact List.forall_mem_append.2
    ⟨isPlain_pushInstructions pointerRegisters, by simp [Instruction.isPlain]⟩

/-- Where the cell holds a pointer, the trampoline leaves with it. -/
theorem run_resolved (hcell : entry.memory.word d.cacheAddress ≠ d.sentinel) :
    ∃ exit, Run p prim (before d.trampolineAddress entry) []
        (before (place d.trampolineAddress 31) exit) ∧
      Leaves d (entry.memory.word d.cacheAddress) entry exit := by
  obtain ⟨-, hskip, -⟩ := holds_resolveInstructions hwords
  obtain ⟨now, hentered, henter⟩ := exec_enter halign hwords hready
  have htarget : skipInstruction.target (place d.trampolineAddress 7) now =
      some (place d.trampolineAddress 31) := by
    rw [skipInstruction, Instruction.target, hentered.pointer, hentered.sentinel, if_neg hcell,
      place_branch _ _ (by decide)]
  have haway := exec_away hskip rfl rfl htarget rfl
  exact ⟨now, Run.of_exec (henter.trans haway), hentered.leaves hready⟩

/-- Where the cell holds the sentinel, the trampoline calls the primitive, once, and leaves with
what that returns. -/
theorem run_unresolved (hfolder : d.slot.folder.toNat ≤ 0xFFFF) (hfile : d.slot.file.toNat ≤ 0xFFFF)
    (haligned : prim.entry.toNat % 4 = 0)
    (hsegment : prim.entry.toNat / 0x10000000 =
      (place d.trampolineAddress 19).toNat / 0x10000000)
    (hentry : p prim.entry = none)
    (hreturns : ∀ given, given.reg .a0 = d.slot.folder → given.reg .a1 = d.slot.file →
      prim.Returns d.cacheAddress d.sentinel given)
    (hcell : entry.memory.word d.cacheAddress = d.sentinel) :
    ∃ given exit, Run p prim (before d.trampolineAddress entry) [given]
        (before (place d.trampolineAddress 31) exit) ∧
      given.reg .a0 = d.slot.folder ∧ given.reg .a1 = d.slot.file ∧
      Leaves d ((prim.result given).reg .v0) entry exit := by
  obtain ⟨-, hskip, hask, hcall, hback⟩ := holds_resolveInstructions hwords
  obtain ⟨now, hentered, henter⟩ := exec_enter halign hwords hready
  obtain ⟨asked, given, hrun, hfileEffect, hra, hasked⟩ := straight_ask hentered hready hfolder hfile
    (place d.trampolineAddress 18 + 8)
  obtain ⟨exit, hreturn, hleaves⟩ := hasked.straight_back halign hready
    (hreturns given hasked.folder hasked.file)
  have hstay : skipInstruction.target (place d.trampolineAddress 7) now = none := by
    rw [skipInstruction, Instruction.target, hentered.pointer, hentered.sentinel, if_pos hcell]
  obtain ⟨hword, hrest⟩ := Program.holds_cons.1 hskip
  have h₁ : Exec p (before (place d.trampolineAddress 7) now) 1
      (before (place d.trampolineAddress 8) now) := by
    rw [place_succ _ 7]
    exact exec_onward hword rfl hstay rfl
  have h₂ : Exec p (before (place d.trampolineAddress 8) now) 1
      (before (place d.trampolineAddress 9) now) := by
    rw [← place_succ] at hrest
    rw [place_succ _ 8]
    exact exec_onward (Program.holds_cons.1 hrest).1 rfl rfl rfl
  have h₃ : Exec p (before (place d.trampolineAddress 9) now) 9
      (before (place d.trampolineAddress 18) asked) := by
    have hplain := List.forall_mem_append.2 ⟨isPlain_pushInstructions savedRegisters,
      (by simp [Instruction.isPlain] : ∀ i ∈ [Instruction.ori .a0 .zero
        (UInt16.ofNat d.slot.folder.toNat)], i.isPlain)⟩
    have hexec := exec_straight hask hplain hrun
    rwa [place_place] at hexec
  have h₄ : Exec p (before (place d.trampolineAddress 18) asked) 2 (before prim.entry given) := by
    refine exec_away hcall rfl rfl ?_ hfileEffect
    have hdelay : place d.trampolineAddress 18 + 4 = place d.trampolineAddress 19 :=
      (place_succ _ 18).symm
    rw [Instruction.target, Instruction.jumpAddress_ofAddress haligned (by rw [hdelay, hsegment])]
  have h₅ : Exec p (before (given.reg .ra) (prim.result given)) 11
      (before (place d.trampolineAddress 31) exit) := by
    have hplain := List.forall_mem_append.2 ⟨(by simp [Descriptor.keepInstructions,
      Instruction.isPlain] : ∀ i ∈ d.keepInstructions, i.isPlain),
      isPlain_popInstructions savedRegisters⟩
    have hexec := exec_straight hback hplain hreturn
    have hra' : given.reg .ra = place d.trampolineAddress 20 := by
      rw [hra, place_succ _ 19, place_succ _ 18]
      grind
    rw [place_place] at hexec
    rwa [hra']
  have hbefore : Run p prim (before d.trampolineAddress entry) [] (before prim.entry given) :=
    Run.of_exec (henter.trans (h₁.trans (h₂.trans (h₃.trans h₄))))
  exact ⟨given, exit, hbefore.trans (.call hentry (Run.of_exec h₅)), hasked.folder, hasked.file,
    hleaves⟩

end Runs

/-- One execution of the trampoline, from its first word to its last jump. -/
structure Passage where
  entry : Data
  calls : List Data
  exit : Data

/-- There is no other way through the trampoline: a run from the entry of the passage either stops on
the way to its exit, or it has come through the exit with the calls of the passage. -/
def Passage.IsOnly (passage : Passage) (p : Program) (prim : Primitive) (start leave : UInt32) : Prop :=
  ∀ calls t, Run p prim (before start passage.entry) calls t →
    (∃ more, Run p prim t more (before leave passage.exit) ∧ passage.calls = calls ++ more) ∨
      ∃ more, Run p prim (before leave passage.exit) more t ∧ calls = passage.calls ++ more

/-- Executions of the trampoline one after the other, each in a world of its own. Only the cache
cell is as the execution before left it. -/
inductive Passages (p : Program) (prim : Primitive) (d : Descriptor) (leave : UInt32) :
    UInt32 → List Data → List Passage → Prop
  | nil (held : UInt32) : Passages p prim d leave held [] []
  | cons {held : UInt32} {world : Data} {worlds : List Data} {passage : Passage}
      {passages : List Passage} :
      passage.entry = world.store d.cacheAddress (Bytes.ofWord held) →
      Run p prim (before d.trampolineAddress passage.entry) passage.calls
        (before leave passage.exit) →
      Passages p prim d leave (passage.exit.memory.word d.cacheAddress) worlds passages →
      Passages p prim d leave held (world :: worlds) (passage :: passages)

section Passages

variable {p : Program} {prim : Primitive} {d : Descriptor} {leave held : UInt32} {worlds : List Data}
  {passages : List Passage}

theorem Passages.run_of_mem (h : Passages p prim d leave held worlds passages) {passage : Passage}
    (hpassage : passage ∈ passages) :
    Run p prim (before d.trampolineAddress passage.entry) passage.calls
      (before leave passage.exit) := by
  induction h with
  | nil => exact absurd hpassage List.not_mem_nil
  | cons _ hrun _ ih =>
    rcases List.mem_cons.1 hpassage with rfl | hrest
    · exact hrun
    · exact ih hrest

theorem Passages.isOnly (h : Passages p prim d leave held worlds passages) :
    ∀ passage ∈ passages, passage.IsOnly p prim d.trampolineAddress leave := by
  intro passage hpassage calls t hrun
  exact hrun.linear (h.run_of_mem hpassage)

theorem StackReady.store {cell : UInt32} {world : Data} (h : StackReady cell world) (a : UInt32)
    (bytes : Bytes) : StackReady cell (world.store a bytes) := ⟨h.aligned, h.room, h.apart⟩

/-- Once the cell holds a pointer, every execution leaves with it and none calls the platform. -/
theorem passages_resolved (halign : d.cacheAddress.toNat % 4 = 0)
    (hwords : p.Holds d.trampolineAddress
      ((d.resolveInstructions prim.entry ++ leaveInstructions).map Instruction.word))
    {pointer : UInt32} (hpointer : pointer ≠ d.sentinel)
    (hready : ∀ world ∈ worlds, StackReady d.cacheAddress world) :
    ∃ passages, Passages p prim d (place d.trampolineAddress 31) pointer worlds passages ∧
      passages.map Passage.calls = worlds.map (fun _ => []) ∧
      ∀ passage ∈ passages, Leaves d pointer passage.entry passage.exit := by
  induction worlds with
  | nil => exact ⟨[], .nil _, rfl, by simp⟩
  | cons world worlds ih =>
    obtain ⟨passages, hpassages, hcalls, hleaves⟩ :=
      ih fun w hw => hready w (List.mem_cons_of_mem world hw)
    set entry := world.store d.cacheAddress (Bytes.ofWord pointer) with hentry
    have hcell : entry.memory.word d.cacheAddress = pointer := Memory.word_write_ofWord _ _ _
    obtain ⟨exit, hrun, hleave⟩ := run_resolved halign hwords
      ((hready world List.mem_cons_self).store _ _) (by rw [hcell]; exact hpointer)
    rw [hcell] at hleave
    refine ⟨⟨entry, [], exit⟩ :: passages, .cons rfl hrun ?_, by simp [hcalls], ?_⟩
    · show Passages p prim d _ (exit.memory.word d.cacheAddress) worlds passages
      rw [hleave.cell]
      exact hpassages
    · exact List.forall_mem_cons.2 ⟨hleave, hleaves⟩

end Passages

/-- In any number of frames the platform is called once, in the first one, for the slot of the
descriptor, and every frame leaves with the pointer that it returned. The machine has no other way to
go in any of the frames. -/
theorem trampoline_calls_once {text : Text} {d : Descriptor} {prim : Primitive}
    (hparse : Descriptor.parse text = .ok d)
    (hfolder : d.slot.folder.toNat ≤ 0xFFFF) (hfile : d.slot.file.toNat ≤ 0xFFFF)
    (haligned : prim.entry.toNat % 4 = 0)
    (hsegment : prim.entry.toNat / 0x10000000 =
      (place d.trampolineAddress 19).toNat / 0x10000000)
    (hreturns : ∀ given, given.reg .a0 = d.slot.folder → given.reg .a1 = d.slot.file →
      prim.Returns d.cacheAddress d.sentinel given) :
    ∃ front, assembleAll (d.trampolineLines prim.entry) =
        .ok (front ++ [(Instruction.jr .t8).word, Instruction.nop.word]) ∧
      ∀ p : Program,
        p.Holds d.trampolineAddress (front ++ [(Instruction.jr .t8).word, Instruction.nop.word]) →
        p prim.entry = none → ∀ first rest,
        (∀ world ∈ first :: rest, StackReady d.cacheAddress world) →
        ∃ given passages, Passages p prim d (place d.trampolineAddress front.length) d.sentinel
            (first :: rest) passages ∧
          passages.map Passage.calls = [given] :: rest.map (fun _ => []) ∧
          given.reg .a0 = d.slot.folder ∧ given.reg .a1 = d.slot.file ∧
          (∀ passage ∈ passages,
            Leaves d ((prim.result given).reg .v0) passage.entry passage.exit) ∧
          ∀ passage ∈ passages, passage.IsOnly p prim d.trampolineAddress
            (place d.trampolineAddress front.length) := by
  have halign := (Descriptor.isAligned_of_parse hparse).1
  have hlines := assembles_trampolineLines hfolder hfile haligned
  refine ⟨(d.resolveInstructions prim.entry).map Instruction.word, ?_, ?_⟩
  · rw [hlines.assembleAll_eq, List.map_append]
    rfl
  · intro p hwords hentry first rest hready
    have hwords : p.Holds d.trampolineAddress
        ((d.resolveInstructions prim.entry ++ leaveInstructions).map Instruction.word) := by
      rw [List.map_append]
      exact hwords
    set entry := first.store d.cacheAddress (Bytes.ofWord d.sentinel) with hfirst
    have hcell : entry.memory.word d.cacheAddress = d.sentinel := Memory.word_write_ofWord _ _ _
    obtain ⟨given, exit, hrun, ha0, ha1, hleave⟩ := run_unresolved halign hwords
      ((hready first List.mem_cons_self).store _ _) hfolder hfile haligned hsegment hentry hreturns
      hcell
    obtain ⟨passages, hpassages, hcalls, hleaves⟩ := passages_resolved halign hwords
      (hreturns given ha0 ha1).pointer fun w hw => hready w (List.mem_cons_of_mem first hw)
    rw [← hleave.cell] at hpassages
    have hall : Passages p prim d (place d.trampolineAddress 31) d.sentinel (first :: rest)
        (⟨entry, [given], exit⟩ :: passages) := .cons rfl hrun hpassages
    exact ⟨given, _, hall, by simp [hcalls], ha0, ha1, List.forall_mem_cons.2 ⟨hleave, hleaves⟩,
      hall.isOnly⟩

/-- A primitive for a file that is in memory already: it only returns the pointer. -/
def Primitive.ofPointer (pointer : UInt32) : Primitive :=
  ⟨0x80001000, fun given => given.set .v0 pointer⟩

theorem Primitive.ofPointer_returns {pointer sentinel : UInt32} (h : pointer ≠ sentinel)
    (cell : UInt32) (given : Data) : (ofPointer pointer).Returns cell sentinel given := by
  refine ⟨?_, fun r hr => ?_, fun _ _ => rfl, fun _ _ => rfl⟩
  · simpa [ofPointer, Data.reg_set_self given pointer (by decide : Register.v0 ≠ .zero)] using h
  · simp only [List.mem_cons, List.not_mem_nil, or_false, not_or] at hr
    exact Data.reg_set_of_ne _ _ hr.2.1

/-- Two frames. -/
theorem trampoline_calls_once_twice :
    ∃ (p : Program) (leave : UInt32) (worlds : List Data) (given : Data) (passages : List Passage),
      worlds.length = 2 ∧
      Passages p (.ofPointer 0x80700000) .small leave 0x4D503243 worlds passages ∧
      passages.map Passage.calls = [[given], []] ∧
      given.reg .a0 = 10 ∧ given.reg .a1 = 240 ∧
      ∀ passage ∈ passages, Leaves .small 0x80700000 passage.entry passage.exit := by
  obtain ⟨front, hfront, hruns⟩ := trampoline_calls_once Descriptor.parse_small (by decide)
    (by decide) (by decide) (by decide)
    (fun given _ _ => Primitive.ofPointer_returns (by decide : (0x80700000 : UInt32) ≠ 0x4D503243)
      _ given)
  have hlength := length_of_assembleAll hfront
  rw [length_trampolineLines] at hlength
  set world : Data := ⟨fun _ => 0x80200000, fun _ => 0⟩ with hworld
  have hready : StackReady 0x80040E00 world := by
    refine ⟨by decide, by decide, fun x hx => ?_⟩
    have hsp : world.reg .sp = 0x80200000 := rfl
    simp only [Within, hsp, UInt32.toNat_sub, UInt32.reduceToNat, UInt32.reduceSub] at hx ⊢
    omega
  have houtside : Program.ofWords Descriptor.small.trampolineAddress
      (front ++ [(Instruction.jr .t8).word, Instruction.nop.word]) 0x80001000 = none := by
    rw [Program.ofWords, List.getElem?_eq_none, ite_self]
    rw [hlength]
    decide
  obtain ⟨given, passages, hpassages, hcalls, ha0, ha1, hleaves, -⟩ := hruns _
    (Program.holds_ofWords _ (by rw [hlength]; decide)) houtside world [world]
    (by simp [Descriptor.small, hready])
  exact ⟨_, _, [world, world], given, passages, rfl, hpassages, hcalls, ha0, ha1, hleaves⟩

end CartPatch.Hook
