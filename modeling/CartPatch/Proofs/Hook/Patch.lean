import CartPatch.Hook.Patch
import CartPatch.Proofs.Bytes
import CartPatch.Proofs.Hook.Trampoline

/-!
What a patch consists of. Of all that goes into it only the displaced instructions depend on the
image and on what was stored before (`plan_eq_ok`), and these are found again in what is stored
(`displacedWords_storedBytes`).
-/

namespace CartPatch.Hook

open Mips Assembler Outcome

def prologueWords : List UInt32 := (pushInstructions scratchRegisters).map Instruction.word

def epilogueWords : List UInt32 :=
  (popInstructions scratchRegisters ++ popInstructions pointerRegisters).map Instruction.word

namespace Descriptor

def returnWords (d : Descriptor) : List UInt32 :=
  [(Instruction.jump .j (.ofAddress d.returnAddress)).word, Instruction.nop.word]

/-- What the site holds once it is hooked, where `jump` is the jump to the trampoline. -/
def siteWords (jump : UInt32) : List UInt32 :=
  jump :: List.replicate (displacedCount - 1) Instruction.nop.word

/-- What is stored for a routine, behind which the displaced instructions run. -/
def storedBytes (d : Descriptor) (routine : Bytes) (displaced : List UInt32) : Bytes :=
  Bytes.ofWords prologueWords ++ routine ++
    Bytes.ofWords (epilogueWords ++ displaced ++ d.returnWords)

end Descriptor

theorem assembleLines_prologueLines : assembleLines prologueLines = .ok prologueWords := by
  have hlines : Assembles prologueLines (pushInstructions scratchRegisters) :=
    assembles_saveLines (by decide)
  rw [assembleLines, hlines.assembleAll_eq]
  rfl

theorem assembleLines_epilogueLines : assembleLines epilogueLines = .ok epilogueWords := by
  have hlines : Assembles epilogueLines
      (popInstructions scratchRegisters ++ popInstructions pointerRegisters) :=
    (assembles_restoreLines (by decide)).append (assembles_restoreLines (by decide))
  rw [assembleLines, hlines.assembleAll_eq]
  rfl

theorem assemble_siteJump {d : Descriptor} (haligned : d.trampolineAddress.toNat % 4 = 0) :
    assemble d.siteJump = .ok (Instruction.jump .j (.ofAddress d.trampolineAddress)).word := by
  have hjump := parse_jumpLine .j d.trampolineAddress
  rw [if_pos haligned] at hjump
  exact congrArg (Except.map Instruction.word) hjump

theorem assembleLines_returnLines {d : Descriptor} {back : List UInt32} :
    assembleLines d.returnLines = .ok back ↔
      d.returnAddress.toNat % 4 = 0 ∧ back = d.returnWords := by
  have hjump := parse_jumpLine .j d.returnAddress
  by_cases haligned : d.returnAddress.toNat % 4 = 0
  · rw [if_pos haligned] at hjump
    have hlines : Assembles d.returnLines [.jump .j (.ofAddress d.returnAddress), .nop] :=
      assembles_cons.2 ⟨hjump, assembles_cons.2 ⟨rfl, assembles_nil⟩⟩
    rw [assembleLines, mapError_eq_ok, hlines.assembleAll_eq]
    simp [haligned, Descriptor.returnWords, eq_comm]
  · rw [if_neg haligned] at hjump
    have herror : assemble (jumpLine "j" d.returnAddress) =
        .error (.misalignedTarget d.returnAddress) := by
      rw [assemble]
      exact congrArg (Except.map Instruction.word) hjump
    have hlines : assembleAll d.returnLines = .error (.misalignedTarget d.returnAddress) := by
      rw [Descriptor.returnLines, assembleAll, herror]
      rfl
    rw [assembleLines, mapError_eq_ok, hlines]
    simp [haligned]

/-- A plan is made just when the image reaches behind the site, the jumps can be assembled and the
original instructions are known. -/
theorem plan_eq_ok {image routine : Bytes} {d : Descriptor} {stored : Except Storage.StoreError Bytes}
    {patch : Patch} : plan image d routine stored = .ok patch ↔
      ∃ current jump displaced, part image d.siteOffset 16 = .ok current ∧
        assemble d.siteJump = .ok jump ∧
        originalWords current.words jump stored = .ok displaced ∧
        d.returnAddress.toNat % 4 = 0 ∧
        patch = ⟨Descriptor.siteWords jump, d.storedBytes routine displaced, displaced⟩ := by
  simp only [plan, bind_eq_ok, mapError_eq_ok, assembleLines_prologueLines,
    assembleLines_epilogueLines, assembleLines_returnLines, Except.ok.injEq, exists_eq_left']
  constructor
  · rintro ⟨current, hcurrent, jump, hjump, displaced, hdisplaced, _, ⟨haligned, rfl⟩, hpatch⟩
    cases hpatch
    exact ⟨current, jump, displaced, hcurrent, hjump, hdisplaced, haligned, rfl⟩
  · rintro ⟨current, jump, displaced, hcurrent, hjump, hdisplaced, haligned, rfl⟩
    exact ⟨current, hcurrent, jump, hjump, displaced, hdisplaced, _, ⟨haligned, rfl⟩, rfl⟩

theorem part_eq_ok {image bytes : Bytes} {offset size : ℕ} :
    part image offset size = .ok bytes ↔
      offset + size ≤ image.length ∧ bytes = (image.drop offset).take size := by
  unfold part Bytes.slice?
  by_cases h : offset + size ≤ image.length
  · simp [h, eq_comm]
  · simp [h]

def Descriptor.siteOf (d : Descriptor) (image : Bytes) : List UInt32 :=
  Bytes.words ((image.drop d.siteOffset).take 16)

section Site

variable {d : Descriptor} {image : Bytes}

theorem length_siteOf (h : d.siteOffset + 16 ≤ image.length) :
    (d.siteOf image).length = displacedCount := by
  rw [Descriptor.siteOf, Bytes.length_words, List.length_take, List.length_drop, displacedCount]
  omega

theorem siteOf_overwrite_of_apart {offset : ℕ} {new : Bytes}
    (hroom : offset + new.length ≤ image.length)
    (hapart : Bytes.Apart d.siteOffset 16 offset new.length) :
    d.siteOf (image.overwrite offset new) = d.siteOf image := by
  rw [Descriptor.siteOf, Bytes.take_drop_overwrite_of_apart hroom hapart]
  rfl

theorem siteOf_overwrite {ws : List UInt32} (hcount : ws.length = displacedCount)
    (hroom : d.siteOffset + 4 * ws.length ≤ image.length) :
    d.siteOf (image.overwrite d.siteOffset (Bytes.ofWords ws)) = ws := by
  have hlength : (Bytes.ofWords ws).length = 16 := by rw [Bytes.length_ofWords, hcount, displacedCount]
  rw [← Bytes.length_ofWords] at hroom
  have hsite := Bytes.take_drop_overwrite hroom
  rw [hlength] at hsite
  rw [Descriptor.siteOf, hsite, Bytes.words_ofWords]

end Site

def Descriptor.IsHooked (d : Descriptor) (image : Bytes) : Prop :=
  ∃ jump, assemble d.siteJump = .ok jump ∧ (d.siteOf image).head? = some jump

theorem Descriptor.isHooked_iff {d : Descriptor} {image : Bytes}
    (haligned : d.trampolineAddress.toNat % 4 = 0) :
    d.IsHooked image ↔ (d.siteOf image).head? =
      some (Instruction.jump .j (.ofAddress d.trampolineAddress)).word := by
  rw [Descriptor.IsHooked, assemble_siteJump haligned]
  simp

/-- An image that is not hooked yet is hooked with the words of its site, whatever is stored. -/
theorem plan_of_not_hooked {d : Descriptor} {image : Bytes} {jump : UInt32}
    (hfree : ¬d.IsHooked image) (hroom : d.siteOffset + 16 ≤ image.length)
    (hjump : assemble d.siteJump = .ok jump) (haligned : d.returnAddress.toNat % 4 = 0)
    (routine : Bytes) (stored : Except Storage.StoreError Bytes) :
    plan image d routine stored = .ok ⟨Descriptor.siteWords jump,
      d.storedBytes routine (d.siteOf image), d.siteOf image⟩ := by
  refine plan_eq_ok.2 ⟨_, jump, _, part_eq_ok.2 ⟨hroom, rfl⟩, hjump, ?_, haligned, rfl⟩
  exact if_neg fun hhead => hfree ⟨jump, hjump, hhead⟩

theorem length_of_displacedWords {stored : Bytes} {displaced : List UInt32}
    (h : displacedWords stored = .ok displaced) : displaced.length = displacedCount := by
  unfold displacedWords at h
  split at h
  · cases h
  · cases h
    simp only [List.length_take, Bytes.length_words, List.length_drop, displacedCount] at *
    omega

theorem length_of_originalWords {current : List UInt32} {jump : UInt32}
    {stored : Except Storage.StoreError Bytes} {displaced : List UInt32}
    (hcurrent : current.length = displacedCount)
    (h : originalWords current jump stored = .ok displaced) :
    displaced.length = displacedCount := by
  unfold originalWords at h
  split at h
  · obtain ⟨bytes, -, h⟩ := bind_eq_ok.1 h
    exact length_of_displacedWords h
  · cases h
    exact hcurrent

/-- The displaced instructions are found again behind a routine of any length. -/
theorem displacedWords_storedBytes (d : Descriptor) (routine : Bytes) {displaced : List UInt32}
    (h : displaced.length = displacedCount) :
    displacedWords (d.storedBytes routine displaced) = .ok displaced := by
  set front := Bytes.ofWords prologueWords ++ routine ++ Bytes.ofWords epilogueWords with hfront
  set tail := Bytes.ofWords (displaced ++ d.returnWords) with htail
  have hsplit : d.storedBytes routine displaced = front ++ tail := by
    simp [Descriptor.storedBytes, hfront, htail]
  have hlength : tail.length = (displacedCount + 2) * 4 := by
    simp only [htail, Bytes.length_ofWords, List.length_append, h, Descriptor.returnWords,
      List.length_cons, List.length_nil]
    omega
  have hdrop : (front ++ tail).drop ((front ++ tail).length - (displacedCount + 2) * 4) = tail := by
    rw [List.length_append, hlength, Nat.add_sub_cancel, List.drop_left]
  have hwords : (Bytes.words tail).take displacedCount = displaced := by
    rw [htail, Bytes.words_ofWords, ← h, List.take_left]
  rw [displacedWords, hsplit, if_neg (by simp [hlength]), hdrop]
  show Except.ok ((Bytes.words tail).take displacedCount) = _
  rw [hwords]

theorem writeWords_eq_ok {image written : Bytes} {offset : ℕ} {ws : List UInt32} :
    writeWords image offset ws = .ok written ↔
      offset + 4 * ws.length ≤ image.length ∧
        written = image.overwrite offset (Bytes.ofWords ws) := by
  unfold writeWords
  simp only [bind_eq_ok, part_eq_ok, pure, Except.pure, Except.ok.injEq]
  constructor
  · rintro ⟨_, ⟨hroom, -⟩, rfl⟩
    exact ⟨hroom, rfl⟩
  · rintro ⟨hroom, rfl⟩
    exact ⟨_, ⟨hroom, rfl⟩, rfl⟩

/-- The code of a hook takes 136 bytes, whatever the descriptor says. -/
theorem length_of_codeWords {d : Descriptor} {primitive : UInt32} {code : List UInt32}
    (h : codeWords d primitive = .ok code) : code.length = 34 := by
  obtain ⟨trampoline, hlines, rfl⟩ := map_eq_ok.1 h
  rw [List.length_cons, length_of_assembleAll (mapError_eq_ok.1 hlines), length_trampolineLines]

theorem writeCode_eq_ok {image written : Bytes} {d : Descriptor} {primitive : UInt32} {size : ℕ} :
    writeCode image d primitive = .ok (size, written) ↔
      ∃ code, codeWords d primitive = .ok code ∧ d.codeOffset + 136 ≤ image.length ∧ size = 136 ∧
        written = image.overwrite d.codeOffset (Bytes.ofWords code) := by
  unfold writeCode
  simp only [bind_eq_ok, pure, Except.pure, Except.ok.injEq, Prod.mk.injEq]
  constructor
  · rintro ⟨code, hcode, _, hwritten, rfl, rfl⟩
    obtain ⟨hroom, rfl⟩ := writeWords_eq_ok.1 hwritten
    rw [length_of_codeWords hcode] at hroom ⊢
    exact ⟨code, hcode, hroom, rfl, rfl⟩
  · rintro ⟨code, hcode, hroom, rfl, rfl⟩
    have hlength := length_of_codeWords hcode
    exact ⟨code, hcode, _, writeWords_eq_ok.2 ⟨by rw [hlength]; exact hroom, rfl⟩,
      by rw [hlength], rfl⟩

variable {image hooked : Bytes} {d : Descriptor} {patch : Patch}

theorem site_of_plan {routine : Bytes} {stored : Except Storage.StoreError Bytes}
    (hplan : plan image d routine stored = .ok patch) :
    patch.site.length = displacedCount ∧ d.siteOffset + 4 * patch.site.length ≤ image.length := by
  obtain ⟨current, jump, displaced, hcurrent, -, -, -, rfl⟩ := plan_eq_ok.1 hplan
  exact ⟨rfl, (part_eq_ok.1 hcurrent).1⟩

/-- Cheats are planned like any routine, and the code of the hook must fit into the image. -/
theorem planCheats_eq_ok {build : Build} {symbols : SymbolTable} {session : Cheat.Session}
    {stored : Except Storage.StoreError Bytes} :
    planCheats image d build symbols session stored = .ok (patch, hooked) ↔
      ∃ primitive code, symbols.address build readPrimitiveName = .ok primitive ∧
        codeWords d primitive = .ok code ∧ d.codeOffset + 136 ≤ image.length ∧
        plan image d session.joined stored = .ok patch ∧
        hooked = (image.overwrite d.siteOffset (Bytes.ofWords patch.site)).overwrite d.codeOffset
          (Bytes.ofWords code) := by
  unfold planCheats
  simp only [bind_eq_ok, mapError_eq_ok, pure, Except.pure, Except.ok.injEq, Prod.mk.injEq]
  constructor
  · rintro ⟨primitive, hprimitive, code, hcode, _, hpart, _, hplan, first, hfirst, second, hsecond,
      rfl, rfl⟩
    have hroom := (part_eq_ok.1 hpart).1
    rw [length_of_codeWords hcode] at hroom
    obtain ⟨-, rfl⟩ := writeWords_eq_ok.1 hfirst
    obtain ⟨-, rfl⟩ := writeWords_eq_ok.1 hsecond
    exact ⟨primitive, code, hprimitive, hcode, hroom, hplan, rfl⟩
  · rintro ⟨primitive, code, hprimitive, hcode, hroom, hplan, rfl⟩
    have hsite := (site_of_plan hplan).2
    have hlength : (image.overwrite d.siteOffset (Bytes.ofWords patch.site)).length =
        image.length := Bytes.length_overwrite (by rw [Bytes.length_ofWords]; exact hsite)
    have hcodeRoom : d.codeOffset + 4 * code.length ≤ image.length := by
      rw [length_of_codeWords hcode]
      exact hroom
    exact ⟨primitive, hprimitive, code, hcode, _, part_eq_ok.2 ⟨hcodeRoom, rfl⟩, patch, hplan, _,
      writeWords_eq_ok.2 ⟨hsite, rfl⟩, _, writeWords_eq_ok.2 ⟨hlength ▸ hcodeRoom, rfl⟩, rfl, rfl⟩

section Memory

open Storage

variable {routine : Bytes} {build : Build} {symbols : SymbolTable} {session : Cheat.Session}
  {store : MemoryStore} {e : HookError}

theorem apply_of_plan (hplan : plan image d routine (store.read d.slot) = .ok patch) :
    apply image d routine store =
      (.ok (patch, image.overwrite d.siteOffset (Bytes.ofWords patch.site)),
        store.write d.slot patch.stored) := by
  have hread : SlotStore.read store d.slot = store.read d.slot := rfl
  have hwritten := writeWords_eq_ok.2 ⟨(site_of_plan hplan).2, rfl⟩
  simp only [apply, hread, hplan, bind, Except.bind, hwritten]
  rfl

theorem apply_of_error (hplan : plan image d routine (store.read d.slot) = .error e) :
    apply image d routine store = (.error e, store) := by
  have hread : SlotStore.read store d.slot = store.read d.slot := rfl
  simp only [apply, hread, hplan, bind, Except.bind]

theorem embed_of_planCheats
    (hplan : planCheats image d build symbols session (store.read d.slot) = .ok (patch, hooked)) :
    embed image d build symbols session store =
      (.ok (patch, hooked), store.write d.slot patch.stored) := by
  have hread : SlotStore.read store d.slot = store.read d.slot := rfl
  simp only [embed, hread, hplan]
  rfl

theorem embed_of_error
    (hplan : planCheats image d build symbols session (store.read d.slot) = .error e) :
    embed image d build symbols session store = (.error e, store) := by
  have hread : SlotStore.read store d.slot = store.read d.slot := rfl
  simp only [embed, hread, hplan]

end Memory

end CartPatch.Hook
