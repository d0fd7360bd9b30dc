import CartPatch.Proofs.Hook.InPlace

/-!
What can stand in the way of embedding cheats. Of the lines of the trampoline only those with the
slot and the call of the platform can fail to assemble, whatever the other fields of a descriptor
are; the jumps at the site and behind it need the addresses of words. Together with the room in the
image and the routine that was stored before, these are all obstacles there are (`Obstacle`), and
embedding fails with the first of them (`embed_fails_at_first_obstacle`).
-/

namespace CartPatch.Hook

open Mips Assembler Storage Outcome Numeral

namespace Descriptor

variable (d : Descriptor)

def approachLines : List Text :=
  saveLines pointerRegisters ++ d.loadLines ++ ["bne t8, t9, " ++ decimal 23, "nop"] ++
    saveLines savedRegisters

def folderLine : Text := "ori a0, zero, 0x" ++ capitalHex 0 d.slot.folder.toNat

def fileLine : Text := "ori a1, zero, 0x" ++ capitalHex 0 d.slot.file.toNat

def settleLines : List Text :=
  ("lui t9, 0x" ++ capitalHex 4 (upperHalf d.cacheAddress).toNat) ::
    ("sw v0, " ++ offsetText (lowerHalf d.cacheAddress) ++ "(t9)") :: "addiu t8, v0, 0" ::
    (restoreLines savedRegisters ++ (["jr t8", "nop"] : List Text))

theorem trampolineLines_eq (readPrimitive : UInt32) : d.trampolineLines readPrimitive =
    d.approachLines ++ d.folderLine :: jumpLine "jal" readPrimitive :: d.fileLine ::
      d.settleLines := rfl

theorem assembles_approachLines : Assembles d.approachLines
    (d.enterInstructions ++ [skipInstruction, Instruction.nop] ++
      pushInstructions savedRegisters) := by
  have hskip := parse_branchText "bne t8, t9, " .bne .t8 .t9 rfl (by decide : 23 < 0x8000)
  have hnop : Assembler.parse "nop" = .ok .nop := rfl
  exact ((assembles_loadLines d).append (assembles_cons.2 ⟨hskip, assembles_cons.2 ⟨hnop,
    assembles_nil⟩⟩)).append (assembles_saveLines (by decide))

theorem trampolineAddress_mod : d.trampolineAddress.toNat % 4 = d.cacheAddress.toNat % 4 := by
  have hfour : (4 : UInt32).toNat = 4 := rfl
  rw [trampolineAddress, UInt32.toNat_add, hfour]
  omega

theorem returnAddress_mod : d.returnAddress.toNat % 4 = d.siteAddress.toNat % 4 := by
  have hsize : (16 : UInt32).toNat = 16 := rfl
  rw [returnAddress, UInt32.toNat_add, hsize]
  omega

end Descriptor

section Code

variable {d : Descriptor} {readPrimitive : UInt32}

theorem parse_folderLine (h : d.slot.folder.toNat ≤ 0xFFFF) :
    parse d.folderLine = .ok (.ori .a0 .zero (UInt16.ofNat d.slot.folder.toNat)) :=
  parse_oriText "ori a0, zero, 0x" .a0 .zero rfl 0 (by omega)

theorem codeWords_of_folder (h : 0xFFFF < d.slot.folder.toNat) : codeWords d readPrimitive =
    .error (.assembly (.immediateOutOfRange .ori d.slot.folder.toNat)) := by
  have hlt := d.slot.folder.toNat_lt
  have hline : parse d.folderLine = .error (.immediateOutOfRange .ori d.slot.folder.toNat) :=
    parse_oriText_of_large "ori a0, zero, 0x" .a0 .zero rfl 0 (by omega) (by omega)
  rw [codeWords, assembleLines, d.trampolineLines_eq,
    d.assembles_approachLines.assembleAll_of_error hline]
  rfl

theorem codeWords_of_primitive (hfolder : d.slot.folder.toNat ≤ 0xFFFF)
    (h : readPrimitive.toNat % 4 ≠ 0) :
    codeWords d readPrimitive = .error (.assembly (.misalignedTarget readPrimitive)) := by
  have hline := parse_jumpLine .jal readPrimitive
  rw [if_neg h] at hline
  have hfront := d.assembles_approachLines.append
    (assembles_cons.2 ⟨parse_folderLine hfolder, assembles_nil⟩)
  have hall := hfront.assembleAll_of_error hline (d.fileLine :: d.settleLines)
  rw [List.append_assoc] at hall
  rw [codeWords, assembleLines, d.trampolineLines_eq]
  exact congrArg (fun r => (Except.mapError HookError.assembly r).map (d.sentinel :: ·)) hall

theorem codeWords_of_file (hfolder : d.slot.folder.toNat ≤ 0xFFFF)
    (haligned : readPrimitive.toNat % 4 = 0) (h : 0xFFFF < d.slot.file.toNat) :
    codeWords d readPrimitive =
      .error (.assembly (.immediateOutOfRange .ori d.slot.file.toNat)) := by
  have hlt := d.slot.file.toNat_lt
  have hline : parse d.fileLine = .error (.immediateOutOfRange .ori d.slot.file.toNat) :=
    parse_oriText_of_large "ori a1, zero, 0x" .a1 .zero rfl 0 (by omega) (by omega)
  have hcall := parse_jumpLine .jal readPrimitive
  rw [if_pos haligned] at hcall
  have hfront := d.assembles_approachLines.append (assembles_cons.2 ⟨parse_folderLine hfolder,
    assembles_cons.2 ⟨hcall, assembles_nil⟩⟩)
  have hall := hfront.assembleAll_of_error hline d.settleLines
  rw [List.append_assoc] at hall
  rw [codeWords, assembleLines, d.trampolineLines_eq]
  exact congrArg (fun r => (Except.mapError HookError.assembly r).map (d.sentinel :: ·)) hall

theorem codeWords_of_small (hfolder : d.slot.folder.toNat ≤ 0xFFFF)
    (haligned : readPrimitive.toNat % 4 = 0) (hfile : d.slot.file.toNat ≤ 0xFFFF) :
    ∃ code, codeWords d readPrimitive = .ok code := by
  rw [codeWords, assembleLines,
    (assembles_trampolineLines hfolder hfile haligned).assembleAll_eq]
  exact ⟨_, rfl⟩

end Code

section Plan

variable {d : Descriptor} {image routine : Bytes} {stored : Except StoreError Bytes}

def Descriptor.Jumps (d : Descriptor) (image : Bytes) : Prop :=
  (d.siteOf image).head? = some (Instruction.jump .j (.ofAddress d.trampolineAddress)).word

theorem part_of_lt {offset size : ℕ} (h : image.length < offset + size) :
    part image offset size = .error (.imageTooSmall offset size image.length) := by
  rw [part, Bytes.slice?, if_neg (Nat.not_le.2 h)]

theorem part_of_site (h : d.siteOffset + 16 ≤ image.length) :
    part image d.siteOffset (4 * displacedCount) = .ok ((image.drop d.siteOffset).take 16) :=
  part_eq_ok.2 ⟨h, rfl⟩

theorem plan_of_site (h : image.length < d.siteOffset + 16) : plan image d routine stored =
    .error (.imageTooSmall d.siteOffset 16 image.length) := by
  rw [plan]
  exact bind_of_error (part_of_lt h) _

theorem plan_of_cache (hsite : d.siteOffset + 16 ≤ image.length)
    (h : d.cacheAddress.toNat % 4 ≠ 0) :
    plan image d routine stored = .error (.assembly (.misalignedTarget d.trampolineAddress)) := by
  have hjump := parse_jumpLine .j d.trampolineAddress
  rw [d.trampolineAddress_mod, if_neg h] at hjump
  have hassemble : assemble d.siteJump = .error (.misalignedTarget d.trampolineAddress) :=
    congrArg (Except.map Instruction.word) hjump
  rw [plan, bind_of_ok (part_of_site hsite)]
  exact bind_of_error (mapError_of_error hassemble _) _

/-- With room at the site and an aligned cache cell, a plan depends on the original instructions and
on the jump back. -/
theorem plan_eq_of_site (hsite : d.siteOffset + 16 ≤ image.length)
    (hcache : d.cacheAddress.toNat % 4 = 0) : plan image d routine stored =
      originalWords (d.siteOf image) (Instruction.jump .j (.ofAddress d.trampolineAddress)).word
        stored >>= fun displaced => assembleLines d.returnLines >>= fun back => .ok
          ⟨Descriptor.siteWords (Instruction.jump .j (.ofAddress d.trampolineAddress)).word,
            Bytes.ofWords prologueWords ++ routine ++
              Bytes.ofWords (epilogueWords ++ displaced ++ back), displaced⟩ := by
  have hjump := assemble_siteJump (d.trampolineAddress_mod.trans hcache)
  rw [plan, bind_of_ok (part_of_site hsite), bind_of_ok (mapError_eq_ok.2 hjump)]
  simp only [bind_of_ok assembleLines_prologueLines, bind_of_ok assembleLines_epilogueLines]
  rfl

theorem originalWords_of_free {jump : UInt32} {current : List UInt32}
    (h : current.head? ≠ some jump) : originalWords current jump stored = .ok current := by
  rw [originalWords, if_neg h]

theorem originalWords_of_unreadable {jump : UInt32} {current : List UInt32} (cause : StoreError)
    (h : current.head? = some jump) :
    originalWords current jump (.error cause) = .error (.store cause) := by
  rw [originalWords, if_pos h]
  rfl

theorem originalWords_of_stored {jump : UInt32} {current : List UInt32} (bytes : Bytes)
    (h : current.head? = some jump) :
    originalWords current jump (.ok bytes) = displacedWords bytes := by
  rw [originalWords, if_pos h]
  rfl

theorem displacedWords_of_lt {bytes : Bytes} (h : bytes.length < 24) :
    displacedWords bytes = .error (.missingDisplacedCode bytes.length) :=
  if_pos h

theorem displacedWords_of_le {bytes : Bytes} (h : 24 ≤ bytes.length) :
    ∃ displaced, displacedWords bytes = .ok displaced :=
  ⟨_, if_neg (Nat.not_lt.2 h)⟩

theorem assembleLines_returnLines_of_unaligned (h : d.siteAddress.toNat % 4 ≠ 0) :
    assembleLines d.returnLines = .error (.assembly (.misalignedTarget d.returnAddress)) := by
  have hline := parse_jumpLine .j d.returnAddress
  rw [d.returnAddress_mod, if_neg h] at hline
  have hall := assembles_nil.assembleAll_of_error hline ["nop"]
  exact congrArg (Except.mapError HookError.assembly) hall

end Plan

/-- What stands in the way of embedding cheats, with its place in the order in which embedding finds
out, and with the error that tells it. -/
inductive Obstacle (image : Bytes) (d : Descriptor) (build : Build) (symbols : SymbolTable)
    (stored : Except StoreError Bytes) : ℕ → HookError → Prop where
  | unknown {cause : SymbolError} (h : symbols.address build readPrimitiveName = .error cause) :
      Obstacle image d build symbols stored 0 (.missingPrimitive cause)
  | folder (h : 0xFFFF < d.slot.folder.toNat) : Obstacle image d build symbols stored 1
      (.assembly (.immediateOutOfRange .ori d.slot.folder.toNat))
  | primitive {p : UInt32} (hknown : symbols.address build readPrimitiveName = .ok p)
      (h : p.toNat % 4 ≠ 0) :
      Obstacle image d build symbols stored 2 (.assembly (.misalignedTarget p))
  | file (h : 0xFFFF < d.slot.file.toNat) : Obstacle image d build symbols stored 3
      (.assembly (.immediateOutOfRange .ori d.slot.file.toNat))
  | code (h : image.length < d.codeOffset + 136) : Obstacle image d build symbols stored 4
      (.imageTooSmall d.codeOffset 136 image.length)
  | site (h : image.length < d.siteOffset + 16) : Obstacle image d build symbols stored 5
      (.imageTooSmall d.siteOffset 16 image.length)
  | cache (h : d.cacheAddress.toNat % 4 ≠ 0) : Obstacle image d build symbols stored 6
      (.assembly (.misalignedTarget d.trampolineAddress))
  | unreadable {cause : StoreError} (hjumps : d.Jumps image) (h : stored = .error cause) :
      Obstacle image d build symbols stored 7 (.store cause)
  | short {bytes : Bytes} (hjumps : d.Jumps image) (hread : stored = .ok bytes)
      (h : bytes.length < 24) :
      Obstacle image d build symbols stored 7 (.missingDisplacedCode bytes.length)
  | back (h : d.siteAddress.toNat % 4 ≠ 0) : Obstacle image d build symbols stored 8
      (.assembly (.misalignedTarget d.returnAddress))

section Obstacles

variable {image : Bytes} {d : Descriptor} {build : Build} {symbols : SymbolTable}
  {stored : Except StoreError Bytes} {session : Cheat.Session} {k : ℕ} {e : HookError}

def Clear (image : Bytes) (d : Descriptor) (build : Build) (symbols : SymbolTable)
    (stored : Except StoreError Bytes) (k : ℕ) : Prop :=
  ∀ j < k, ∀ e, ¬Obstacle image d build symbols stored j e

theorem Clear.primitive (h : Clear image d build symbols stored k) (hk : 0 < k) :
    ∃ p, symbols.address build readPrimitiveName = .ok p := by
  cases hknown : symbols.address build readPrimitiveName with
  | ok p => exact ⟨p, rfl⟩
  | error cause => exact absurd (.unknown hknown) (h 0 hk _)

theorem Clear.folder (h : Clear image d build symbols stored k) (hk : 1 < k) :
    d.slot.folder.toNat ≤ 0xFFFF :=
  Nat.not_lt.1 fun hlarge => h 1 hk _ (.folder hlarge)

theorem Clear.aligned (h : Clear image d build symbols stored k) (hk : 2 < k) {p : UInt32}
    (hknown : symbols.address build readPrimitiveName = .ok p) : p.toNat % 4 = 0 :=
  Decidable.not_not.1 fun hunaligned => h 2 hk _ (.primitive hknown hunaligned)

theorem Clear.code (h : Clear image d build symbols stored k) (hk : 3 < k) :
    ∃ p code, symbols.address build readPrimitiveName = .ok p ∧ codeWords d p = .ok code := by
  obtain ⟨p, hknown⟩ := h.primitive (by omega)
  have hfile : d.slot.file.toNat ≤ 0xFFFF := Nat.not_lt.1 fun hlarge => h 3 hk _ (.file hlarge)
  obtain ⟨code, hcode⟩ := codeWords_of_small (h.folder (by omega))
    (h.aligned (by omega) hknown) hfile
  exact ⟨p, code, hknown, hcode⟩

theorem Clear.codeRoom (h : Clear image d build symbols stored k) (hk : 4 < k) :
    d.codeOffset + 136 ≤ image.length :=
  Nat.not_lt.1 fun hsmall => h 4 hk _ (.code hsmall)

theorem Clear.siteRoom (h : Clear image d build symbols stored k) (hk : 5 < k) :
    d.siteOffset + 16 ≤ image.length :=
  Nat.not_lt.1 fun hsmall => h 5 hk _ (.site hsmall)

theorem Clear.cache (h : Clear image d build symbols stored k) (hk : 6 < k) :
    d.cacheAddress.toNat % 4 = 0 :=
  Decidable.not_not.1 fun hunaligned => h 6 hk _ (.cache hunaligned)

theorem Clear.original (h : Clear image d build symbols stored k) (hk : 7 < k) :
    ∃ displaced, originalWords (d.siteOf image)
      (Instruction.jump .j (.ofAddress d.trampolineAddress)).word stored = .ok displaced := by
  by_cases hjumps : d.Jumps image
  · cases hread : stored with
    | error cause => exact absurd (.unreadable hjumps hread) (h 7 hk _)
    | ok bytes =>
      rw [originalWords_of_stored bytes hjumps]
      exact displacedWords_of_le
        (Nat.not_lt.1 fun hshort => h 7 hk _ (.short hjumps hread hshort))
  · exact ⟨_, originalWords_of_free hjumps⟩

/-- Behind the code of the hook, planning the routine decides. -/
theorem Clear.planCheats_of_plan (h : Clear image d build symbols stored k) (hk : 4 < k)
    (hplan : plan image d session.joined stored = .error e) :
    planCheats image d build symbols session stored = .error e := by
  obtain ⟨p, code, hknown, hcode⟩ := h.code (by omega)
  have hroom : d.codeOffset + 4 * code.length ≤ image.length := by
    rw [length_of_codeWords hcode]
    exact h.codeRoom hk
  rw [planCheats, bind_of_ok (mapError_eq_ok.2 hknown), bind_of_ok hcode,
    bind_of_ok (part_eq_ok.2 ⟨hroom, rfl⟩), bind_of_error hplan]

theorem planCheats_of_obstacle (h : Obstacle image d build symbols stored k e)
    (hclear : Clear image d build symbols stored k) :
    planCheats image d build symbols session stored = .error e := by
  have hcode {p : UInt32} {e : HookError}
      (hknown : symbols.address build readPrimitiveName = .ok p) (herror : codeWords d p = .error e) :
      planCheats image d build symbols session stored = .error e := by
    rw [planCheats, bind_of_ok (mapError_eq_ok.2 hknown), bind_of_error herror]
  cases h with
  | unknown h =>
    rw [planCheats, bind_of_error (mapError_of_error h _)]
  | folder h =>
    obtain ⟨p, hknown⟩ := hclear.primitive (by decide)
    exact hcode hknown (codeWords_of_folder h)
  | primitive hknown h =>
    exact hcode hknown (codeWords_of_primitive (hclear.folder (by decide)) h)
  | file h =>
    obtain ⟨p, hknown⟩ := hclear.primitive (by decide)
    exact hcode hknown (codeWords_of_file (hclear.folder (by decide))
      (hclear.aligned (by decide) hknown) h)
  | code h =>
    obtain ⟨p, code, hknown, hwords⟩ := hclear.code (by decide)
    have hpart : part image d.codeOffset (4 * code.length) =
        .error (.imageTooSmall d.codeOffset 136 image.length) := by
      rw [length_of_codeWords hwords]
      exact part_of_lt h
    rw [planCheats, bind_of_ok (mapError_eq_ok.2 hknown), bind_of_ok hwords, bind_of_error hpart]
  | site h => exact hclear.planCheats_of_plan (by decide) (plan_of_site h)
  | cache h =>
    exact hclear.planCheats_of_plan (by decide) (plan_of_cache (hclear.siteRoom (by decide)) h)
  | @unreadable cause hjumps h =>
    have horiginal := originalWords_of_unreadable cause hjumps
    refine hclear.planCheats_of_plan (by decide) ?_
    rw [plan_eq_of_site (hclear.siteRoom (by decide)) (hclear.cache (by decide)), h,
      bind_of_error horiginal]
  | @short bytes hjumps hread h =>
    have horiginal := (originalWords_of_stored bytes hjumps).trans (displacedWords_of_lt h)
    refine hclear.planCheats_of_plan (by decide) ?_
    rw [plan_eq_of_site (hclear.siteRoom (by decide)) (hclear.cache (by decide)), hread,
      bind_of_error horiginal]
  | back h =>
    obtain ⟨displaced, hdisplaced⟩ := hclear.original (by decide)
    refine hclear.planCheats_of_plan (by decide) ?_
    rw [plan_eq_of_site (hclear.siteRoom (by decide)) (hclear.cache (by decide)),
      bind_of_ok hdisplaced, bind_of_error (assembleLines_returnLines_of_unaligned h)]

theorem planCheats_of_clear (hclear : ∀ k, Clear image d build symbols stored k) :
    ∃ result, planCheats image d build symbols session stored = .ok result := by
  obtain ⟨p, code, hknown, hcode⟩ := (hclear 9).code (by decide)
  obtain ⟨displaced, hdisplaced⟩ := (hclear 9).original (by decide)
  have hsite := (hclear 9).siteRoom (by decide)
  have hcache := (hclear 9).cache (by decide)
  have hback : d.siteAddress.toNat % 4 = 0 :=
    Decidable.not_not.1 fun hunaligned => hclear 9 8 (by decide) _ (.back hunaligned)
  have hplan : plan image d session.joined stored = .ok _ :=
    plan_eq_ok.2 ⟨_, _, displaced, part_eq_ok.2 ⟨hsite, rfl⟩,
      assemble_siteJump (d.trampolineAddress_mod.trans hcache), hdisplaced,
      d.returnAddress_mod.trans hback, rfl⟩
  exact ⟨_, planCheats_eq_ok.2 ⟨p, code, hknown, hcode, (hclear 9).codeRoom (by decide), hplan, rfl⟩⟩

theorem exists_first_obstacle (h : ∃ k e, Obstacle image d build symbols stored k e) :
    ∃ k e, Obstacle image d build symbols stored k e ∧ Clear image d build symbols stored k := by
  classical
  obtain ⟨e, hfirst⟩ := Nat.find_spec h
  exact ⟨_, e, hfirst, fun j hj e' h' => Nat.find_min h hj ⟨e', h'⟩⟩

end Obstacles

variable {σ : Type} [SlotStore σ]

/-- Where the store takes the routine, cheats are embedded just when nothing stands in the way, and
embedding fails with the error of the first obstacle. -/
theorem embed_fails_at_first_obstacle (image : Bytes) (d : Descriptor) (build : Build)
    (symbols : SymbolTable) (session : Cheat.Session) {store : σ}
    (hwrite : ∀ data, (SlotStore.write store d.slot data).1 = .ok ()) :
    ((∃ result, (embed image d build symbols session store).1 = .ok result) ↔
        ∀ k e, ¬Obstacle image d build symbols (SlotStore.read store d.slot) k e) ∧
      ∀ e, (embed image d build symbols session store).1 = .error e ↔
        ∃ k, Obstacle image d build symbols (SlotStore.read store d.slot) k e ∧
          ∀ j < k, ∀ e', ¬Obstacle image d build symbols (SlotStore.read store d.slot) j e' := by
  set stored := SlotStore.read store d.slot with hstored
  have hembed : (embed image d build symbols session store).1 =
      planCheats image d build symbols session stored := by
    rw [embed, ← hstored]
    cases planCheats image d build symbols session stored with
    | error e => rfl
    | ok result =>
      simp only [storeRoutine, hwrite]
      rfl
  rw [hembed]
  have hfails {k : ℕ} {e : HookError} (h : Obstacle image d build symbols stored k e)
      (hclear : Clear image d build symbols stored k) :
      planCheats image d build symbols session stored = .error e :=
    planCheats_of_obstacle h hclear
  by_cases hobstacle : ∃ k e, Obstacle image d build symbols stored k e
  · obtain ⟨k, e, hfirst, hclear⟩ := exists_first_obstacle hobstacle
    have herror := hfails hfirst hclear
    refine ⟨⟨?_, fun h => absurd hfirst (h k e)⟩, fun e' => ⟨fun h => ?_, ?_⟩⟩
    · rintro ⟨_, h⟩
      rw [herror] at h
      cases h
    · rw [herror] at h
      cases h
      exact ⟨k, hfirst, hclear⟩
    · rintro ⟨k', h, hclear'⟩
      exact hfails h hclear'
  · have hnone : ∀ k e, ¬Obstacle image d build symbols stored k e :=
      fun k e h => hobstacle ⟨k, e, h⟩
    obtain ⟨result, hresult⟩ : ∃ result,
        planCheats image d build symbols session stored = .ok result :=
      planCheats_of_clear fun k j _ e => hnone j e
    refine ⟨⟨fun _ => hnone, fun _ => ⟨result, hresult⟩⟩, fun e' => ⟨fun h => ?_, ?_⟩⟩
    · rw [hresult] at h
      cases h
    · rintro ⟨k, h, -⟩
      exact absurd h (hnone k e')

/-- A descriptor with a folder that is too large and a cache cell that is not aligned. -/
def Descriptor.faulty : Descriptor :=
  { Descriptor.small with slot := ⟨0x10000, 240⟩, cacheAddress := 0x80040E02 }

theorem embed_fails_at_first_obstacle_faulty :
    (∀ slot data, (SlotStore.write MemoryStore.empty slot data).1 = .ok ()) ∧
    (∃ result, (embed (List.replicate 256 0) .small .mp1Usa smallSymbols .empty
      MemoryStore.empty).1 = .ok result) ∧
    (embed (List.replicate 8 0) .faulty .mp1Usa smallSymbols .empty MemoryStore.empty).1 =
      .error (.assembly (.immediateOutOfRange .ori 0x10000)) := by
  have hwrite : ∀ slot data, (SlotStore.write MemoryStore.empty slot data).1 = .ok () :=
    fun _ _ => rfl
  refine ⟨hwrite, ?_, ?_⟩
  · refine (embed_fails_at_first_obstacle _ .small .mp1Usa smallSymbols .empty
      (hwrite _)).1.2 fun k e h => ?_
    have hfree : ¬Descriptor.small.Jumps (List.replicate 256 0) := by
      rw [Descriptor.Jumps]
      decide +kernel
    cases h with
    | unknown h => cases h
    | primitive hknown h =>
      cases hknown
      exact h rfl
    | folder h | file h | code h | site h | cache h | back h => exact absurd h (by decide +kernel)
    | unreadable hjumps _ | short hjumps _ _ => exact hfree hjumps
  · refine ((embed_fails_at_first_obstacle _ .faulty .mp1Usa smallSymbols .empty
      (hwrite _)).2 _).2 ⟨1, .folder (by decide), fun j hj e' h => ?_⟩
    obtain rfl : j = 0 := by omega
    cases h with
    | unknown h => cases h

end CartPatch.Hook
