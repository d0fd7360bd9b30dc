import CartPatch.Proofs.Hook.Patch

/-!
Hooking again and again. The instructions of the site lie in the image at first, and afterwards only
near the end of the stored routine, which every further hook replaces by one of another length. The
invariant `Original` links the image to the stored routine; whatever else is written meanwhile,
every hook displaces the instructions that were there at first (`original_kept`).
-/

namespace CartPatch.Hook

open Mips Assembler Storage

structure Cartridge where
  image : Bytes
  store : MemoryStore

inductive Operation where
  | apply (routine : Bytes)
  | embed (build : Build) (symbols : SymbolTable) (session : Cheat.Session)
  | writeCode (readPrimitive : UInt32)
  | storeFile (slot : Slot) (data : Bytes)
  | writeImage (offset : ℕ) (bytes : Bytes)

/-- The operation writes neither the slot of the descriptor nor the site but by hooking. -/
def Operation.Spares (d : Descriptor) : Operation → Prop
  | .storeFile slot _ => slot ≠ d.slot
  | .writeImage offset bytes => Bytes.Apart d.siteOffset 16 offset bytes.length
  | _ => True

namespace Cartridge

def afterHook (c : Cartridge) :
    Except HookError (Patch × Bytes) × MemoryStore → Option Patch × Cartridge
  | (.ok (patch, image), store) => (some patch, ⟨image, store⟩)
  | (.error _, store) => (none, ⟨c.image, store⟩)

def afterWrite (c : Cartridge) : Except HookError (ℕ × Bytes) → Cartridge
  | .ok (_, image) => ⟨image, c.store⟩
  | .error _ => c

/-- Performs an operation, which gives a patch if it hooks the image. What fails changes nothing. -/
def perform (d : Descriptor) (c : Cartridge) : Operation → Option Patch × Cartridge
  | .apply routine => c.afterHook (apply c.image d routine c.store)
  | .embed build symbols session => c.afterHook (embed c.image d build symbols session c.store)
  | .writeCode readPrimitive => (none, c.afterWrite (writeCode c.image d readPrimitive))
  | .storeFile slot data => (none, ⟨c.image, c.store.write slot data⟩)
  | .writeImage offset bytes =>
    (none, if offset + bytes.length ≤ c.image.length then ⟨c.image.overwrite offset bytes, c.store⟩
      else c)

/-- Performs operations one after the other. Gives those that hooked the image, with the patches. -/
def run (d : Descriptor) (c : Cartridge) : List Operation → List (Operation × Patch) × Cartridge
  | [] => ([], c)
  | op :: ops =>
    let (patch, next) := c.perform d op
    let (hooks, last) := run d next ops
    ((patch.map (op, ·)).toList ++ hooks, last)

end Cartridge

def Descriptor.IsApart (d : Descriptor) : Prop :=
  Bytes.Apart d.siteOffset 16 d.codeOffset 136

theorem siteOf_overwrite_code {d : Descriptor} {image : Bytes} {primitive : UInt32}
    {code : List UInt32} (hapart : d.IsApart) (hcode : codeWords d primitive = .ok code)
    (hroom : d.codeOffset + 136 ≤ image.length) :
    (image.overwrite d.codeOffset (Bytes.ofWords code)).length = image.length ∧
      d.siteOf (image.overwrite d.codeOffset (Bytes.ofWords code)) = d.siteOf image := by
  have hlength : (Bytes.ofWords code).length = 136 := by
    rw [Bytes.length_ofWords, length_of_codeWords hcode]
  rw [← hlength] at hroom
  refine ⟨Bytes.length_overwrite hroom, siteOf_overwrite_of_apart hroom ?_⟩
  rw [hlength]
  exact hapart

theorem siteOf_overwrite_site {d : Descriptor} {image routine : Bytes} {patch : Patch}
    {stored : Except StoreError Bytes} (hplan : plan image d routine stored = .ok patch) :
    (image.overwrite d.siteOffset (Bytes.ofWords patch.site)).length = image.length ∧
      d.siteOf (image.overwrite d.siteOffset (Bytes.ofWords patch.site)) = patch.site := by
  obtain ⟨hcount, hroom⟩ := site_of_plan hplan
  refine ⟨Bytes.length_overwrite ?_, siteOf_overwrite hcount hroom⟩
  rw [Bytes.length_ofWords]
  exact hroom

namespace Cartridge

variable {d : Descriptor} {c next : Cartridge} {op : Operation}

theorem perform_apply (routine : Bytes) : c.perform d (.apply routine) =
    match plan c.image d routine (c.store.read d.slot) with
    | .ok patch => (some patch, ⟨c.image.overwrite d.siteOffset (Bytes.ofWords patch.site),
        c.store.write d.slot patch.stored⟩)
    | .error _ => (none, c) := by
  cases hplan : plan c.image d routine (c.store.read d.slot) with
  | error e =>
    rw [perform, apply_of_error hplan]
    rfl
  | ok patch =>
    rw [perform, apply_of_plan hplan]
    rfl

theorem perform_embed (build : Build) (symbols : SymbolTable) (session : Cheat.Session) :
    c.perform d (.embed build symbols session) =
      match planCheats c.image d build symbols session (c.store.read d.slot) with
      | .ok (patch, image) => (some patch, ⟨image, c.store.write d.slot patch.stored⟩)
      | .error _ => (none, c) := by
  cases hplan : planCheats c.image d build symbols session (c.store.read d.slot) with
  | error e =>
    rw [perform, embed_of_error hplan]
    rfl
  | ok planned =>
    rw [perform, embed_of_planCheats hplan]
    rfl

/-- An operation that hooks the image follows a plan. It would follow any plan that another image of
the same size gives for its routine. -/
theorem perform_eq_some {patch : Patch} (hapart : d.IsApart)
    (h : c.perform d op = (some patch, next)) :
    next.image.length = c.image.length ∧ d.siteOf next.image = patch.site ∧
      next.store.read d.slot = .ok patch.stored ∧
      ∃ routine, plan c.image d routine (c.store.read d.slot) = .ok patch ∧
        ∀ (other : Cartridge) patch', other.image.length = c.image.length →
          plan other.image d routine (other.store.read d.slot) = .ok patch' →
            (other.perform d op).1 = some patch' := by
  cases op with
  | apply routine =>
    rw [perform_apply] at h
    split at h
    · rename_i hplan
      cases h
      obtain ⟨hlength, hsite⟩ := siteOf_overwrite_site hplan
      refine ⟨hlength, hsite, ?_, routine, hplan, ?_⟩
      · rw [MemoryStore.read_write, if_pos rfl]
      · intro other patch' _ hother
        rw [perform_apply, hother]
    · cases h
  | embed build symbols session =>
    rw [perform_embed] at h
    split at h
    · rename_i hplanned
      cases h
      obtain ⟨primitive, code, hprimitive, hcode, hroom, hplan, rfl⟩ :=
        planCheats_eq_ok.1 hplanned
      obtain ⟨hlength, hsite⟩ := siteOf_overwrite_site hplan
      rw [← hlength] at hroom
      obtain ⟨hlength', hsite'⟩ := siteOf_overwrite_code hapart hcode hroom
      refine ⟨hlength'.trans hlength, hsite'.trans hsite, ?_, session.joined, hplan, ?_⟩
      · rw [MemoryStore.read_write, if_pos rfl]
      · intro other patch' hsize hother
        rw [hlength, ← hsize] at hroom
        rw [perform_embed,
          planCheats_eq_ok.2 ⟨primitive, code, hprimitive, hcode, hroom, hother, rfl⟩]
    · cases h
  | writeCode primitive => cases h
  | storeFile slot data => cases h
  | writeImage offset bytes => cases h

theorem afterWrite_writeCode (hapart : d.IsApart) (primitive : UInt32) :
    (c.afterWrite (writeCode c.image d primitive)).image.length = c.image.length ∧
      d.siteOf (c.afterWrite (writeCode c.image d primitive)).image = d.siteOf c.image ∧
      (c.afterWrite (writeCode c.image d primitive)).store.read d.slot = c.store.read d.slot := by
  cases hwritten : writeCode c.image d primitive with
  | error e => exact ⟨rfl, rfl, rfl⟩
  | ok written =>
    obtain ⟨code, hcode, hroom, -, himage⟩ := writeCode_eq_ok.1 hwritten
    obtain ⟨hlength, hsite⟩ := siteOf_overwrite_code hapart hcode hroom
    rw [← himage] at hlength hsite
    exact ⟨hlength, hsite, rfl⟩

theorem perform_eq_none (hapart : d.IsApart) (hspares : op.Spares d)
    (h : c.perform d op = (none, next)) :
    next.image.length = c.image.length ∧ d.siteOf next.image = d.siteOf c.image ∧
      next.store.read d.slot = c.store.read d.slot := by
  cases op with
  | apply routine =>
    rw [perform_apply] at h
    split at h
    · cases h
    · cases h
      exact ⟨rfl, rfl, rfl⟩
  | embed build symbols session =>
    rw [perform_embed] at h
    split at h
    · cases h
    · cases h
      exact ⟨rfl, rfl, rfl⟩
  | writeCode primitive =>
    simp only [perform, Prod.mk.injEq, true_and] at h
    rw [← h]
    exact afterWrite_writeCode hapart primitive
  | storeFile slot data =>
    cases h
    refine ⟨rfl, rfl, ?_⟩
    rw [MemoryStore.read_write, if_neg (Ne.symm hspares)]
  | writeImage offset bytes =>
    simp only [perform] at h
    split at h
    · rename_i hroom
      cases h
      exact ⟨Bytes.length_overwrite hroom, siteOf_overwrite_of_apart hroom hspares, rfl⟩
    · cases h
      exact ⟨rfl, rfl, rfl⟩

/-- The original instructions of an image, after operations of which `last` was the last to hook it:
they are at the site as long as nothing did, and in the stored routine afterwards. -/
structure Original (d : Descriptor) (image : Bytes) (c : Cartridge)
    (last : Option (Operation × Patch)) : Prop where
  size : c.image.length = image.length
  unhooked : last = none → d.siteOf c.image = d.siteOf image
  hooked : ∀ op patch, last = some (op, patch) → ∃ jump, assemble d.siteJump = .ok jump ∧
    d.siteOf c.image = Descriptor.siteWords jump ∧ c.store.read d.slot = .ok patch.stored ∧
    displacedWords patch.stored = .ok (d.siteOf image) ∧
    ∀ store, (perform d ⟨image, store⟩ op).1 = some patch

/-- While the original instructions are kept, a patch is the one that the first image would get. -/
theorem Original.plan_eq {image routine : Bytes} {last : Option (Operation × Patch)} {patch : Patch}
    (h : Original d image c last) (hfree : ¬d.IsHooked image)
    (hplan : plan c.image d routine (c.store.read d.slot) = .ok patch) :
    ∃ jump, assemble d.siteJump = .ok jump ∧ patch.site = Descriptor.siteWords jump ∧
      patch.displaced = d.siteOf image ∧ displacedWords patch.stored = .ok (d.siteOf image) ∧
      ∀ stored, plan image d routine stored = .ok patch := by
  obtain ⟨current, jump, displaced, hcurrent, hjump, hdisplaced, haligned, rfl⟩ := plan_eq_ok.1 hplan
  obtain ⟨hroom, rfl⟩ := part_eq_ok.1 hcurrent
  rw [h.size] at hroom
  change originalWords (d.siteOf c.image) jump (c.store.read d.slot) = _ at hdisplaced
  have horiginal : displaced = d.siteOf image := by
    cases last with
    | none =>
      have hsite := h.unhooked rfl
      have hhead : (d.siteOf c.image).head? ≠ some jump := by
        rw [hsite]
        exact fun hhead => hfree ⟨jump, hjump, hhead⟩
      have hcurrent : originalWords (d.siteOf c.image) jump (c.store.read d.slot) =
          .ok (d.siteOf c.image) := if_neg hhead
      rw [hcurrent] at hdisplaced
      cases hdisplaced
      exact hsite
    | some hook =>
      obtain ⟨jump', hjump', hsite, hread, hwords, -⟩ := h.hooked hook.1 hook.2 rfl
      rw [hjump] at hjump'
      cases hjump'
      have hstored : originalWords (d.siteOf c.image) jump (c.store.read d.slot) =
          .ok (d.siteOf image) := by
        rw [hsite, hread, ← hwords]
        exact if_pos rfl
      rw [hstored] at hdisplaced
      cases hdisplaced
      rfl
  subst horiginal
  refine ⟨jump, hjump, rfl, rfl, displacedWords_storedBytes d routine (length_siteOf hroom), ?_⟩
  exact plan_of_not_hooked hfree hroom hjump haligned routine

theorem Original.perform {image : Bytes} {last : Option (Operation × Patch)} {patch : Option Patch}
    (h : Original d image c last) (hapart : d.IsApart) (hfree : ¬d.IsHooked image)
    (hspares : op.Spares d) (hop : c.perform d op = (patch, next)) :
    Original d image next ((patch.map (op, ·)).or last) ∧
      ∀ hooked ∈ patch, hooked.displaced = d.siteOf image := by
  cases patch with
  | none =>
    obtain ⟨hlength, hsite, hread⟩ := perform_eq_none hapart hspares hop
    refine ⟨⟨hlength.trans h.size, fun hlast => hsite.trans (h.unhooked hlast), ?_⟩, by simp⟩
    rw [hsite, hread]
    exact h.hooked
  | some patch =>
    obtain ⟨hlength, hsite, hread, routine, hplan, hagain⟩ := perform_eq_some hapart hop
    obtain ⟨jump, hjump, hwords, hdisplaced, hstored, halone⟩ := h.plan_eq hfree hplan
    refine ⟨⟨hlength.trans h.size, by simp, ?_⟩, by simpa using hdisplaced⟩
    rintro _ _ ⟨⟩
    refine ⟨jump, hjump, hsite.trans hwords, hread, hstored, fun store => ?_⟩
    exact hagain ⟨image, store⟩ patch h.size.symm (halone _)

theorem Original.run {image : Bytes} {last : Option (Operation × Patch)} {ops : List Operation}
    {hooks : List (Operation × Patch)} (h : Original d image c last) (hapart : d.IsApart)
    (hfree : ¬d.IsHooked image) (hspares : ∀ op ∈ ops, op.Spares d)
    (hrun : c.run d ops = (hooks, next)) :
    Original d image next (hooks.getLast?.or last) ∧
      ∀ hook ∈ hooks, hook.2.displaced = d.siteOf image := by
  induction ops generalizing c last hooks with
  | nil =>
    cases hrun
    exact ⟨h, by simp⟩
  | cons op ops ih =>
    obtain ⟨hop, hspares⟩ := List.forall_mem_cons.1 hspares
    cases hperform : c.perform d op with
    | mk patch middle =>
      cases hrest : middle.run d ops with
      | mk later last' =>
        simp only [run, hperform, hrest] at hrun
        cases hrun
        obtain ⟨hmiddle, hpatch⟩ := h.perform hapart hfree hop hperform
        obtain ⟨hlast, hlater⟩ := ih hmiddle hspares hrest
        cases patch with
        | none => exact ⟨hlast, hlater⟩
        | some patch =>
          refine ⟨?_, List.forall_mem_cons.2 ⟨hpatch patch rfl, hlater⟩⟩
          have hor : ((op, patch) :: later).getLast?.or last =
              later.getLast?.or (some (op, patch)) := by
            rw [← List.singleton_append, List.getLast?_append, Option.or_assoc]
            rfl
          exact hor ▸ hlast

end Cartridge

/-- However often and with whatever an image is hooked, and whatever else is written outside the
site and to other slots: once a hook succeeded, the site jumps to the trampoline, every patch
displaces the instructions that were at the site before the first operation, and they are found in
the stored routine, which is the one that the last hook alone would have stored. -/
theorem original_kept {d : Descriptor} {start final : Cartridge} {ops : List Operation}
    {hooks : List (Operation × Patch)} (hapart : d.IsApart) (hfree : ¬d.IsHooked start.image)
    (hspares : ∀ op ∈ ops, op.Spares d) (hrun : start.run d ops = (hooks, final)) :
    (∀ hook ∈ hooks, hook.2.displaced = d.siteOf start.image) ∧
      ∀ op patch, hooks.getLast? = some (op, patch) →
        ∃ jump stored, assemble d.siteJump = .ok jump ∧
          d.siteOf final.image = jump :: List.replicate 3 Instruction.nop.word ∧
          final.store.read d.slot = .ok stored ∧
          displacedWords stored = .ok (d.siteOf start.image) ∧
          ∀ store, ∃ alone, Cartridge.perform d ⟨start.image, store⟩ op = (some patch, alone) ∧
            alone.store.read d.slot = .ok stored := by
  have hstart : Cartridge.Original d start.image start none := ⟨rfl, fun _ => rfl, by simp⟩
  obtain ⟨horiginal, hdisplaced⟩ := hstart.run hapart hfree hspares hrun
  refine ⟨hdisplaced, fun op patch hlast => ?_⟩
  rw [Option.or_none] at horiginal
  obtain ⟨jump, hjump, hsite, hread, hwords, halone⟩ := horiginal.hooked op patch hlast
  refine ⟨jump, patch.stored, hjump, hsite, hread, hwords, fun store => ?_⟩
  have hperform : Cartridge.perform d ⟨start.image, store⟩ op =
      (some patch, (Cartridge.perform d ⟨start.image, store⟩ op).2) := Prod.ext (halone store) rfl
  exact ⟨_, hperform, (Cartridge.perform_eq_some hapart hperform).2.2.1⟩

def Cartridge.small : Cartridge :=
  ⟨Bytes.ofWords [0x27BDFFE8, 0xAFBF0014, 0xAFB00010, 0x8FB10018] ++ List.replicate 240 0, .empty⟩

/-- Two routines are hooked, the first of which does not end at a word. -/
def Operation.hookTwice : List Operation :=
  [.apply [1, 2, 3], .storeFile ⟨10, 241⟩ [7], .writeImage 0x20 [0xFF], .apply []]

theorem original_kept_hookTwice :
    ∃ hooks final stored, Cartridge.small.run .small Operation.hookTwice = (hooks, final) ∧
      final.store.read ⟨10, 240⟩ = .ok stored ∧
      displacedWords stored = .ok [0x27BDFFE8, 0xAFBF0014, 0xAFB00010, 0x8FB10018] := by
  have hapart : Descriptor.small.IsApart := Bytes.apart_of_le (.inl (by decide))
  have hfree : ¬Descriptor.small.IsHooked Cartridge.small.image :=
    (Descriptor.isHooked_iff (by decide)).not.2 (by decide)
  have hspares : ∀ op ∈ Operation.hookTwice, op.Spares .small := by
    have hslot : (⟨10, 241⟩ : Slot) ≠ Descriptor.small.slot := by decide
    have hbytes : Bytes.Apart 0 16 0x20 1 := Bytes.apart_of_le (.inl (by decide))
    intro op hop
    rcases hop with _ | ⟨_, _ | ⟨_, _ | ⟨_, _ | ⟨_, ⟨⟩⟩⟩⟩⟩
    exacts [trivial, hslot, hbytes, trivial]
  have hsome : (Cartridge.small.run .small Operation.hookTwice).1.getLast?.isSome := by decide +kernel
  cases hrun : Cartridge.small.run .small Operation.hookTwice with
  | mk hooks final =>
    rw [hrun] at hsome
    obtain ⟨⟨op, patch⟩, hlast⟩ := Option.isSome_iff_exists.1 hsome
    obtain ⟨-, hkept⟩ := original_kept hapart hfree hspares hrun
    obtain ⟨jump, stored, -, -, hread, hwords, -⟩ := hkept op patch hlast
    exact ⟨hooks, final, stored, rfl, hread, hwords⟩

end CartPatch.Hook
