import CartPatch.Proofs.Hook.Patch
import Mathlib.Order.Interval.Set.Defs

/-!
Hooking in place. The image is one byte string, which every write changes, and the store takes its
file before the image is written; what was written before an error stays written. All checks are
made before the first write, with the offsets and sizes of the writes, so that only storing the
routine can fail after them. Hooking in place therefore has the outcome that was worked out without
writing (`run_perform`): all of its effect or none (`perform_all_or_nothing`).
-/

namespace CartPatch.Storage.SlotStore

variable {σ : Type} [SlotStore σ]

/-- A write that fails leaves the store as it was. -/
def FailsCleanly (s : σ) : Prop :=
  ∀ slot data e s', write s slot data = (.error e, s') → s' = s

/-- A write that succeeds is read back, and the other slots read as before. -/
def Retains (s : σ) : Prop :=
  ∀ slot data s', write s slot data = (.ok (), s') →
    ∀ k, read s' k = if k = slot then .ok data else read s k

end CartPatch.Storage.SlotStore

namespace CartPatch.Hook

open Mips Assembler Storage Outcome MonadExcept

structure ImageWrite where
  offset : ℕ
  words : List UInt32

namespace ImageWrite

def Fits (image : Bytes) (w : ImageWrite) : Prop := w.offset + 4 * w.words.length ≤ image.length

def overwriteAll (image : Bytes) (writes : List ImageWrite) : Bytes :=
  writes.foldl (fun image w => image.overwrite w.offset (Bytes.ofWords w.words)) image

def writeEach (image : Bytes) (writes : List ImageWrite) : Except HookError Bytes :=
  writes.foldlM (fun image w => writeWords image w.offset w.words) image

variable {image : Bytes} {w : ImageWrite} {writes : List ImageWrite}

theorem Fits.length_overwrite (h : w.Fits image) :
    (image.overwrite w.offset (Bytes.ofWords w.words)).length = image.length := by
  refine Bytes.length_overwrite ?_
  rw [Bytes.length_ofWords]
  exact h

theorem writeEach_eq_ok (h : ∀ w ∈ writes, w.Fits image) :
    writeEach image writes = .ok (overwriteAll image writes) := by
  induction writes generalizing image with
  | nil => rfl
  | cons w writes ih =>
    obtain ⟨hw, hwrites⟩ := List.forall_mem_cons.1 h
    have hwritten := writeWords_eq_ok.2 ⟨hw, rfl⟩
    rw [writeEach, List.foldlM_cons, hwritten]
    refine ih fun w' hw' => ?_
    rw [Fits, hw.length_overwrite]
    exact hwrites w' hw'

end ImageWrite

/-- A computation that changes an image and a store. An error leaves both as the steps before it
made them. -/
abbrev InPlace (σ : Type) : Type → Type := EStateM HookError (Bytes × σ)

namespace InPlace

variable {σ : Type}

def writeImage (w : ImageWrite) : InPlace σ Unit := do
  let (image, store) ← get
  let written ← ofExcept (writeWords image w.offset w.words)
  set (written, store)

def writeAll : List ImageWrite → InPlace σ Unit
  | [] => pure ()
  | w :: writes => do
    writeImage w
    writeAll writes

def storePatch [SlotStore σ] (d : Descriptor) (patch : Patch) : InPlace σ Unit := do
  let (image, store) ← get
  let (result, after) := storeRoutine store d patch
  set (image, after)
  ofExcept result

theorem run_writeImage {image : Bytes} (store : σ) {w : ImageWrite} (h : w.Fits image) :
    (writeImage w).run (image, store) =
      .ok () (image.overwrite w.offset (Bytes.ofWords w.words), store) := by
  have hwritten := writeWords_eq_ok.2 ⟨h, rfl⟩
  simp [writeImage, hwritten, run_ofExcept]

theorem run_storePatch [SlotStore σ] (image : Bytes) {store after : σ} {d : Descriptor}
    {patch : Patch} {result : Except HookError Unit}
    (h : storeRoutine store d patch = (result, after)) :
    (storePatch d patch).run (image, store) =
      match result with
      | .ok () => .ok () (image, after)
      | .error e => .error e (image, after) := by
  cases result <;> simp [storePatch, h, run_ofExcept]

/-- Words that fit are written, wherever they overlap. -/
theorem run_writeAll {image : Bytes} (store : σ) {writes : List ImageWrite}
    (h : ∀ w ∈ writes, w.Fits image) :
    (writeAll writes).run (image, store) =
      .ok () (ImageWrite.overwriteAll image writes, store) := by
  induction writes generalizing image with
  | nil => rfl
  | cons w writes ih =>
    obtain ⟨hw, hwrites⟩ := List.forall_mem_cons.1 h
    rw [writeAll, run_bind_ok (run_writeImage store hw)]
    refine ih fun w' hw' => ?_
    rw [ImageWrite.Fits, hw.length_overwrite]
    exact hwrites w' hw'

end InPlace

open InPlace

/-- What is hooked into an image: a routine as it is, or the cheats of a session together with the
code of the hook. -/
inductive Hooking where
  | routine (bytes : Bytes)
  | cheats (build : Build) (symbols : SymbolTable) (session : Cheat.Session)

namespace Hooking

/-- All that is checked and worked out before anything is written: the patch, and what will be
written into the image. -/
def check (image : Bytes) (d : Descriptor) (stored : Except StoreError Bytes) :
    Hooking → Except HookError (Patch × List ImageWrite)
  | routine bytes => do
    let patch ← plan image d bytes stored
    return (patch, [⟨d.siteOffset, patch.site⟩])
  | cheats build symbols session => do
    let readPrimitive ← (symbols.address build readPrimitiveName).mapError .missingPrimitive
    let code ← codeWords d readPrimitive
    let _ ← part image d.codeOffset (4 * code.length)
    let patch ← plan image d session.joined stored
    return (patch, [⟨d.siteOffset, patch.site⟩, ⟨d.codeOffset, code⟩])

variable {σ : Type} [SlotStore σ]

/-- Hooks in place: the routine is stored first, and then the image is written. -/
def perform (d : Descriptor) (h : Hooking) : InPlace σ Patch := do
  let (image, store) ← get
  let (patch, writes) ← ofExcept (h.check image d (SlotStore.read store d.slot))
  storePatch d patch
  writeAll writes
  return patch

/-- The outcome of hooking as it is worked out without writing into the image. -/
def outcome (image : Bytes) (d : Descriptor) (store : σ) :
    Hooking → Except HookError (Patch × Bytes) × σ
  | routine bytes => apply image d bytes store
  | cheats build symbols session => embed image d build symbols session store

def IsCode (d : Descriptor) : Hooking → List UInt32 → Prop
  | routine _, code => code = []
  | cheats build symbols _, code => ∃ readPrimitive trampoline,
    symbols.address build readPrimitiveName = .ok readPrimitive ∧
      assembleAll (d.trampolineLines readPrimitive) = .ok trampoline ∧ code = d.sentinel :: trampoline

variable {h : Hooking} {d : Descriptor} {image : Bytes} {stored : Except StoreError Bytes}
  {patch : Patch} {writes : List ImageWrite} {e : HookError} {store : σ}

theorem fits_of_check (hcheck : h.check image d stored = .ok (patch, writes)) :
    ∀ w ∈ writes, w.Fits image := by
  cases h with
  | routine bytes =>
    obtain ⟨_, hplan, hok⟩ := bind_eq_ok.1 hcheck
    cases hok
    exact List.forall_mem_singleton.2 (site_of_plan hplan).2
  | cheats build symbols session =>
    obtain ⟨_, _, hcheck⟩ := bind_eq_ok.1 hcheck
    obtain ⟨code, _, hcheck⟩ := bind_eq_ok.1 hcheck
    obtain ⟨_, hpart, hcheck⟩ := bind_eq_ok.1 hcheck
    obtain ⟨_, hplan, hok⟩ := bind_eq_ok.1 hcheck
    cases hok
    have hsite := (site_of_plan hplan).2
    have hcode := (part_eq_ok.1 hpart).1
    exact List.forall_mem_cons.2 ⟨hsite, List.forall_mem_singleton.2 hcode⟩

def conclude (d : Descriptor) (store : σ) :
    Except HookError (Patch × Bytes) → Except HookError (Patch × Bytes) × σ
  | .error e => (.error e, store)
  | .ok (patch, hooked) =>
    ((storeRoutine store d patch).1.map fun _ => (patch, hooked), (storeRoutine store d patch).2)

theorem outcome_eq (h : Hooking) (image : Bytes) (d : Descriptor) (store : σ) :
    h.outcome image d store =
      conclude d store (h.check image d (SlotStore.read store d.slot) >>= fun (patch, writes) =>
        (patch, ·) <$> ImageWrite.writeEach image writes) := by
  cases h with
  | routine bytes =>
    simp only [outcome, apply, bind_pure_comp, check, ImageWrite.writeEach, bind_map_left,
      List.foldlM_cons, List.foldlM_nil, bind_pure]
    rfl
  | cheats build symbols session =>
    simp only [outcome, embed, planCheats, bind_pure_comp, check, ImageWrite.writeEach, bind_assoc,
      bind_map_left, List.foldlM_cons, List.foldlM_nil, bind_pure, map_bind]
    rfl

theorem outcome_of_error (hcheck : h.check image d (SlotStore.read store d.slot) = .error e) :
    h.outcome image d store = (.error e, store) := by
  rw [outcome_eq, hcheck]
  rfl

theorem outcome_of_check
    (hcheck : h.check image d (SlotStore.read store d.slot) = .ok (patch, writes)) :
    h.outcome image d store =
      ((storeRoutine store d patch).1.map fun _ => (patch, ImageWrite.overwriteAll image writes),
        (storeRoutine store d patch).2) := by
  have hwritten := ImageWrite.writeEach_eq_ok (fits_of_check hcheck)
  rw [outcome_eq, hcheck]
  simp only [bind, Except.bind, hwritten]
  rfl

/-- An outcome as one of hooking in place: with an error, the image stays. -/
def settle (image : Bytes) :
    Except HookError (Patch × Bytes) × σ → EStateM.Result HookError (Bytes × σ) Patch
  | (.ok (patch, hooked), after) => .ok patch (hooked, after)
  | (.error e, after) => .error e (image, after)

/-- In place or not, hooking has the same outcome: when the checks pass, no write into the image
fails. -/
theorem run_perform (h : Hooking) (d : Descriptor) (image : Bytes) (store : σ) :
    (h.perform d).run (image, store) = settle image (h.outcome image d store) := by
  rw [perform, run_bind_ok (EStateM.run_get (image, store))]
  cases hcheck : h.check image d (SlotStore.read store d.slot) with
  | error e =>
    rw [outcome_of_error hcheck]
    simp only [hcheck]
    rfl
  | ok checked =>
    obtain ⟨patch, writes⟩ := checked
    rw [outcome_of_check hcheck]
    simp only [hcheck]
    rw [run_bind_ok (run_ofExcept _ _)]
    cases hstore : storeRoutine store d patch with
    | mk result after =>
      cases result with
      | error e =>
        have hrun := run_storePatch image hstore
        rw [run_bind_error hrun]
        rfl
      | ok _ =>
        have hrun := run_storePatch image hstore
        rw [run_bind_ok hrun, run_bind_ok (run_writeAll after (fits_of_check hcheck))]
        rfl

end Hooking

/-- What hooking may change in an image, where `code` is what it writes as the code of the hook. -/
structure Hooked (d : Descriptor) (patch : Patch) (code : List UInt32) (image hooked : Bytes) :
    Prop where
  size : hooked.length = image.length
  fits : d.siteOffset + 16 ≤ image.length ∧ patch.site.length = displacedCount
  code_written : (hooked.drop d.codeOffset).take (4 * code.length) = Bytes.ofWords code
  site_written : ∀ i < 16,
    d.siteOffset + i ∉ Set.Ico d.codeOffset (d.codeOffset + 4 * code.length) →
      hooked[d.siteOffset + i]? = (Bytes.ofWords patch.site)[i]?
  kept : ∀ i, i ∉ Set.Ico d.siteOffset (d.siteOffset + 16) →
    i ∉ Set.Ico d.codeOffset (d.codeOffset + 4 * code.length) → hooked[i]? = image[i]?

section Effect

variable {d : Descriptor} {image : Bytes} {patch : Patch} {code : List UInt32}

theorem hooked_overwrite (hroom : d.siteOffset + 4 * patch.site.length ≤ image.length)
    (hcount : patch.site.length = displacedCount) :
    Hooked d patch [] image (image.overwrite d.siteOffset (Bytes.ofWords patch.site)) := by
  have hlength : (Bytes.ofWords patch.site).length = 16 := by
    rw [Bytes.length_ofWords, hcount, displacedCount]
  rw [← Bytes.length_ofWords] at hroom
  have hget := Bytes.getElem?_overwrite hroom
  refine ⟨Bytes.length_overwrite hroom, ⟨hlength ▸ hroom, hcount⟩, rfl, fun i hi _ => ?_,
    fun i hsite _ => ?_⟩
  · rw [hget, if_pos ⟨by omega, by omega⟩, Nat.add_sub_cancel_left]
  · rw [hget, hlength, if_neg (Set.mem_Ico.not.1 hsite)]

theorem Hooked.overwrite {hooked : Bytes} (h : Hooked d patch [] image hooked)
    (hroom : d.codeOffset + 4 * code.length ≤ image.length) :
    Hooked d patch code image (hooked.overwrite d.codeOffset (Bytes.ofWords code)) := by
  rw [← h.size, ← Bytes.length_ofWords] at hroom
  have hget := Bytes.getElem?_overwrite hroom
  rw [Bytes.length_ofWords] at hget
  refine ⟨(Bytes.length_overwrite hroom).trans h.size, h.fits, ?_, fun i hi hcode => ?_,
    fun i hsite hcode => ?_⟩
  · rw [← Bytes.length_ofWords]
    exact Bytes.take_drop_overwrite hroom
  · rw [hget, if_neg (Set.mem_Ico.not.1 hcode)]
    exact h.site_written i hi (by simp)
  · rw [hget, if_neg (Set.mem_Ico.not.1 hcode)]
    exact h.kept i hsite (by simp)

theorem Hooking.hooked_of_check {h : Hooking} {stored : Except StoreError Bytes}
    {writes : List ImageWrite} (hcheck : h.check image d stored = .ok (patch, writes)) :
    ∃ code, h.IsCode d code ∧ Hooked d patch code image (ImageWrite.overwriteAll image writes) := by
  cases h with
  | routine bytes =>
    obtain ⟨_, hplan, hok⟩ := bind_eq_ok.1 hcheck
    cases hok
    obtain ⟨hcount, hroom⟩ := site_of_plan hplan
    exact ⟨[], rfl, hooked_overwrite hroom hcount⟩
  | cheats build symbols session =>
    obtain ⟨primitive, hprimitive, hcheck⟩ := bind_eq_ok.1 hcheck
    obtain ⟨code, hcode, hcheck⟩ := bind_eq_ok.1 hcheck
    obtain ⟨_, hpart, hcheck⟩ := bind_eq_ok.1 hcheck
    obtain ⟨_, hplan, hok⟩ := bind_eq_ok.1 hcheck
    cases hok
    obtain ⟨hcount, hroom⟩ := site_of_plan hplan
    obtain ⟨trampoline, htrampoline, hwords⟩ := map_eq_ok.1 hcode
    refine ⟨code, ⟨primitive, trampoline, mapError_eq_ok.1 hprimitive,
      mapError_eq_ok.1 htrampoline, hwords.symm⟩, ?_⟩
    exact (hooked_overwrite hroom hcount).overwrite (part_eq_ok.1 hpart).1

end Effect

variable {σ : Type} [SlotStore σ]

/-- Hooking does all or nothing. It has the outcome that is worked out without writing. With an
error the image and the store are as before. Otherwise the image differs at the site and in the
code of the hook only, which hold what they should, and the store has taken the routine of the
patch and nothing else. -/
theorem perform_all_or_nothing {store : σ} (hclean : SlotStore.FailsCleanly store) (h : Hooking)
    (d : Descriptor) (image : Bytes) :
    (h.perform d).run (image, store) = Hooking.settle image (h.outcome image d store) ∧
      (∀ e after, (h.perform d).run (image, store) = .error e after → after = (image, store)) ∧
      ∀ patch hooked after, (h.perform d).run (image, store) = .ok patch (hooked, after) →
        (∃ code, h.IsCode d code ∧ Hooked d patch code image hooked) ∧
          SlotStore.write store d.slot patch.stored = (.ok (), after) ∧
          (SlotStore.Retains store → ∀ slot, SlotStore.read after slot =
            if slot = d.slot then .ok patch.stored else SlotStore.read store slot) := by
  have hrun := h.run_perform d image store
  refine ⟨hrun, ?_⟩
  rw [hrun]
  cases hcheck : h.check image d (SlotStore.read store d.slot) with
  | error e =>
    rw [Hooking.outcome_of_error hcheck]
    refine ⟨fun _ _ heq => ?_, fun _ _ _ heq => ?_⟩ <;> cases heq
    rfl
  | ok checked =>
    obtain ⟨patch, writes⟩ := checked
    rw [Hooking.outcome_of_check hcheck]
    cases hwrite : SlotStore.write store d.slot patch.stored with
    | mk result after =>
      have hstore : storeRoutine store d patch = (result.mapError .store, after) := by
        rw [storeRoutine, hwrite]
      rw [hstore]
      cases result with
      | error e =>
        refine ⟨fun _ _ heq => ?_, fun _ _ _ heq => ?_⟩ <;> cases heq
        rw [hclean _ _ _ _ hwrite]
      | ok _ =>
        refine ⟨fun _ _ heq => ?_, fun _ _ _ heq => ?_⟩ <;> cases heq
        exact ⟨Hooking.hooked_of_check hcheck, hwrite, fun hretains => hretains _ _ _ hwrite⟩

/-- Packed files in memory, none of which has more than `room` bytes. -/
structure BoundedStore where
  files : MemoryStore
  room : ℕ

namespace BoundedStore

instance : SlotStore BoundedStore where
  read s slot := s.files.read slot
  write s slot data :=
    if data.length ≤ s.room then (.ok (), { s with files := s.files.write slot data })
    else (.error (.io [] (.other "No space left on device (os error 28)")), s)

theorem failsCleanly (s : BoundedStore) : SlotStore.FailsCleanly s := by
  intro slot data e s' hwrite
  simp only [SlotStore.write] at hwrite
  split at hwrite <;> cases hwrite
  rfl

theorem retains (s : BoundedStore) : SlotStore.Retains s := by
  intro slot data s' hwrite k
  simp only [SlotStore.write] at hwrite
  split at hwrite <;> cases hwrite
  exact s.files.read_write slot k data

/-- A store for the small descriptor, which takes a routine of three bytes when it has room for 71
bytes. -/
def small (room : ℕ) : BoundedStore := ⟨.empty, room⟩

end BoundedStore

def smallSymbols : SymbolTable :=
  ⟨fun build => some [⟨readPrimitiveName, build, 0x80012340, .function⟩]⟩

theorem perform_all_or_nothing_bounded :
    (∃ e, ((Hooking.routine [1, 2, 3]).perform .small).run (List.replicate 256 0, .small 70) =
      .error e (List.replicate 256 0, BoundedStore.small 70)) ∧
    ∃ patch hooked after, ((Hooking.cheats .mp1Usa smallSymbols ⟨[[1, 2, 3]]⟩).perform .small).run
        (List.replicate 256 0, BoundedStore.small 71) = .ok patch (hooked, after) ∧
      hooked.length = 256 ∧ SlotStore.read after ⟨10, 240⟩ = .ok patch.stored := by
  constructor
  · obtain ⟨houtcome, hfails, -⟩ := perform_all_or_nothing (BoundedStore.small 70).failsCleanly
      (.routine [1, 2, 3]) .small (List.replicate 256 0)
    have herror : ((Hooking.routine [1, 2, 3]).outcome (List.replicate 256 0) .small
        (BoundedStore.small 70)).1.isOk = false := by decide +kernel
    cases hrun : (Hooking.routine [1, 2, 3]).outcome (List.replicate 256 0) .small
        (BoundedStore.small 70) with
    | mk result after =>
      rw [hrun] at houtcome herror
      cases result with
      | ok hooked => cases herror
      | error e =>
        refine ⟨e, houtcome.trans ?_⟩
        rw [Hooking.settle, ← hfails e _ houtcome]
  · obtain ⟨houtcome, -, hsucceeds⟩ := perform_all_or_nothing (BoundedStore.small 71).failsCleanly
      (.cheats .mp1Usa smallSymbols ⟨[[1, 2, 3]]⟩) .small (List.replicate 256 0)
    have hok : ((Hooking.cheats .mp1Usa smallSymbols ⟨[[1, 2, 3]]⟩).outcome (List.replicate 256 0)
        .small (BoundedStore.small 71)).1.isOk = true := by decide +kernel
    cases hrun : (Hooking.cheats .mp1Usa smallSymbols ⟨[[1, 2, 3]]⟩).outcome (List.replicate 256 0)
        .small (BoundedStore.small 71) with
    | mk result after =>
      rw [hrun] at houtcome hok
      cases result with
      | error e => cases hok
      | ok hooking =>
        obtain ⟨patch, hooked⟩ := hooking
        obtain ⟨⟨_, -, hhooked⟩, -, hreads⟩ := hsucceeds patch hooked after houtcome
        refine ⟨patch, hooked, after, houtcome, ?_, ?_⟩
        · rw [hhooked.size, List.length_replicate]
        · rw [hreads (BoundedStore.small 71).retains]
          rfl

end CartPatch.Hook
