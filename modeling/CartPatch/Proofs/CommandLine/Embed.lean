import Mathlib.Control.Monad.Basic
import CartPatch.Proofs.CommandLine.Job

/-!
What embedding leaves behind when it fails. Everything is read and worked out before anything is
written, so that most failures leave all files as they were. Two files are written then, one after the
other: the packed file of the routine, and the image. A failure to write the image comes too late, and
the routine stays (`embed_failure`).
-/

namespace CartPatch.CommandLine

open Storage Outcome Job

theorem readOnly_loadSymbols (input : Text) (build : Build) : (loadSymbols input build).ReadOnly := by
  rw [loadSymbols]
  refine (readOnly_readText input).bind fun text => (readOnly_attempt _ _ _).bind fun loaded => ?_
  exact fun _ _ => rfl

theorem readOnly_addCheats (session : Cheat.Session) (paths : List Text) :
    (addCheats session paths).ReadOnly := by
  induction paths generalizing session with
  | nil => exact fun _ _ => rfl
  | cons path paths ih =>
    rw [addCheats]
    refine (readOnly_readText path).bind fun text => (readOnly_attempt _ _ _).bind fun added => ?_
    exact ReadOnly.bind (fun _ _ => rfl) fun _ => ih _

/-- The patch and the patched image that embedding works out from the files of a tree. -/
structure Planned (tree : Tree) (image folder descriptor : Text) (build : Build)
    (d : Hook.Descriptor) (patch : Hook.Patch) (patched : Bytes) : Prop where
  descriptor : ∃ data text, tree.read descriptor = .ok data ∧ decode? data = some text ∧
    Hook.Descriptor.parse text = .ok d
  image : ∃ bytes symbols session, tree.read image = .ok bytes ∧
    Hook.planCheats bytes d build symbols session ((FolderStore.readSlot folder d.slot).run tree).1 =
      .ok (patch, patched)

structure StoredOnly (tree after : Tree) (folder target : Text) (slot : Slot) (routine patched : Bytes)
    (message : String) : Prop where
  stored : after.read (FolderStore.slotPath folder slot) = .ok routine
  elsewhere : ∃ place, ∀ p, after.file? p = if p = place then some routine else tree.file? p
  unwritten : ∃ cause, after.write target patched = .error cause ∧
    message = "Unable to write file: " ++ cause.message

/-- All files are as they were, or the patch was worked out and its routine stored, but no image was
written. -/
def UnchangedOrStoredOnly (tree : Tree) (image folder descriptor target : Text) (build : Build)
    (message : String) (after : Tree) : Prop :=
  (∀ p, after.file? p = tree.file? p) ∨
    ∃ d patch patched, Planned tree image folder descriptor build d patch patched ∧
      StoredOnly tree after folder target d.slot patch.stored patched message

/-- When embedding fails, all files are as they were, unless it was the image that could not be written,
which comes too late for the packed file of the routine, but changes no other file. -/
theorem embed_failure {image symbols folder descriptor : Text} {build : Build} {cheats : List Text}
    {output : Option Text} {tree after : Tree} {message : String} {printed : Printed}
    (h : (Command.embed image build symbols folder descriptor cheats output).run tree =
      ((.error message, printed), after)) :
    UnchangedOrStoredOnly tree image folder descriptor (output.getD image) build message after := by
  suffices hfails : (runEmbed image build symbols folder descriptor cheats output).Fails tree
      (UnchangedOrStoredOnly tree image folder descriptor (output.getD image) build) from
    hfails _ _ _ _ h
  have hsame (e : String) :
      UnchangedOrStoredOnly tree image folder descriptor (output.getD image) build e tree :=
    .inl fun _ => rfl
  dsimp only [runEmbed]
  refine (readOnly_loadSymbols symbols build).fails_bind hsame fun _ table _ _ => ?_
  refine (readOnly_readText descriptor).fails_bind hsame fun _ text _ htext => ?_
  refine Fails.attempt_bind (fun _ _ => hsame _) fun d hd => ?_
  refine (readOnly_addCheats _ cheats).fails_bind hsame fun _ session _ _ => ?_
  refine (readOnly_readBytes image).fails_bind hsame fun _ bytes _ hbytes => ?_
  refine (readOnly_readSlot folder d.slot).fails_bind hsame fun _ held _ hheld => ?_
  refine Fails.attempt_bind (fun _ _ => hsame _) fun (patch, patched) hworked => ?_
  have hplanned : Planned tree image folder descriptor build d patch patched := by
    obtain ⟨data, hdata, hdecode⟩ := on_readText_ok htext
    rw [← on_request_ok hheld] at hworked
    exact ⟨⟨data, text, hdata, hdecode, hd⟩, bytes, table, session, on_readBytes_ok hbytes, hworked⟩
  -- From here on files are written: first the routine.
  refine Fails.request_bind ?_
  obtain ⟨⟨result, stored⟩, hstored⟩ :
      ∃ r, (FolderStore.writeSlot folder d.slot patch.stored).run tree = r := ⟨_, rfl⟩
  rw [hstored]
  refine Fails.attempt_bind (fun e he => ?_) fun _ hok => ?_
  · cases result with
    | ok _ => cases he
    | error e =>
      refine .inl fun p => ?_
      rw [Tree.file?, FolderStore.run_writeSlot_error hstored, ← Tree.file?]
  rw [mapError_eq_ok] at hok
  subst hok
  -- Then the image, and if that fails, nothing takes the routine back.
  refine Fails.request_bind ?_
  rw [Access.run_writeFile]
  cases hwritten : stored.write (output.getD image) patched with
  | ok written =>
    refine Fails.attempt_bind (fun e he => by cases he) fun _ _ _ _ _ _ hnote => ?_
    rw [on_note] at hnote
    cases hnote
  | error cause =>
    refine Fails.attempt_bind (fun e he => ?_) fun _ hok => by cases hok
    cases he
    obtain ⟨hread, helsewhere⟩ := FolderStore.run_writeSlot_ok hstored
    exact .inr ⟨d, patch, patched, hplanned, hread, helsewhere, cause, hwritten, rfl⟩

def asciiBytes (t : Text) : Bytes := t.map fun c => UInt8.ofNat c.toNat

/-- The files that one cheat is embedded from. There are no folders. -/
def smallGame : Tree where
  files := [
    (["game"], List.replicate 192 0),
    (["symbols"], asciiBytes "0 F ReadMainFS"),
    (["hook"], asciiBytes ("fs_dir 9\nfs_file 7\nhook_rom_offset 16\nhook_ram_offset 0\n" ++
      "controller_jump_rom_offset 0\ncontroller_jump_ram_offset 0\ncache_sentinel 1")),
    (["codes"], asciiBytes "8025AA00 0001")]
  folders := []

/-- Embeds the cheat into an image that is to lie in a folder which is missing. -/
def embedAstray : Command :=
  .embed "game" .mp1Usa "symbols" "fs" "hook" ["codes"] (some "out/game")

theorem run_embedAstray :
    (embedAstray.run smallGame).1 =
        (.error "Unable to write file: No such file or directory (os error 2)",
          ⟨[], "codes: 12 bytes\n"⟩) ∧
      ((embedAstray.run smallGame).2.file? ["fs", "9", "7.bin"]).isSome = true := by
  simp only [embedAstray, smallGame, asciiBytes, String.reduceToList]
  decide +kernel

theorem file?_smallGame : smallGame.file? ["fs", "9", "7.bin"] = none := by decide +kernel

theorem embed_failure_astray : ∃ d patch patched,
    Planned smallGame "game" "fs" "hook" .mp1Usa d patch patched ∧
      StoredOnly smallGame (embedAstray.run smallGame).2 "fs" "out/game" d.slot patch.stored patched
        "Unable to write file: No such file or directory (os error 2)" := by
  obtain ⟨hfailed, hstored⟩ := run_embedAstray
  obtain ⟨after, hafter⟩ : ∃ after, (embedAstray.run smallGame).2 = after := ⟨_, rfl⟩
  rw [hafter] at hstored ⊢
  rcases embed_failure (Prod.ext hfailed hafter) with hsame | htorn
  · rw [hsame, file?_smallGame] at hstored
    cases hstored
  · exact htorn

/-- A run can fail and leave a new file. -/
theorem embed_failure_leaves_file : ∃ (c : Command) (tree : Tree) (message : String) (p : Place),
    (c.run tree).1.1 = .error message ∧ tree.file? p = none ∧ (c.run tree).2.file? p ≠ none := by
  obtain ⟨hfailed, hstored⟩ := run_embedAstray
  refine ⟨embedAstray, smallGame, _, _, congrArg Prod.fst hfailed, file?_smallGame, fun hnone => ?_⟩
  rw [hnone] at hstored
  cases hstored

end CartPatch.CommandLine
