import CartPatch.Proofs.Storage.Paths

/-!
Packed files in a folder answer like packed files in memory. The folder mirrors what the memory holds
(`Mirrors`): the file of a slot is there just when the memory has one, its folder is there too, and no
number is a file where a folder belongs or a folder where a file does. Every request keeps it so, unless
the path of the slot is refused by the operating system, which says so (`Mirrors.answer_eq`,
`Mirrors.systemError`).
-/

namespace CartPatch.Storage

open Outcome CartPatch.Storage.Tree

inductive Request where
  | read (slot : Slot)
  | write (slot : Slot) (data : Bytes)
  deriving DecidableEq, Repr

def Request.slot : Request → Slot
  | read slot => slot
  | write slot _ => slot

inductive Answer where
  | read (result : Except StoreError Bytes)
  | write (result : Except StoreError Unit)

inductive SystemError : Answer → Cause → Prop where
  | read {path : Text} {cause : Cause} : SystemError (.read (.error (.io path cause))) cause
  | write {path : Text} {cause : Cause} : SystemError (.write (.error (.io path cause))) cause

section Requests

variable {σ : Type} [SlotStore σ]

def answer (s : σ) : Request → Answer
  | .read slot => .read (SlotStore.read s slot)
  | .write slot data => .write (SlotStore.write s slot data).1

def after (s : σ) : Request → σ
  | .read _ => s
  | .write slot data => (SlotStore.write s slot data).2

/-- The answers to requests from first to last. -/
def answers (s : σ) : List Request → List Answer
  | [] => []
  | request :: requests => answer s request :: answers (after s request) requests

end Requests

/-- A path to a folder with nothing in it. -/
def Tree.IsEmptyFolder (t : Tree) (path : Text) : Prop :=
  ∃ p, t.walk (start path) (steps path) = .ok p ∧
    ∀ q ≠ [], isInside q → t.file? (p ++ q) = none ∧ p ++ q ∉ t.folders

namespace FolderStore

def folderPlace (p : Place) (slot : Slot) : Place := p ++ [folderName slot]

def filePlace (p : Place) (slot : Slot) : Place := folderPlace p slot ++ [fileName slot]

/-- A folder at a place holds the packed files that the memory holds, and nothing in their way. -/
structure Mirrors (p : Place) (s : FolderStore) (m : MemoryStore) : Prop where
  walk_root : s.tree.walk (start s.root) (steps s.root) = .ok p
  read_eq : ∀ slot, m.read slot = (s.tree.file? (filePlace p slot)).elim (.error (.notFound slot)) .ok
  isFolder_of_isSome : ∀ slot, (s.tree.file? (filePlace p slot)).isSome →
    s.tree.isFolder (folderPlace p slot)
  no_file : ∀ slot, s.tree.file? (folderPlace p slot) = none
  no_folder : ∀ slot, s.tree.isFolder (filePlace p slot) = false

section Places

variable {p : Place} {slot slot' : Slot}

theorem filePlace_eq : filePlace p slot = p ++ [folderName slot, fileName slot] :=
  List.append_assoc ..

theorem filePlace_inj : filePlace p slot = filePlace p slot' ↔ slot = slot' := by
  constructor
  · intro h
    rw [filePlace_eq, filePlace_eq, List.append_cancel_left_eq, List.cons.injEq, List.cons.injEq] at h
    exact eq_of_names h.1 h.2.1
  · rintro rfl
    rfl

theorem folderPlace_ne_filePlace : folderPlace p slot ≠ filePlace p slot' := by
  intro h
  have hlength := congrArg List.length h
  simp [filePlace, folderPlace] at hlength

end Places

theorem mirrors_empty {t : Tree} {root : Text} (h : t.IsEmptyFolder root) :
    ∃ p, Mirrors p ⟨root, t⟩ MemoryStore.empty := by
  obtain ⟨p, hwalk, hempty⟩ := h
  have hdown (slot : Slot) : folderName slot ≠ ['.', '.'] ∧ folderName slot ≠ ['/'] := by
    have hname := isName_folderName slot
    exact ⟨hname.ne_dots.2, fun h => hname.noSlash (by simp [h])⟩
  have hbelow (slot : Slot) (rest : Place) := hempty (folderName slot :: rest) (List.cons_ne_nil _ _)
    (by simp [isInside, hdown slot])
  have hfile (slot : Slot) := hbelow slot [fileName slot]
  simp only [← filePlace_eq] at hfile
  refine ⟨p, hwalk, fun slot => ?_, fun slot hsome => ?_, fun slot => (hbelow slot []).1,
    fun slot => ?_⟩
  · rw [(hfile slot).1]
    rfl
  · rw [(hfile slot).1] at hsome
    cases hsome
  · have houter : filePlace p slot ≠ outermost := by
      intro h
      have hlength := congrArg List.length h
      simp [filePlace, folderPlace, outermost] at hlength
    have hupward : isUpward (filePlace p slot) = false := by
      simp [filePlace_eq, isUpward, hdown slot]
    simp [isFolder, hupward, houter, (hfile slot).2]

section Steps

variable {p : Place} {s : FolderStore} {m : MemoryStore} {slot : Slot} {data : Bytes}
  {request : Request} {cause : Cause}

theorem Mirrors.walk_slotFolder (h : Mirrors p s m) (slot : Slot) :
    s.tree.walk (start (slotFolder s.root slot)) (steps (slotFolder s.root slot)) =
      if s.tree.isFolder (folderPlace p slot) then .ok (folderPlace p slot) else .error .notFound := by
  have hnone : s.tree.file? (p ++ [folderName slot]) = none := h.no_file slot
  refine (walk_join (isName_folderName slot) h.walk_root).trans ?_
  rw [enter_of_isName (isName_folderName slot), hnone]
  rfl

theorem Mirrors.tree_read (h : Mirrors p s m) (hcheck : checkPath (slotPath s.root slot) = .ok ()) :
    s.tree.read (slotPath s.root slot) =
      (s.tree.file? (filePlace p slot)).elim (.error .notFound) .ok := by
  have hwalk := h.walk_slotFolder slot
  by_cases hfolder : s.tree.isFolder (folderPlace p slot)
  · rw [if_pos hfolder] at hwalk
    refine (read_join (isName_fileName slot) hcheck hwalk (h.no_folder slot)).trans ?_
    rw [← filePlace]
    cases s.tree.file? (filePlace p slot) <;> rfl
  · rw [if_neg hfolder] at hwalk
    have hnone := mt (h.isFolder_of_isSome slot) hfolder
    rw [Option.not_isSome_iff_eq_none] at hnone
    rw [hnone]
    exact read_join_of_not_walk (isName_fileName slot) hcheck hwalk

theorem Mirrors.read (h : Mirrors p s m) (hcheck : checkPath (slotPath s.root slot) = .ok ()) :
    SlotStore.read s slot = SlotStore.read m slot := by
  have hread : SlotStore.read s slot = ((readSlot s.root slot).run s.tree).1 := rfl
  rw [hread, run_readSlot, h.tree_read hcheck]
  refine Eq.trans ?_ (h.read_eq slot).symm
  cases s.tree.file? (filePlace p slot) <;> rfl

theorem Mirrors.made (h : Mirrors p s m) {made : Tree} (hfiles : made.files = s.tree.files)
    (hfolders : ∀ q, made.isFolder q ↔ s.tree.isFolder q ∨ q = folderPlace p slot) :
    Mirrors p { s with tree := made } m := by
  have hfile (q : Place) : made.file? q = s.tree.file? q := by rw [file?, hfiles, ← file?]
  have hmono (q : Place) (hq : s.tree.isFolder q) : made.isFolder q := (hfolders q).2 (.inl hq)
  refine ⟨walk_of_isFolder hmono h.walk_root, fun k => ?_, fun k hsome => ?_, fun k => ?_, fun k => ?_⟩
  · rw [h.read_eq k, hfile]
  · rw [hfile] at hsome
    exact hmono _ (h.isFolder_of_isSome k hsome)
  · rw [hfile, h.no_file k]
  · rw [Bool.eq_false_iff, ne_eq, hfolders, h.no_folder k]
    simp [folderPlace_ne_filePlace.symm]

theorem Mirrors.put (h : Mirrors p s m) (hfolder : s.tree.isFolder (folderPlace p slot)) :
    Mirrors p { s with tree := { s.tree with files := Storage.put (filePlace p slot) data s.tree.files } }
      (m.write slot data) := by
  refine ⟨walk_of_isFolder (t := s.tree) (fun _ hq => hq) h.walk_root, fun k => ?_, fun k hsome => ?_,
    fun k => ?_, h.no_folder⟩
  · simp only [MemoryStore.read_write, file?_put, filePlace_inj, h.read_eq k]
    split_ifs <;> rfl
  · simp only [file?_put, filePlace_inj] at hsome
    by_cases hk : k = slot
    · subst hk
      exact hfolder
    · rw [if_neg hk] at hsome
      exact h.isFolder_of_isSome k hsome
  · rw [file?_put, if_neg folderPlace_ne_filePlace, h.no_file k]

theorem Mirrors.makeFolders (h : Mirrors p s m)
    (hcheck : checkPath (slotFolder s.root slot) = .ok ()) :
    ∃ made, s.tree.makeFolders (slotFolder s.root slot) = (.ok (), made) ∧
      Mirrors p { s with tree := made } m ∧ made.isFolder (folderPlace p slot) := by
  obtain ⟨made, hmade, hfiles, hfolders⟩ :=
    makeFolders_join (isName_folderName slot) hcheck h.walk_root (h.no_file slot)
  exact ⟨made, hmade, h.made hfiles hfolders, (hfolders _).2 (.inr rfl)⟩

theorem Mirrors.write (h : Mirrors p s m) (hcheck : checkPath (slotPath s.root slot) = .ok ()) :
    (SlotStore.write s slot data).1 = .ok () ∧
      Mirrors p (SlotStore.write s slot data).2 (m.write slot data) := by
  obtain ⟨made, hmade, hmirrors, hfolder⟩ := h.makeFolders (checkPath_slotFolder hcheck)
  have hwalk := hmirrors.walk_slotFolder slot
  rw [if_pos hfolder] at hwalk
  have hwritten := write_join data (isName_fileName slot) hcheck hwalk (hmirrors.no_folder slot)
  have hwrite : SlotStore.write s slot data = (((writeSlot s.root slot data).run s.tree).1,
      { s with tree := ((writeSlot s.root slot data).run s.tree).2 }) := rfl
  rw [hwrite, run_writeSlot, hmade]
  dsimp only
  rw [slotPath, ← fileName, hwritten]
  exact ⟨rfl, hmirrors.put hfolder⟩

theorem Mirrors.answer_eq (h : Mirrors p s m)
    (hcheck : checkPath (slotPath s.root request.slot) = .ok ()) :
    answer s request = answer m request ∧ Mirrors p (after s request) (after m request) := by
  cases request with
  | read slot => exact ⟨congrArg Answer.read (h.read hcheck), h⟩
  | write slot data => exact (h.write hcheck).imp_left (congrArg Answer.write)

/-- A path that is refused is reported, whatever was asked. -/
theorem Mirrors.systemError (h : Mirrors p s m)
    (hcheck : checkPath (slotPath s.root request.slot) = .error cause) :
    ∃ reported, SystemError (answer s request) reported ∧ reported ≠ .notFound := by
  have hcause := ne_notFound_of_checkPath hcheck
  cases request with
  | read slot =>
    have hread : s.tree.read (slotPath s.root slot) = .error cause := bind_of_error hcheck _
    have hanswer : answer s (.read slot) = .read (.error (.io (slotPath s.root slot) cause)) := by
      refine congrArg Answer.read ?_
      have hrun : SlotStore.read s slot = ((readSlot s.root slot).run s.tree).1 := rfl
      rw [hrun, run_readSlot, hread]
      cases cause <;> first | rfl | exact absurd rfl hcause
    rw [hanswer]
    exact ⟨cause, .read, hcause⟩
  | write slot data =>
    have hrun : answer s (.write slot data) = .write ((writeSlot s.root slot data).run s.tree).1 := rfl
    rw [hrun, run_writeSlot]
    cases hfolder : checkPath (slotFolder s.root slot) with
    | error refused =>
      have hmade : s.tree.makeFolders (slotFolder s.root slot) = (.error refused, s.tree) := by
        rw [Tree.makeFolders, hfolder]
      rw [hmade]
      exact ⟨refused, .write, ne_notFound_of_checkPath hfolder⟩
    | ok _ =>
      obtain ⟨made, hmade, -, -⟩ := h.makeFolders hfolder
      have hwritten : made.write (slotPath s.root slot) data = .error cause := bind_of_error hcheck _
      rw [hmade]
      dsimp only
      rw [hwritten]
      exact ⟨cause, .write, hcause⟩

end Steps

section Runs

variable {p : Place} {s : FolderStore} {m : MemoryStore} {requests : List Request} {a : Answer}
  {cause : Cause}

theorem root_after (s : FolderStore) (request : Request) : (after s request).root = s.root := by
  cases request <;> rfl

theorem Mirrors.answers_eq (h : Mirrors p s m)
    (hcheck : ∀ request ∈ requests, checkPath (slotPath s.root request.slot) = .ok ()) :
    answers s requests = answers m requests := by
  induction requests generalizing s m with
  | nil => rfl
  | cons request requests ih =>
    obtain ⟨hfirst, hrest⟩ := List.forall_mem_cons.1 hcheck
    obtain ⟨hanswer, hafter⟩ := h.answer_eq hfirst
    rw [answers, answers, hanswer, ih hafter (by rwa [root_after])]

/-- No path was refused if nothing worse was reported than that something is missing. -/
theorem Mirrors.checkPath_of_undisturbed (h : Mirrors p s m)
    (hmissing : ∀ a ∈ answers s requests, ∀ cause, SystemError a cause → cause = .notFound) :
    ∀ request ∈ requests, checkPath (slotPath s.root request.slot) = .ok () := by
  induction requests generalizing s m with
  | nil => simp
  | cons request requests ih =>
    obtain ⟨hfirst, hrest⟩ := List.forall_mem_cons.1 hmissing
    have hcheck : checkPath (slotPath s.root request.slot) = .ok () := by
      cases hcheck : checkPath (slotPath s.root request.slot) with
      | error cause =>
        obtain ⟨reported, herror, hne⟩ := h.systemError hcheck
        exact absurd (hfirst reported herror) hne
      | ok _ => rfl
    have hrequests := ih (h.answer_eq hcheck).2 hrest
    rw [root_after] at hrequests
    exact List.forall_mem_cons.2 ⟨hcheck, hrequests⟩

theorem not_systemError_memory (ha : a ∈ answers m requests) : ¬SystemError a cause := by
  induction requests generalizing m with
  | nil => cases ha
  | cons request requests ih =>
    rcases List.mem_cons.1 ha with rfl | ha
    · cases request with
      | read slot =>
        have hread : SlotStore.read m slot = m.read slot := rfl
        rw [answer, hread, MemoryStore.read]
        cases m.files.lookup slot <;> rintro ⟨⟩
      | write slot data => rintro ⟨⟩
    · exact ih ha

/-- Packed files in a folder that was empty answer any requests like packed files in memory, unless the
operating system reports an error other than that a file is missing. It never does where the path of
the folder leaves room for the numbers and has no byte that paths cannot have. -/
theorem answers_eq_memory {t : Tree} {root : Text} (h : t.IsEmptyFolder root)
    (requests : List Request) :
    (answers (⟨root, t⟩ : FolderStore) requests = answers MemoryStore.empty requests ↔
        ∀ a ∈ answers (⟨root, t⟩ : FolderStore) requests, ∀ cause, SystemError a cause →
          cause = .notFound) ∧
      ('\x00' ∉ root → byteSize root + 26 ≤ maxPathSize →
        answers (⟨root, t⟩ : FolderStore) requests = answers MemoryStore.empty requests) := by
  obtain ⟨p, hmirrors⟩ := mirrors_empty h
  refine ⟨⟨fun heq a ha cause herror => ?_, fun hmissing => ?_⟩, fun hnul hsize => ?_⟩
  · rw [heq] at ha
    exact absurd herror (not_systemError_memory ha)
  · exact hmirrors.answers_eq (hmirrors.checkPath_of_undisturbed hmissing)
  · exact hmirrors.answers_eq fun request _ => checkPath_slotPath hnul hsize request.slot

/-- A file is missing, is stored, is read back and is replaced, and another file is still missing. -/
theorem answers_eq_memory_twoFiles :
    Tree.IsEmptyFolder ⟨[], [["fs"]]⟩ "fs" ∧
      answers (⟨"fs", ⟨[], [["fs"]]⟩⟩ : FolderStore) [.read ⟨3, 7⟩, .write ⟨3, 7⟩ [0xDE, 0xAD],
          .read ⟨3, 7⟩, .write ⟨3, 7⟩ [4], .read ⟨3, 7⟩, .read ⟨3, 8⟩] =
        [.read (.error (.notFound ⟨3, 7⟩)), .write (.ok ()), .read (.ok [0xDE, 0xAD]), .write (.ok ()),
          .read (.ok [4]), .read (.error (.notFound ⟨3, 8⟩))] := by
  have hempty : Tree.IsEmptyFolder ⟨[], [["fs"]]⟩ "fs" := by
    refine ⟨["fs"], by decide, fun q hq _ => ⟨rfl, ?_⟩⟩
    simpa using hq
  exact ⟨hempty, ((answers_eq_memory hempty _).2 (by decide) (by decide)).trans rfl⟩

end Runs

end FolderStore

end CartPatch.Storage
