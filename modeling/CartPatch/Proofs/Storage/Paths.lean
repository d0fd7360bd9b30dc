import CartPatch.Proofs.Storage.Tree
import CartPatch.Proofs.Text.ByteOrder
import CartPatch.Proofs.Text.Numeral

/-!
Paths that are made by joining a folder and a name. They lead to the place of the name below the place
of the folder, whether the name is read, written or made a folder (`Tree.read_join`, `Tree.write_join`,
`Tree.makeFolders_join`). The numbers of a packed file make such names, and different numbers make
different ones.
-/

namespace CartPatch.Storage

open Outcome Numeral CartPatch.Storage.Tree

/-- A name that is one step of a path, and one that goes down. -/
structure IsName (name : Text) : Prop where
  ne_nil : name ≠ []
  noSlash : '/' ∉ name
  noDots : Tree.isDots name = false
  short : Tree.byteSize name ≤ Tree.maxNameSize

theorem IsName.ne_dots {name : Text} (h : IsName name) : name ≠ ['.'] ∧ name ≠ ['.', '.'] := by
  have hdots := h.noDots
  rwa [Tree.isDots, Bool.or_eq_false_iff, beq_eq_false_iff_ne, beq_eq_false_iff_ne] at hdots

namespace Tree

variable {t : Tree} {p q : Place} {path name : Text} {steps : List Text}

theorem byteSize_append (a b : Text) : byteSize (a ++ b) = byteSize a + byteSize b := by
  rw [byteSize, String.ofList_append, String.utf8ByteSize_append, ← byteSize, ← byteSize]

theorem checkPath_eq_ok : checkPath path = .ok () ↔ '\x00' ∉ path ∧ byteSize path ≤ maxPathSize := by
  unfold checkPath
  split_ifs with hnul hlong
  · simpa using fun hmem => absurd (by simpa using hnul) hmem
  · simp [Nat.not_le.2 hlong]
  · simpa [Nat.not_lt.1 hlong] using hnul

/-- That nothing is there is never found by looking at the path alone. -/
theorem ne_notFound_of_checkPath {cause : Cause} (h : checkPath path = .error cause) :
    cause ≠ .notFound := by
  unfold checkPath at h
  split_ifs at h <;> cases h <;> decide

theorem checkName_of_isName (hname : IsName name) : checkName name = .ok () :=
  if_neg (Nat.not_lt.2 hname.short)

theorem steps_append_slash (a b : Text) : Tree.steps (a ++ '/' :: b) = Tree.steps a ++ Tree.steps b := by
  rw [Tree.steps, List.splitOn_append_cons_self, List.filter_append, ← Tree.steps, ← Tree.steps]

theorem steps_of_isName (hname : IsName name) : Tree.steps name = [name] := by
  rw [Tree.steps, List.splitOn_eq_singleton hname.noSlash]
  simp [hname.ne_nil]

theorem enter_of_isName (hname : IsName name) :
    t.enter p name =
      if t.isFolder (p ++ [name]) then .ok (p ++ [name])
      else if (t.file? (p ++ [name])).isSome then .error .notFolder
      else .error .notFound := by
  refine (bind_of_ok (checkName_of_isName hname) _).trans ?_
  rw [if_neg hname.ne_dots.1, if_neg hname.ne_dots.2]
  rfl

theorem walk_concat {step : Text} (hwalk : t.walk p steps = .ok q) :
    t.walk p (steps ++ [step]) = t.enter q step := by
  rw [walk, List.foldlM_append, ← walk, bind_of_ok hwalk]
  simp

end Tree

namespace FolderStore

variable {t : Tree} {p : Place} {name folder : Text} {cause : Cause}

theorem join_cases (folder name : Text) :
    (folder = [] ∧ join folder name = name) ∨
      (∃ above, folder = above ++ ['/'] ∧ join folder name = above ++ '/' :: name) ∨
      folder ≠ [] ∧ join folder name = folder ++ '/' :: name := by
  unfold join
  split_ifs with h
  · simp only [Bool.or_eq_true, List.isEmpty_iff, beq_iff_eq, List.getLast?_eq_some_iff] at h
    rcases h with rfl | ⟨above, rfl⟩
    · exact .inl ⟨rfl, rfl⟩
    · exact .inr (.inl ⟨above, rfl, by simp⟩)
  · exact .inr (.inr ⟨fun hnil => h (by simp [hnil]), rfl⟩)

theorem steps_join (hname : IsName name) : steps (join folder name) = steps folder ++ [name] := by
  rcases join_cases folder name with ⟨rfl, hjoin⟩ | ⟨above, rfl, hjoin⟩ | ⟨-, hjoin⟩
  · rw [hjoin, steps_of_isName hname]
    rfl
  · rw [hjoin, steps_append_slash, steps_append_slash, steps_of_isName hname]
    simp [steps]
  · rw [hjoin, steps_append_slash, steps_of_isName hname]

theorem start_join (hname : IsName name) : start (join folder name) = start folder := by
  rcases join_cases folder name with ⟨rfl, hjoin⟩ | ⟨above, rfl, hjoin⟩ | ⟨hne, hjoin⟩
  · have hhead : name.head? ≠ some '/' := fun h => hname.noSlash (List.mem_of_mem_head? h)
    rw [hjoin, start, if_neg hhead]
    rfl
  · rw [hjoin, start, start]
    cases above <;> rfl
  · rw [hjoin, start, start, List.head?_append_of_ne_nil folder hne]

theorem walk_join (hname : IsName name) (hwalk : t.walk (start folder) (steps folder) = .ok p) :
    t.walk (start (join folder name)) (steps (join folder name)) = t.enter p name := by
  rw [start_join hname, steps_join hname, walk_concat hwalk]

theorem lastStep_join (hname : IsName name) :
    lastStep (join folder name) = .ok (steps folder, name) := by
  rw [lastStep, steps_join hname]
  simp

theorem getLast?_join (hname : IsName name) : (join folder name).getLast? ≠ some '/' := by
  have hlast : name.getLast? ≠ some '/' := fun h => hname.noSlash (List.mem_of_mem_getLast? h)
  have hafter (above : Text) : (above ++ '/' :: name).getLast? = name.getLast? := by
    rw [List.append_cons, List.getLast?_append_of_ne_nil _ hname.ne_nil]
  rcases join_cases folder name with ⟨-, hjoin⟩ | ⟨above, -, hjoin⟩ | ⟨-, hjoin⟩
  · rwa [hjoin]
  · rwa [hjoin, hafter]
  · rwa [hjoin, hafter]

theorem mem_join {c : Char} (hc : c ∈ join folder name) : c ∈ folder ∨ c = '/' ∨ c ∈ name := by
  rcases join_cases folder name with ⟨-, hjoin⟩ | ⟨above, rfl, hjoin⟩ | ⟨-, hjoin⟩
  · rw [hjoin] at hc
    exact .inr (.inr hc)
  · rw [hjoin, List.mem_append, List.mem_cons] at hc
    exact hc.imp_left (List.mem_append_left _)
  · rwa [hjoin, List.mem_append, List.mem_cons] at hc

theorem mem_join_of_mem {c : Char} (hc : c ∈ folder) : c ∈ join folder name := by
  unfold join
  split_ifs <;> exact List.mem_append_left _ hc

theorem byteSize_join_le (folder name : Text) :
    byteSize (join folder name) ≤ byteSize folder + (1 + byteSize name) := by
  have hslash (above : Text) : byteSize (above ++ '/' :: name) = byteSize above + (1 + byteSize name) := by
    rw [List.append_cons, byteSize_append, byteSize_append]
    have hone : byteSize ['/'] = 1 := rfl
    omega
  rcases join_cases folder name with ⟨rfl, hjoin⟩ | ⟨above, rfl, hjoin⟩ | ⟨-, hjoin⟩
  · rw [hjoin]
    omega
  · rw [hjoin, hslash, byteSize_append]
    omega
  · rw [hjoin, hslash]

theorem byteSize_le_join (folder name : Text) : byteSize folder ≤ byteSize (join folder name) := by
  unfold join
  split_ifs <;> rw [byteSize_append] <;> omega

section Access

/-- A path that is joined does not ask for a folder by its form. -/
theorem not_folder_join (hname : IsName name) :
    ¬(isDots name || (join folder name).getLast? == some '/') = true := by
  simp [hname.noDots, getLast?_join hname]

theorem read_join (hname : IsName name) (hcheck : checkPath (join folder name) = .ok ())
    (hwalk : t.walk (start folder) (steps folder) = .ok p) (hfolder : t.isFolder (p ++ [name]) = false) :
    t.read (join folder name) =
      match t.file? (p ++ [name]) with
      | some data => .ok data
      | none => .error .notFound := by
  refine (bind_of_ok hcheck _).trans ((bind_of_ok (lastStep_join hname) _).trans ?_)
  rw [← start_join hname] at hwalk
  refine (bind_of_ok hwalk _).trans ((bind_of_ok (checkName_of_isName hname) _).trans ?_)
  refine (if_neg (not_folder_join hname)).trans ((if_neg (ne_true_of_eq_false hfolder)).trans ?_)
  cases t.file? (p ++ [name]) <;> rfl

theorem read_join_of_not_walk (hname : IsName name) (hcheck : checkPath (join folder name) = .ok ())
    (hwalk : t.walk (start folder) (steps folder) = .error cause) :
    t.read (join folder name) = .error cause := by
  refine (bind_of_ok hcheck _).trans ((bind_of_ok (lastStep_join hname) _).trans ?_)
  rw [← start_join hname] at hwalk
  exact bind_of_error hwalk _

theorem write_join (data : Bytes) (hname : IsName name) (hcheck : checkPath (join folder name) = .ok ())
    (hwalk : t.walk (start folder) (steps folder) = .ok p) (hfolder : t.isFolder (p ++ [name]) = false) :
    t.write (join folder name) data = .ok { t with files := put (p ++ [name]) data t.files } := by
  refine (bind_of_ok hcheck _).trans ((bind_of_ok (lastStep_join hname) _).trans ?_)
  rw [← start_join hname] at hwalk
  refine (bind_of_ok hwalk _).trans ((if_neg (not_folder_join hname)).trans ?_)
  refine (bind_of_ok (checkName_of_isName hname) _).trans ?_
  exact if_neg (ne_true_of_eq_false hfolder)

theorem makeFolders_join (hname : IsName name) (hcheck : checkPath (join folder name) = .ok ())
    (hwalk : t.walk (start folder) (steps folder) = .ok p) (hfile : t.file? (p ++ [name]) = none) :
    ∃ made, t.makeFolders (join folder name) = (.ok (), made) ∧ made.files = t.files ∧
      ∀ q, made.isFolder q ↔ t.isFolder q ∨ q = p ++ [name] := by
  rw [makeFolders, hcheck, start_join hname, steps_join hname, List.reverse_concat]
  unfold makeFoldersUp
  rw [List.reverse_reverse]
  have hmake : t.makeFolder (start folder) (steps folder) name =
      if t.isFolder (p ++ [name]) then .error .alreadyExists
      else .ok { t with folders := t.folders ++ [p ++ [name]] } := by
    refine (bind_of_ok hwalk _).trans ((bind_of_ok (checkName_of_isName hname) _).trans ?_)
    simp [hname.noDots, hfile]
    rfl
  by_cases hfolder : t.isFolder (p ++ [name])
  · rw [if_pos hfolder] at hmake
    have hleads : t.leadsToFolder (start folder) (steps folder ++ [name]) = true := by
      rw [leadsToFolder, walk_concat hwalk, enter_of_isName hname, if_pos hfolder]
      rfl
    refine ⟨t, by simp [hmake, hleads], rfl, fun q => ⟨.inl, ?_⟩⟩
    rintro (hq | rfl)
    · exact hq
    · exact hfolder
  · rw [if_neg hfolder] at hmake
    refine ⟨{ t with folders := t.folders ++ [p ++ [name]] }, by simp [hmake], rfl, fun q => ?_⟩
    simp [isFolder, or_assoc]

end Access

section Slots

variable {root : Text} {slot slot' : Slot} {n : ℕ} {c : Char}

def folderName (slot : Slot) : Text := decimal slot.folder.toNat

def fileName (slot : Slot) : Text := decimal slot.file.toNat ++ ".bin"

theorem plain_of_mem_decimal (hc : c ∈ decimal n) : c ≠ '/' ∧ c ≠ '.' ∧ c ≠ '\x00' ∧ c.utf8Size = 1 := by
  have hdigits : decimalDigits.all fun c => c ≠ '/' ∧ c ≠ '.' ∧ c ≠ '\x00' ∧ c.utf8Size = 1 := by
    decide
  exact of_decide_eq_true (List.all_eq_true.1 hdigits c (mem_decimal hc))

theorem byteSize_decimal_le (hn : n < 2 ^ 32) : byteSize (decimal n) ≤ 10 := by
  rw [byteSize, Text.utf8ByteSize_eq_length fun c hc => (plain_of_mem_decimal hc).2.2.2]
  exact Nat.toDigits_length 10 n 10 (by decide) (by omega)

theorem isName_decimal_append (hn : n < 2 ^ 32) {suffix : Text} (hslash : '/' ∉ suffix)
    (hsuffix : byteSize suffix ≤ 4) : IsName (decimal n ++ suffix) := by
  obtain ⟨c, digits, hdigits⟩ := List.exists_cons_of_ne_nil (decimal_ne_nil n)
  have hc : c ≠ '.' := (plain_of_mem_decimal (hdigits ▸ List.mem_cons_self)).2.1
  have hsize := byteSize_decimal_le hn
  refine ⟨by simp [hdigits], ?_, by simp [hdigits, isDots, hc], ?_⟩
  · rw [List.mem_append, not_or]
    exact ⟨fun hmem => (plain_of_mem_decimal hmem).1 rfl, hslash⟩
  · rw [byteSize_append, maxNameSize]
    omega

theorem isName_folderName (slot : Slot) : IsName (folderName slot) := by
  rw [folderName, ← List.append_nil (decimal _)]
  exact isName_decimal_append slot.folder.toNat_lt (by simp) (by decide)

theorem isName_fileName (slot : Slot) : IsName (fileName slot) :=
  isName_decimal_append slot.file.toNat_lt (by decide) (by decide)

theorem eq_of_names (hfolder : folderName slot = folderName slot')
    (hfile : fileName slot = fileName slot') : slot = slot' := by
  obtain ⟨folder, file⟩ := slot
  obtain ⟨folder', file'⟩ := slot'
  rw [folderName, folderName, decimal_inj, UInt32.toNat_inj] at hfolder
  rw [fileName, fileName, List.append_left_inj, decimal_inj, UInt32.toNat_inj] at hfile
  exact congrArg₂ Slot.mk hfolder hfile

theorem checkPath_slotFolder (h : checkPath (slotPath root slot) = .ok ()) :
    checkPath (slotFolder root slot) = .ok () := by
  rw [checkPath_eq_ok] at h ⊢
  exact ⟨fun hmem => h.1 (mem_join_of_mem hmem), (byteSize_le_join _ _).trans h.2⟩

/-- The numbers make a path longer by no more than 26 bytes. -/
theorem checkPath_slotPath (hnul : '\x00' ∉ root) (hsize : byteSize root + 26 ≤ maxPathSize)
    (slot : Slot) : checkPath (slotPath root slot) = .ok () := by
  refine checkPath_eq_ok.2 ⟨fun hmem => ?_, ?_⟩
  · have hdigits (n : ℕ) : '\x00' ∉ decimal n := fun hmem => (plain_of_mem_decimal hmem).2.2.1 rfl
    rcases mem_join hmem with hmem | hmem | hmem
    · rcases mem_join hmem with hmem | hmem | hmem
      · exact hnul hmem
      · cases hmem
      · exact hdigits _ hmem
    · cases hmem
    · rcases List.mem_append.1 hmem with hmem | hmem
      · exact hdigits _ hmem
      · revert hmem
        decide
  · have hfolder := byteSize_join_le root (decimal slot.folder.toNat)
    have hfile := byteSize_join_le (slotFolder root slot) (decimal slot.file.toNat ++ ".bin")
    have hfolderName := byteSize_decimal_le slot.folder.toNat_lt
    have hfileName := byteSize_decimal_le slot.file.toNat_lt
    have hbin : byteSize ".bin" = 4 := rfl
    rw [byteSize_append] at hfile
    rw [slotPath]
    rw [← slotFolder] at hfolder
    omega

end Slots

end FolderStore

end CartPatch.Storage
