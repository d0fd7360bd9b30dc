import CartPatch.Proofs.Assembly.Lines

/-!
Where renaming puts its at signs. The draft of a renamed text has the characters of the text, each with
whether an at sign goes in front of it. The renamed text is the draft with its at signs written
(`makeLocal_eq_written`), and the draft is otherwise the text (`map_fst_draft`), so that what renaming
leaves alone can be told place by place.
-/

namespace CartPatch.Assembly

open Piece

/-- Characters of a text, each with whether an at sign goes in front of it. -/
abbrev Draft := List (Char × Bool)

namespace Draft

def written (d : Draft) : Text := d.flatMap fun (c, sign) => if sign then ['@', c] else [c]

/-- A text that gets no at sign. -/
def plain (t : Text) : Draft := t.map (·, false)

def signed : Text → Draft
  | [] => []
  | c :: t => (c, true) :: plain t

variable {d e : Draft} {c : Char} {t u : Text}

@[simp] theorem written_append : (d ++ e : Draft).written = d.written ++ e.written := by
  simp [written]

@[simp] theorem written_plain : (plain t).written = t := by
  induction t with
  | nil => rfl
  | cons c t ih => simpa [written, plain] using ih

@[simp] theorem plain_cons : plain (c :: t) = (c, false) :: plain t := rfl

@[simp] theorem plain_append : plain (t ++ u) = plain t ++ plain u := by simp [plain]

@[simp] theorem map_fst_plain : (plain t).map Prod.fst = t := by simp [plain, Function.comp_def]

theorem getLast?_written (d : Draft) : d.written.getLast? = (d.map Prod.fst).getLast? := by
  induction d with
  | nil => rfl
  | cons place d ih =>
    obtain ⟨c, sign⟩ := place
    rw [written, List.flatMap_cons, ← written, List.getLast?_append, ih, List.map_cons,
      List.getLast?_cons]
    cases sign <;> cases (d.map Prod.fst).getLast? <;> rfl

theorem map_fst_signed : (signed t).map Prod.fst = t := by
  cases t with
  | nil => rfl
  | cons c t => simp [signed]

end Draft

/-- A piece gets an at sign when it is one of the names as a whole identifier. -/
def Piece.draft (names : List Text) (p : Piece) : Draft :=
  if p.kind = .identifier ∧ names.contains p.slice then .signed p.slice else .plain p.slice

def draft (names : List Text) (t : Text) : Draft := (scan t).flatMap (·.draft names)

variable {names : List Text} {c : Char} {t : Text}

theorem draft_nil : draft names [] = [] := by simp [draft, scan]

theorem draft_cons : draft names (c :: t) =
    Piece.draft names ⟨kindAt c t, c :: (split c t).1⟩ ++ draft names (split c t).2 := by
  simp [draft, scan]

theorem draft_eq_flatMap_scanAtoms (names : List Text) (t : Text) :
    draft names t = (scanAtoms t).flatMap (·.draft names) :=
  (flatMap_scanAtoms (by simp [Piece.draft, Draft.plain, List.map_eq_flatMap]) t).symm

theorem draft_cons_text (h : kindAt c t = .text) : draft names (c :: t) = (c, false) :: draft names t := by
  rw [draft_eq_flatMap_scanAtoms, draft_eq_flatMap_scanAtoms, scanAtoms_cons_text h]
  rfl

theorem Piece.map_fst_draft (p : Piece) : (p.draft names).map Prod.fst = p.slice := by
  rw [Piece.draft]
  split
  · exact Draft.map_fst_signed
  · exact Draft.map_fst_plain

theorem map_fst_draft (names : List Text) (t : Text) : (draft names t).map Prod.fst = t := by
  rw [draft, List.map_flatMap]
  simp only [Piece.map_fst_draft]
  exact flatMap_slice_scan t

theorem makeLocal_eq_written (names : List Text) (t : Text) :
    makeLocal names t = (draft names t).written := by
  fun_induction Piece.scan t with
  | case1 => rw [makeLocal_nil, draft_nil, Draft.written, List.flatMap_nil]
  | case2 c t ih =>
    rw [makeLocal_cons, draft_cons, Draft.written_append, ih]
    congr 1
    simp only [Piece.makeLocal, Piece.draft, List.contains_iff_mem]
    split
    · rw [Draft.signed, Draft.written, List.flatMap_cons, ← Draft.written, Draft.written_plain]
      rfl
    · exact Draft.written_plain.symm

end CartPatch.Assembly
