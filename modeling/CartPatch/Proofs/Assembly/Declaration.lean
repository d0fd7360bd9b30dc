import CartPatch.Proofs.Assembly.Renaming
import CartPatch.Proofs.Text.Names

/-!
What a line declares, and what it declares when it is renamed. The name that a line begins with
stands behind text without identifiers (`solidPieces_eq_cons`), so that it is first found where it
is declared, and renaming turns the declaration of a name into the declaration of its new name
(`declaredName?_makeLocal`).
-/

namespace CartPatch.Assembly

open Piece

variable {names : List Text} {line : Text} {p : Piece} {ps : List Piece}

theorem Piece.isIdentifierChar_of_mem_textRest {c : Char} {t : Text} (h : c ∈ (textRest t).1) :
    isIdentifierChar c = false := by
  induction t with
  | nil => simp [textRest] at h
  | cons d t ih => grind [textRest]

theorem Piece.isIdentifierChar_of_mem_split {c d : Char} {t : Text} (hkind : kindAt c t = .text)
    (hd : d ∈ c :: (split c t).1) : isIdentifierChar d = false := by
  rcases List.mem_cons.1 hd with rfl | hrest
  · rw [← Bool.not_eq_true]
    intro hd
    rw [kindAt_of_isIdentifierChar hd] at hkind
    cases hkind
  · rw [split, hkind] at hrest
    exact isIdentifierChar_of_mem_textRest hrest

theorem solidPieces_cons (c : Char) (t : Text) :
    solidPieces (c :: t) =
      if kindAt c t = .text ∧ Text.trim (c :: (split c t).1) = [] then solidPieces (split c t).2
      else ⟨kindAt c t, c :: (split c t).1⟩ :: solidPieces (split c t).2 := by
  by_cases hkind : kindAt c t = .text <;> by_cases hblank : Text.trim (c :: (split c t).1) = [] <;>
    simp [solidPieces, scan, hkind, hblank]

theorem solidPieces_makeLocal (names : List Text) (line : Text) :
    solidPieces (makeLocal names line) = (solidPieces line).map (·.renamed names) := by
  rw [solidPieces, scan_makeLocal, List.filter_map, solidPieces]
  refine congrArg _ (List.filter_congr fun p _ => ?_)
  by_cases hkind : p.kind = .text
  · simp [renamed_of_ne, hkind]
  · simp [hkind]

/-- Text without identifiers stands in front of the first piece that counts, which is renamed in
its place. -/
theorem solidPieces_eq_cons (h : solidPieces line = p :: ps) :
    ∃ w r, (∀ c ∈ w, isIdentifierChar c = false) ∧
      ∀ names, makeLocal names line = w ++ p.makeLocal names ++ makeLocal names r := by
  fun_induction Piece.scan line with
  | case1 => simp [solidPieces, scan] at h
  | case2 c t ih =>
    rw [solidPieces_cons] at h
    split at h
    · rename_i hblank
      obtain ⟨w, r, hw, hlocal⟩ := ih h
      refine ⟨c :: (split c t).1 ++ w, r, ?_, fun names => ?_⟩
      · exact List.forall_mem_append.2 ⟨fun d => isIdentifierChar_of_mem_split hblank.1, hw⟩
      · rw [makeLocal_cons, hlocal]
        simp [Piece.makeLocal, hblank]
    · obtain ⟨rfl, -⟩ := List.cons.inj h
      exact ⟨[], (split c t).2, by simp, fun names => makeLocal_cons c t⟩

theorem Piece.slice_of_mem_scan {t : Text} (h : p ∈ scan t) (hkind : p.kind = .identifier) :
    ∃ c s, p.slice = c :: s ∧ isIdentifierChar c = true := by
  fun_induction Piece.scan t with
  | case1 => simp at h
  | case2 c t ih =>
    rcases List.mem_cons.1 h with rfl | hmem
    · exact ⟨c, _, rfl, isIdentifierChar_of_kindAt hkind⟩
    · exact ih hmem

theorem Piece.makeLocal_eq_cons {c : Char} {s : Text} (hslice : p.slice = c :: s)
    (hc : isIdentifierChar c = true) (names : List Text) :
    ∃ d s, p.makeLocal names = d :: s ∧ isIdentifierChar d = true := by
  rw [Piece.makeLocal]
  split
  · exact ⟨'@', p.slice, rfl, by decide⟩
  · exact ⟨c, s, hslice, hc⟩

theorem declaredName?_directive {directive name : Text}
    (h : solidPieces line = ⟨.identifier, directive⟩ :: ⟨.identifier, name⟩ :: ps) :
    declaredName? line =
      if Text.sameName directive ".definelabel" then some name else none := by
  rw [declaredName?, h]

/-- Whether a line declares the name that it begins with does not depend on how it is renamed. -/
theorem declaredName?_label {label text : Text}
    (h : solidPieces line = ⟨.identifier, label⟩ :: ⟨.text, text⟩ :: ps) :
    (∀ names, declaredName? (makeLocal names line) =
        some (Piece.makeLocal names ⟨.identifier, label⟩)) ∨
      ∀ names, declaredName? (makeLocal names line) = none := by
  obtain ⟨w, rest, hw, hlocal⟩ := solidPieces_eq_cons h
  have hmem : ⟨.identifier, label⟩ ∈ scan line := by
    refine (List.mem_filter.1 (?_ : _ ∈ solidPieces line)).1
    rw [h]
    exact List.mem_cons_self
  obtain ⟨c, s, hslice, hc⟩ := slice_of_mem_scan hmem rfl
  have heach (names : List Text) : declaredName? (makeLocal names line) =
      if (Text.trimStart text).head? = some ':' ∧ rest.head? = some ':' then
        some (Piece.makeLocal names ⟨.identifier, label⟩)
      else none := by
    have hsolid := solidPieces_makeLocal names line
    rw [h, List.map_cons, List.map_cons, renamed_of_ne (p := ⟨.text, text⟩) (by simp)] at hsolid
    obtain ⟨d, s', hname, hd⟩ := makeLocal_eq_cons hslice hc names
    have hfirst : d ∉ w := fun hmem => by simp [hw d hmem] at hd
    have hafter : Text.afterFirst? (d :: s') (makeLocal names line) =
        some (makeLocal names rest) := by
      rw [hlocal, hname, Text.afterFirst?_append hfirst]
    have hcolon := (alike_makeLocal names rest).head?_iff (d := ':') (by decide)
    rw [declaredName?, hsolid]
    simp [Piece.renamed, hname, hafter, hcolon]
  by_cases hcolon : (Text.trimStart text).head? = some ':' ∧ rest.head? = some ':'
  · exact .inl fun names => by rw [heach, if_pos hcolon]
  · exact .inr fun names => by rw [heach, if_neg hcolon]

theorem sameName_makeLocal (hnames : ∀ name ∈ names, name.head? ≠ some '.')
    (directive name : Text) :
    Text.sameName (Piece.makeLocal names ⟨.identifier, directive⟩) ('.' :: name) =
      Text.sameName directive ('.' :: name) := by
  have hnone {other : Text} (hhead : other.head? ≠ some '.') :
      Text.sameName other ('.' :: name) = false := by
    rw [← Bool.not_eq_true]
    exact fun hsame => hhead (Text.head?_of_sameName hsame)
  rw [Piece.makeLocal]
  split
  · rename_i hmem
    rw [hnone (hnames directive hmem.2), hnone (by simp)]
  · rfl

theorem declaredName?_makeLocal (hnames : ∀ name ∈ names, name.head? ≠ some '.') (line : Text) :
    declaredName? (makeLocal names line) =
      (declaredName? line).map fun name => Piece.makeLocal names ⟨.identifier, name⟩ := by
  have hsolid := solidPieces_makeLocal names line
  match h : solidPieces line with
  | ⟨.identifier, directive⟩ :: ⟨.identifier, name⟩ :: ps =>
    rw [h] at hsolid
    have hdirective : Text.sameName (Piece.makeLocal names ⟨.identifier, directive⟩) ".definelabel" =
        Text.sameName directive ".definelabel" := sameName_makeLocal hnames directive _
    rw [declaredName?_directive h, declaredName?_directive hsolid, hdirective]
    split <;> rfl
  | ⟨.identifier, label⟩ :: ⟨.text, text⟩ :: ps =>
    rcases declaredName?_label h with hlabel | hlabel
    · have hline := hlabel []
      rw [makeLocal_noNames] at hline
      rw [hlabel, hline]
      simp [Piece.makeLocal]
    · have hline := hlabel []
      rw [makeLocal_noNames] at hline
      rw [hlabel, hline]
      rfl
  | [] | [⟨.identifier, _⟩] | ⟨.identifier, _⟩ :: ⟨.comment, _⟩ :: _
  | ⟨.identifier, _⟩ :: ⟨.string, _⟩ :: _ | ⟨.comment, _⟩ :: _ | ⟨.string, _⟩ :: _
  | ⟨.text, _⟩ :: _ =>
    simp [declaredName?, hsolid, h, Piece.renamed]

end CartPatch.Assembly
