import CartPatch.Proofs.Assembly.Cursor
import CartPatch.Proofs.Assembly.Marking

/-!
How the pieces of a text fit together. What stands in a piece and what may stand behind it follows
from where the piece was cut (`wellCut_split`, `apart_split`), and a scan cuts all its pieces so
(`scan_partition`).
-/

namespace CartPatch.Assembly

open Piece

def commentMarks : List Text := [";", "//", "/*"]

/-- A piece cut from the front of `rest`: an identifier is cut where the identifier characters end,
text before anything that another piece begins with, and a string or a line comment at the latest
where the line ends. -/
structure Piece.WellCut (p : Piece) (rest : Text) : Prop where
  ne_nil : p.slice ≠ []
  word : p.kind = .identifier → IsWord p.slice
  wordEnd : p.kind = .identifier → EndsWord rest
  plain : p.kind = .text → ∀ c ∈ p.slice, isIdentifierChar c = false ∧ c ≠ '"'
  unmarked : p.kind = .text → ∀ mark ∈ commentMarks, ¬mark <:+: p.slice
  oneLine : p.kind = .string ∨
      p.kind = .comment ∧ ((";" : Text) <+: p.slice ∨ ("//" : Text) <+: p.slice) →
    '\n' ∉ p.slice

/-- One piece may follow the other, unless both would be a single identifier or text. -/
def Piece.Apart (p q : Piece) : Prop :=
  ¬(p.kind = .identifier ∧ q.kind = .identifier) ∧ ¬(p.kind = .text ∧ q.kind = .text)

section Marks

variable {c d : Char} {t u v : Text}

theorem opensComment_iff : opensComment t = true ↔ ∃ mark ∈ commentMarks, mark <+: t := by
  cases t with
  | nil => simp [commentMarks, opensComment, opensLineComment, opensBlockComment]
  | cons c t =>
    simp only [commentMarks, opensComment, opensLineComment_cons, opensBlockComment_cons]
    cases t <;> simp [List.cons_prefix_cons] <;> grind

theorem opensBlockComment_of_line (h : (";" : Text) <+: t ∨ ("//" : Text) <+: t) :
    opensBlockComment t = false := by
  rcases h with ⟨u, rfl⟩ | ⟨u, rfl⟩ <;> rfl

theorem kindAt_of_textRest (h : (textRest t).1 = u ++ d :: v) :
    kindAt d (v ++ (textRest t).2) = .text := by
  induction t generalizing u with
  | nil => simp [textRest] at h
  | cons c t ih =>
    rw [textRest] at h ⊢
    split at h
    · simp at h
    · rename_i hstop
      rw [if_neg hstop]
      cases u with
      | nil =>
        obtain ⟨rfl, rfl⟩ := List.cons.inj h
        rw [append_textRest]
        grind [kindAt]
      | cons e u => exact ih (List.cons.inj h).2

theorem kindAt_ne_text (h : (textRest t).2 = d :: v) : kindAt d v ≠ .text := by
  induction t with
  | nil => simp [textRest] at h
  | cons c t ih =>
    rw [textRest] at h
    split at h
    · rename_i hstop
      obtain ⟨rfl, rfl⟩ := List.cons.inj h
      grind [kindAt]
    · exact ih h

theorem of_kindAt_text (h : kindAt c t = .text) :
    isIdentifierChar c = false ∧ c ≠ '"' ∧ opensComment (c :: t) = false := by
  grind [kindAt]

end Marks

section Pieces

variable {c d : Char} {t u v : Text}

theorem kindAt_of_split (hkind : kindAt c t = .text) (h : c :: (split c t).1 = u ++ d :: v) :
    kindAt d (v ++ (split c t).2) = .text := by
  simp only [split, hkind] at h ⊢
  cases u with
  | nil =>
    obtain ⟨rfl, rfl⟩ := List.cons.inj h
    rwa [append_textRest]
  | cons e u => exact kindAt_of_textRest (List.cons.inj h).2

theorem wellCut_split (c : Char) (t : Text) :
    WellCut ⟨kindAt c t, c :: (split c t).1⟩ (split c t).2 where
  ne_nil := List.cons_ne_nil c _
  word := isWord_split
  wordEnd := endsWord_split
  plain := fun hkind d hd => by
    obtain ⟨u, v, huv⟩ := List.append_of_mem hd
    have hplain := of_kindAt_text (kindAt_of_split hkind huv)
    exact ⟨hplain.1, hplain.2.1⟩
  unmarked := fun hkind mark hmark hinfix => by
    obtain ⟨u, v, huv⟩ := hinfix
    cases mark with
    | nil => exact absurd hmark (by decide)
    | cons d mark =>
      rw [List.append_assoc, List.cons_append] at huv
      have hplain := of_kindAt_text (kindAt_of_split hkind huv.symm)
      have hopens : opensComment (d :: (mark ++ v ++ (split c t).2)) = true :=
        opensComment_iff.2 ⟨d :: mark, hmark, by simp⟩
      exact absurd (hopens.symm.trans hplain.2.2) (by decide)
  oneLine := fun hkind => by
    refine notMem_split (fun htext => ?_) fun hblock => ?_
    · simp [htext] at hkind
    · obtain ⟨hcomment, hopens⟩ := isBlockComment_split hblock
      rcases hkind with hstring | ⟨-, hmark⟩
      · exact absurd (hcomment.symm.trans hstring) (by decide)
      · rw [opensBlockComment_of_line hmark] at hopens
        cases hopens

theorem apart_split (h : (split c t).2 = d :: u) :
    Apart ⟨kindAt c t, c :: (split c t).1⟩ ⟨kindAt d u, d :: (split d u).1⟩ := by
  constructor
  · rintro ⟨hc : kindAt c t = .identifier, hd : kindAt d u = .identifier⟩
    have hend := endsWord_split hc d (by rw [h]; rfl)
    simp [isIdentifierChar_of_kindAt hd] at hend
  · rintro ⟨hc : kindAt c t = .text, hd : kindAt d u = .text⟩
    simp only [split, hc] at h
    exact kindAt_ne_text h hd

end Pieces

section Runs

variable {t : Text} {p : Piece} {ps qs : List Piece}

/-- The last pieces of a text are the pieces of the text that they make up. -/
theorem scan_of_append (h : scan t = ps ++ qs) : scan (qs.flatMap slice) = qs := by
  fun_induction Piece.scan t generalizing ps with
  | case1 =>
    obtain ⟨rfl, rfl⟩ := List.nil_eq_append_iff.1 h
    rw [List.flatMap_nil, scan]
  | case2 c t ih =>
    cases ps with
    | nil => rw [← List.nil_append qs, ← h, ← scan, flatMap_slice_scan]
    | cons p ps => exact ih (List.cons.inj h).2

theorem wellCut_of_scan (h : scan t = ps ++ p :: qs) : p.WellCut (qs.flatMap slice) := by
  have hscan := scan_of_append h
  cases hbehind : (p :: qs).flatMap slice with
  | nil =>
    rw [hbehind, scan] at hscan
    cases hscan
  | cons c u =>
    rw [hbehind, scan] at hscan
    obtain ⟨rfl, rfl⟩ := List.cons.inj hscan
    rw [flatMap_slice_scan]
    exact wellCut_split c u

theorem isChain_scan (t : Text) : (scan t).IsChain Apart := by
  fun_induction Piece.scan t with
  | case1 => exact .nil
  | case2 c t ih =>
    cases hrest : (split c t).2 with
    | nil =>
      rw [scan]
      exact .singleton _
    | cons d u =>
      rw [hrest, scan] at ih
      rw [scan]
      exact .cons_cons (apart_split hrest) ih

theorem append_of_scan (h : scan t = ps ++ qs) : ps.flatMap slice ++ qs.flatMap slice = t := by
  rw [← List.flatMap_append, ← h, flatMap_slice_scan]

theorem Cursor.finds_of_scan (h : scan t = ps ++ qs) :
    Cursor.Finds t (Text.size (ps.flatMap slice)) qs := by
  have hfinds := Cursor.finds_scan (ps.flatMap slice) (qs.flatMap slice)
  rwa [append_of_scan h, scan_of_append h] at hfinds

theorem isValid_of_scan (h : scan t = ps ++ qs) :
    String.Pos.Raw.IsValid (String.ofList t) ⟨Text.size (ps.flatMap slice)⟩ :=
  Text.isValid_iff.2 ⟨_, _, Text.cutAt?_eq_some.2 ⟨(append_of_scan h).symm, rfl⟩⟩

end Runs

/-- Every text is cut into pieces that give the text when put together, each of them well cut and as
long as it can be. A cursor finds these pieces and no others, then comes to the end, and stands
between two characters whenever it stops. -/
theorem scan_partition (t : Text) :
    (∀ ps, Cursor.Finds t 0 ps ↔ ps = scan t) ∧
    (∀ ps qs, scan t = ps ++ qs → Cursor.Finds t (Text.size (ps.flatMap slice)) qs ∧
      String.Pos.Raw.IsValid (String.ofList t) ⟨Text.size (ps.flatMap slice)⟩) ∧
    (scan t).flatMap slice = t ∧
    (∀ ps p qs, scan t = ps ++ p :: qs → p.WellCut (qs.flatMap slice)) ∧
    (scan t).IsChain Piece.Apart := by
  refine ⟨fun ps => ⟨fun h => h.unique (Cursor.finds_scan [] t), ?_⟩,
    fun ps qs h => ⟨Cursor.finds_of_scan h, isValid_of_scan h⟩, flatMap_slice_scan t,
    fun ps p qs => wellCut_of_scan, isChain_scan t⟩
  rintro rfl
  exact Cursor.finds_scan [] t

end CartPatch.Assembly
