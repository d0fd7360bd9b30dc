import CartPatch.Proofs.Assembly.Atom
import Mathlib.Data.List.Forall2

/-!
Texts with at signs put before some of their words. A renamed text is such a text
(`marked_makeLocal`), and unlike renaming the relation holds for the lines of the text as well
(`Marked.rawLines`), whatever comment or string a line begins or ends in. Read alone, a marked line has
the atoms of the line: names of it may have got an at sign, and so may comments and strings
(`Marked.scanAtoms`).
-/

namespace CartPatch.Assembly

open Piece

def IsWord (w : Text) : Prop := w ≠ [] ∧ ∀ c ∈ w, isIdentifierChar c = true

/-- Whether a word in front of a text ends there. -/
def EndsWord (t : Text) : Prop := ∀ c ∈ t.head?, isIdentifierChar c = false

/-- A word as it is or, when it is one of the names, with an at sign before it. -/
def MarkedWord (names : List Text) (w w' : Text) : Prop := w' = w ∨ w ∈ names ∧ w' = '@' :: w

/-- A text and the text with at signs put before words of it that are among the names. -/
inductive Marked (names : List Text) : Text → Text → Prop where
  | nil : Marked names [] []
  | other {c : Char} {t u : Text} : isIdentifierChar c = false → Marked names t u →
    Marked names (c :: t) (c :: u)
  | word {w w' t u : Text} : IsWord w → MarkedWord names w w' → EndsWord t → Marked names t u →
    Marked names (w ++ t) (w' ++ u)

variable {names : List Text} {c : Char} {s t u w w' : Text}

section Words

theorem IsWord.marked (hw : IsWord w) (h : MarkedWord names w w') : IsWord w' := by
  rcases h with rfl | ⟨-, rfl⟩
  · exact hw
  · exact ⟨by simp, List.forall_mem_cons.2 ⟨by decide, hw.2⟩⟩

theorem IsWord.notMem (hw : IsWord w) (hc : isIdentifierChar c = false) : c ∉ w := fun hmem => by
  simp [hw.2 c hmem] at hc

theorem EndsWord.of_append {a b : Text} (h : EndsWord (a ++ b)) : EndsWord a := by
  cases a with
  | nil => simp [EndsWord]
  | cons => exact h

theorem EndsWord.append {a : Text} (h : EndsWord a) (hne : a ≠ []) (b : Text) : EndsWord (a ++ b) := by
  cases a with
  | nil => exact absurd rfl hne
  | cons => exact h

theorem endsWord_dropWhile {p : Char → Bool} (hp : ∀ c, isIdentifierChar c = true → p c = true)
    (t : Text) : EndsWord (t.dropWhile p) := by
  intro c hc
  have hnot := List.head?_dropWhile_not p t
  rw [Option.mem_def.1 hc] at hnot
  rw [← Bool.not_eq_true]
  exact fun hword => by simp [hp c hword] at hnot

@[elab_as_elim]
theorem wordInduction {motive : Text → Prop} (nil : motive [])
    (other : ∀ c t, isIdentifierChar c = false → motive t → motive (c :: t))
    (word : ∀ w t, IsWord w → EndsWord t → motive t → motive (w ++ t)) (t : Text) : motive t := by
  cases t with
  | nil => exact nil
  | cons c t =>
    by_cases hc : isIdentifierChar c = true
    · have hword : IsWord (c :: t.takeWhile isIdentifierChar) :=
        ⟨by simp, List.forall_mem_cons.2 ⟨hc, fun d hd => List.mem_takeWhile_imp hd⟩⟩
      have hends := endsWord_dropWhile (fun _ hc => hc) t
      have hshorter := (List.dropWhile_suffix isIdentifierChar (l := t)).length_le
      have hrest := word _ _ hword hends
        (wordInduction nil other word (t.dropWhile isIdentifierChar))
      rwa [List.cons_append, List.takeWhile_append_dropWhile] at hrest
    · exact other c t (Bool.not_eq_true _ ▸ hc) (wordInduction nil other word t)
termination_by t.length

theorem scanAtoms_word (hw : IsWord w) (ht : EndsWord t) :
    scanAtoms (w ++ t) = ⟨.identifier, w⟩ :: scanAtoms t := by
  obtain ⟨hne, hall⟩ := hw
  cases w with
  | nil => exact absurd rfl hne
  | cons c w =>
    obtain ⟨hc, hw⟩ := List.forall_mem_cons.1 hall
    have hkind : kindAt c (w ++ t) = .identifier := kindAt_of_isIdentifierChar hc
    have hsplit : split c (w ++ t) = (w, t) := by
      simp only [split, hkind, identifierRest, List.takeWhile_append_of_pos hw,
        List.dropWhile_append_of_pos hw]
      cases t with
      | nil => simp
      | cons d t =>
        have hd := ht d rfl
        simp [hd]
    rw [List.cons_append, scanAtoms_cons (by simp [hkind]), hkind, hsplit]

end Words

namespace Marked

/-- Text in front stays as it is when no word runs from it into the marked text. -/
theorem append_left (h : Marked names t u)
    (hs : (∀ c ∈ s.getLast?, isIdentifierChar c = false) ∨ EndsWord t) :
    Marked names (s ++ t) (s ++ u) := by
  induction s using wordInduction with
  | nil => exact h
  | other c s hc ih =>
    refine .other hc (ih ?_)
    refine hs.imp_left fun hlast d hd => hlast d ?_
    rw [List.getLast?_cons, Option.mem_def.1 hd]
    rfl
  | word w s hw hends ih =>
    simp only [List.append_assoc]
    by_cases hnil : s = []
    · subst hnil
      have ht : EndsWord t := hs.resolve_left fun hlast => by
        rw [List.append_nil] at hlast
        have hmem := List.getLast_mem hw.1
        have hno := hlast _ (List.getLast?_eq_some_getLast hw.1)
        simp [hw.2 _ hmem] at hno
      exact .word hw (.inl rfl) ht h
    · refine .word hw (.inl rfl) (hends.append hnil t) (ih ?_)
      refine hs.imp_left fun hlast d hd => hlast d ?_
      rw [List.getLast?_append, Option.mem_def.1 hd]
      rfl

theorem of_cons (hc : isIdentifierChar c = false) (h : Marked names (c :: t) u) :
    ∃ u', u = c :: u' ∧ Marked names t u' := by
  generalize hs : c :: t = s at h
  cases h with
  | nil => cases hs
  | other _ h =>
    obtain ⟨rfl, rfl⟩ := List.cons.inj hs
    exact ⟨_, rfl, h⟩
  | @word w _ _ _ hw _ _ _ =>
    obtain ⟨d, w, rfl⟩ := List.exists_cons_of_ne_nil hw.1
    obtain ⟨rfl, -⟩ := List.cons.inj hs
    exact absurd List.mem_cons_self (hw.notMem hc)

theorem alike (h : Marked names t u) : Alike t u := by
  induction h with
  | nil => exact .nil
  | other _ _ ih => exact .same ih.opensComment_cons
  | @word w w' _ _ hw hmark _ _ _ =>
    have hw' := hw.marked hmark
    obtain ⟨c, w, rfl⟩ := List.exists_cons_of_ne_nil hw.1
    obtain ⟨d, w', rfl⟩ := List.exists_cons_of_ne_nil hw'.1
    exact .identifier (hw.2 c (by simp)) (hw'.2 d (by simp))

theorem endsWord (h : Marked names t u) (ht : EndsWord t) : EndsWord u :=
  h.alike.stops (fun _ hc => hc) ht

theorem eq_or_mem_at (h : Marked names t u) : u = t ∨ '@' ∈ u := by
  induction h with
  | nil => exact .inl rfl
  | other _ _ ih => exact ih.imp (by rintro rfl; rfl) (List.mem_cons_of_mem _)
  | word _ hmark _ _ ih =>
    rcases hmark with rfl | ⟨-, rfl⟩
    · exact ih.imp (by rintro rfl; rfl) (List.mem_append_right _)
    · exact .inr (by simp)

end Marked

section Seams

theorem getLast?_blockCommentRest (t : Text) :
    (blockCommentRest t).2 = [] ∨ (blockCommentRest t).1.getLast? = some '/' := by
  fun_induction blockCommentRest t with
  | case1 => exact .inl rfl
  | case2 => exact .inr rfl
  | case3 c t _ ih =>
    refine ih.imp_right fun hlast => ?_
    rw [List.getLast?_cons, hlast]
    rfl

theorem getLast?_stringRest (escaped : Bool) (t : Text) :
    EndsWord (stringRest escaped t).2 ∨ (stringRest escaped t).1.getLast? = some '"' := by
  induction t generalizing escaped with
  | nil => exact .inl (by simp [stringRest, EndsWord])
  | cons c t ih =>
    rw [stringRest]
    split
    · exact .inr rfl
    · split
      · rename_i hline
        exact .inl (by simp [EndsWord, hline]; decide)
      · refine (ih _).imp_right fun hlast => ?_
        rw [List.getLast?_cons, hlast]
        rfl

theorem endsWord_split (h : kindAt c t = .identifier) : EndsWord (split c t).2 := by
  simp only [split, h, identifierRest]
  exact endsWord_dropWhile (fun _ hc => hc) t

/-- No word runs from a piece into the text behind it: one of them has another character there. -/
theorem split_seam (c : Char) (t : Text) :
    (∀ d ∈ (c :: (split c t).1).getLast?, isIdentifierChar d = false) ∨ EndsWord (split c t).2 := by
  have hlast {a : Text} {d : Char} (ha : a.getLast? = some d) (hd : isIdentifierChar d = false) :
      ∀ e ∈ (c :: a).getLast?, isIdentifierChar e = false := by
    intro e he
    rw [List.getLast?_cons, ha] at he
    cases he
    exact hd
  cases hkind : kindAt c t with
  | comment =>
    simp only [split, hkind]
    split
    · rcases getLast?_blockCommentRest t with hrest | hslash
      · exact .inr (by simp [hrest, EndsWord])
      · exact .inl (hlast hslash (by decide))
    · exact .inr (endsWord_dropWhile (fun d hd => by
        simp [ne_of_isIdentifierChar hd (d := '\n') (by decide)]) t)
  | string =>
    simp only [split, hkind]
    rcases getLast?_stringRest false t with hrest | hquote
    · exact .inr hrest
    · exact .inl (hlast hquote (by decide))
  | identifier => exact .inr (endsWord_split hkind)
  | text =>
    exact .inl fun d hd => isIdentifierChar_of_mem_split hkind (List.mem_of_getLast? hd)

theorem isWord_split (h : kindAt c t = .identifier) : IsWord (c :: (split c t).1) := by
  refine ⟨by simp, List.forall_mem_cons.2 ⟨isIdentifierChar_of_kindAt h, fun d hd => ?_⟩⟩
  simp only [split, h, identifierRest] at hd
  exact List.mem_takeWhile_imp hd

theorem marked_makeLocal (names : List Text) (t : Text) : Marked names t (makeLocal names t) := by
  fun_induction Piece.scan t with
  | case1 =>
    rw [makeLocal_nil]
    exact .nil
  | case2 c t ih =>
    have hcut := (cons_append_split c t).symm
    rw [makeLocal_cons, Piece.makeLocal]
    split
    · rename_i h
      conv => rw [hcut]
      exact .word (isWord_split h.1) (.inr ⟨h.2, rfl⟩) (endsWord_split h.1) ih
    · have hleft := ih.append_left (split_seam c t)
      rwa [← hcut] at hleft

end Seams

section Lines

theorem rawLines_append {w : Text} (hne : w ≠ []) (hw : '\n' ∉ w) (t : Text) :
    Text.rawLines (w ++ t) =
      match Text.rawLines t with
      | [] => [w]
      | l :: ls => (w ++ l) :: ls := by
  induction w with
  | nil => exact absurd rfl hne
  | cons c w ih =>
    obtain ⟨hc, hw⟩ : '\n' ≠ c ∧ '\n' ∉ w := by simpa using hw
    by_cases hnil : w = []
    · subst hnil
      rw [List.cons_append, List.nil_append, Text.rawLines, if_neg hc.symm]
      cases Text.rawLines t <;> rfl
    · rw [List.cons_append, Text.rawLines, if_neg hc.symm, ih hnil hw]
      cases Text.rawLines t <;> rfl

theorem EndsWord.line {l : Text} {ls : List Text} (h : EndsWord t) (ht : Text.rawLines t = l :: ls) :
    EndsWord l := by
  rw [← Text.flatten_rawLines t, ht, List.flatten_cons] at h
  exact h.of_append

/-- The lines of a marked text are the lines of the text, marked one by one. -/
theorem Marked.rawLines (h : Marked names t u) :
    List.Forall₂ (Marked names) (Text.rawLines t) (Text.rawLines u) := by
  have hfeed : isIdentifierChar '\n' = false := by decide
  induction h with
  | nil => exact .nil
  | @other c t u hc _ ih =>
    by_cases hline : c = '\n'
    · simp only [Text.rawLines, hline, if_true]
      exact .cons (.other hfeed .nil) ih
    · simp only [Text.rawLines, if_neg hline]
      cases ht : Text.rawLines t <;> cases hu : Text.rawLines u <;> rw [ht, hu] at ih <;> cases ih
      · exact .cons (.other hc .nil) .nil
      · rename_i hl hls
        exact .cons (.other hc hl) hls
  | @word w w' t u hw hmark hends _ ih =>
    have hw' := hw.marked hmark
    rw [rawLines_append hw.1 (hw.notMem hfeed), rawLines_append hw'.1 (hw'.notMem hfeed)]
    cases ht : Text.rawLines t <;> cases hu : Text.rawLines u <;> rw [ht, hu] at ih <;> cases ih
    · have hline : Marked names (w ++ []) (w' ++ []) := .word hw hmark (by simp [EndsWord]) .nil
      rw [List.append_nil, List.append_nil] at hline
      exact .cons hline .nil
    · rename_i hl hls
      exact .cons (.word hw hmark (hends.line ht) hl) hls

end Lines

section Atoms

def MarkedParts (names : List Text) (p q : Text × Text) : Prop :=
  Marked names p.1 q.1 ∧ Marked names p.2 q.2

theorem MarkedParts.cons (hc : isIdentifierChar c = false) {p q : Text × Text}
    (h : MarkedParts names p q) : MarkedParts names (c :: p.1, p.2) (c :: q.1, q.2) :=
  ⟨.other hc h.1, h.2⟩

theorem MarkedParts.word (hw : IsWord w) (hmark : MarkedWord names w w') {p q : Text × Text}
    (hp : EndsWord (p.1 ++ p.2)) (h : MarkedParts names p q) :
    MarkedParts names (w ++ p.1, p.2) (w' ++ q.1, q.2) :=
  ⟨.word hw hmark hp.of_append h.1, h.2⟩

theorem blockCommentRest_word (hw : IsWord w) (t : Text) :
    blockCommentRest (w ++ t) = (w ++ (blockCommentRest t).1, (blockCommentRest t).2) := by
  have hstar := hw.notMem (c := '*') (by decide)
  clear hw
  induction w with
  | nil => rfl
  | cons c w ih =>
    obtain ⟨hc, hw⟩ : '*' ≠ c ∧ '*' ∉ w := by simpa using hstar
    rw [List.cons_append, blockCommentRest_cons fun h => hc h.1.symm, ih hw]
    rfl

theorem Marked.blockCommentRest (h : Marked names t u) :
    MarkedParts names (blockCommentRest t) (blockCommentRest u) := by
  induction h with
  | nil => exact ⟨.nil, .nil⟩
  | @other c t u hc h ih =>
    by_cases hclosed : c = '*' ∧ t.head? = some '/'
    · obtain ⟨rfl, hhead⟩ := hclosed
      obtain ⟨r, rfl⟩ := List.head?_eq_some_iff.1 hhead
      obtain ⟨r', rfl, hrest⟩ := h.of_cons (by decide)
      exact ⟨.other (by decide) (.other (by decide) .nil), hrest⟩
    · have hopen : ¬(c = '*' ∧ u.head? = some '/') := by
        rwa [← h.alike.head?_iff (by decide)]
      rw [blockCommentRest_cons hclosed, blockCommentRest_cons hopen]
      exact ih.cons hc
  | @word w w' t u hw hmark hends _ ih =>
    rw [blockCommentRest_word hw, blockCommentRest_word (hw.marked hmark)]
    exact ih.word hw hmark (by rwa [append_blockCommentRest])

theorem lineCommentRest_word (hw : IsWord w) (t : Text) :
    lineCommentRest (w ++ t) = (w ++ (lineCommentRest t).1, (lineCommentRest t).2) := by
  have hall : ∀ c ∈ w, decide (c ≠ '\n') = true := fun c hc => by
    have hfeed := hw.notMem (c := '\n') (by decide)
    simpa using ne_of_mem_of_not_mem hc hfeed
  simp only [lineCommentRest, List.takeWhile_append_of_pos hall, List.dropWhile_append_of_pos hall]

theorem Marked.lineCommentRest (h : Marked names t u) :
    MarkedParts names (lineCommentRest t) (lineCommentRest u) := by
  induction h with
  | nil => exact ⟨.nil, .nil⟩
  | @other c t u hc h ih =>
    by_cases hline : c = '\n'
    · subst hline
      simp only [Piece.lineCommentRest, ne_eq, not_true_eq_false, decide_false, Bool.false_eq_true,
        not_false_eq_true, List.takeWhile_cons_of_neg, List.dropWhile_cons_of_neg]
      exact ⟨.nil, .other hc h⟩
    · have hcons (t : Text) : Piece.lineCommentRest (c :: t) =
          (c :: (Piece.lineCommentRest t).1, (Piece.lineCommentRest t).2) := by
        simp [Piece.lineCommentRest, hline]
      rw [hcons, hcons]
      exact ih.cons hc
  | @word w w' t u hw hmark hends _ ih =>
    rw [lineCommentRest_word hw, lineCommentRest_word (hw.marked hmark)]
    exact ih.word hw hmark (by rwa [Piece.lineCommentRest, List.takeWhile_append_dropWhile])

/-- A backslash in front of a word is spent on it. -/
theorem stringRest_word (hw : IsWord w) (escaped : Bool) (t : Text) :
    stringRest escaped (w ++ t) = (w ++ (stringRest false t).1, (stringRest false t).2) := by
  have hquote := hw.notMem (c := '"') (by decide)
  have hfeed := hw.notMem (c := '\n') (by decide)
  have hslash := hw.notMem (c := '\\') (by decide)
  obtain ⟨hne, -⟩ := hw
  induction w generalizing escaped with
  | nil => exact absurd rfl hne
  | cons c w ih =>
    obtain ⟨hcquote, hwquote⟩ : '"' ≠ c ∧ '"' ∉ w := by simpa using hquote
    obtain ⟨hcfeed, hwfeed⟩ : '\n' ≠ c ∧ '\n' ∉ w := by simpa using hfeed
    obtain ⟨hcslash, hwslash⟩ : '\\' ≠ c ∧ '\\' ∉ w := by simpa using hslash
    have hcons : stringRest escaped (c :: (w ++ t)) =
        (c :: (stringRest false (w ++ t)).1, (stringRest false (w ++ t)).2) := by
      have hstate : (c == '\\' && !escaped) = false := by simp [hcslash.symm]
      simp [stringRest, hcquote.symm, hcfeed.symm, hstate]
    rw [List.cons_append, hcons]
    by_cases hnil : w = []
    · rw [hnil]
      rfl
    · rw [ih false hwquote hwfeed hwslash hnil]
      rfl

theorem Marked.stringRest (h : Marked names t u) (escaped : Bool) :
    MarkedParts names (stringRest escaped t) (stringRest escaped u) := by
  induction h generalizing escaped with
  | nil => exact ⟨.nil, .nil⟩
  | @other c t u hc h ih =>
    rw [Piece.stringRest, Piece.stringRest]
    split
    · exact ⟨.other (by decide) .nil, h⟩
    · split
      · exact ⟨.nil, .other hc h⟩
      · exact (ih _).cons hc
  | @word w w' t u hw hmark hends _ ih =>
    rw [stringRest_word hw, stringRest_word (hw.marked hmark)]
    exact (ih false).word hw hmark (by rwa [append_stringRest])

/-- Comments and strings of a marked text end where they ended. -/
theorem Marked.split (h : Marked names t u) (htext : kindAt c t ≠ .text)
    (hname : kindAt c t ≠ .identifier) : MarkedParts names (split c t) (split c u) := by
  rw [Piece.split, Piece.split, ← h.alike.kindAt_eq, ← h.alike.opensBlockComment_cons]
  cases hkind : kindAt c t with
  | comment =>
    simp only
    split
    · exact h.blockCommentRest
    · exact h.lineCommentRest
  | string => exact h.stringRest false
  | identifier => exact absurd hkind hname
  | text => exact absurd hkind htext

/-- A piece of a marked text: the same as in the text, a name of it that got its at sign, or a
comment or string with an at sign somewhere. -/
inductive MarkedPiece (names : List Text) : Piece → Piece → Prop where
  | same (p : Piece) : MarkedPiece names p p
  | name {w : Text} : w ∈ names → MarkedPiece names ⟨.identifier, w⟩ ⟨.identifier, '@' :: w⟩
  | inside {kind : Kind} {a b : Text} : kind ≠ .identifier → kind ≠ .text → '@' ∈ b →
    MarkedPiece names ⟨kind, a⟩ ⟨kind, b⟩

/-- A marked text consists of the atoms of the text, marked one by one. -/
theorem Marked.scanAtoms {t u : Text} (h : Marked names t u) :
    List.Forall₂ (MarkedPiece names) (scanAtoms t) (scanAtoms u) := by
  match h with
  | .nil => simp [Piece.scanAtoms, scan]
  | @Marked.other _ c t u hc h =>
    have hkind := h.alike.kindAt_eq (c := c)
    by_cases htext : kindAt c t = .text
    · rw [scanAtoms_cons_text htext, scanAtoms_cons_text (hkind ▸ htext)]
      exact .cons (.same _) h.scanAtoms
    · have hname : kindAt c t ≠ .identifier := fun hname => by
        simp [isIdentifierChar_of_kindAt hname] at hc
      obtain ⟨hpiece, hrest⟩ := h.split htext hname
      rw [scanAtoms_cons htext, scanAtoms_cons (hkind ▸ htext), ← hkind]
      refine .cons ?_ hrest.scanAtoms
      rcases hpiece.eq_or_mem_at with heq | hat
      · rw [heq]
        exact .same _
      · exact .inside hname htext (List.mem_cons_of_mem _ hat)
  | @Marked.word _ w w' t u hw hmark hends h =>
    rw [scanAtoms_word hw hends, scanAtoms_word (hw.marked hmark) (h.endsWord hends)]
    refine .cons ?_ h.scanAtoms
    rcases hmark with rfl | ⟨hmem, rfl⟩
    · exact .same _
    · exact .name hmem
termination_by t.length
decreasing_by
  · simp
  · have := length_split_le c t
    simp only [List.length_cons]
    omega
  · have := List.length_pos_of_ne_nil hw.1
    simp only [List.length_append]
    omega

end Atoms

end CartPatch.Assembly
