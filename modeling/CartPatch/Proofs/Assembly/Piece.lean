import CartPatch.Assembly.Piece
import Mathlib.Data.List.TakeWhile

/-!
Where pieces end. A piece ends in front of a text because of how the text begins, so any text that
begins alike ends it at the same place (`split_append`): the same character that does or does not
open a comment, or any two identifier characters.
-/

namespace CartPatch.Assembly.Piece

section Characters

variable {c d : Char} {t u : Text}

theorem ne_of_isIdentifierChar (hc : isIdentifierChar c = true) (hd : isIdentifierChar d = false) :
    c ≠ d := by
  rintro rfl
  rw [hc] at hd
  cases hd

theorem opensLineComment_cons :
    opensLineComment (c :: t) = (c == ';' || (c == '/' && t.head? == some '/')) := by
  cases t <;> unfold opensLineComment <;> split <;> simp_all

theorem opensBlockComment_cons :
    opensBlockComment (c :: t) = (c == '/' && t.head? == some '*') := by
  cases t <;> unfold opensBlockComment <;> split <;> simp_all

theorem not_opensComment_of_isIdentifierChar (hc : isIdentifierChar c = true) :
    opensComment (c :: t) = false := by
  have hsemicolon := ne_of_isIdentifierChar hc (d := ';') (by decide)
  have hslash := ne_of_isIdentifierChar hc (d := '/') (by decide)
  simp [opensComment, opensLineComment_cons, opensBlockComment_cons, hsemicolon, hslash]

theorem kindAt_of_isIdentifierChar (hc : isIdentifierChar c = true) :
    kindAt c t = .identifier := by
  have hquote := ne_of_isIdentifierChar hc (d := '"') (by decide)
  simp [kindAt, not_opensComment_of_isIdentifierChar hc, hquote, hc]

end Characters

/-- Two texts in front of which the same pieces end. -/
inductive Alike : Text → Text → Prop where
  | nil : Alike [] []
  | identifier {c d : Char} {t u : Text} :
    isIdentifierChar c = true → isIdentifierChar d = true → Alike (c :: t) (d :: u)
  | same {c : Char} {t u : Text} : opensComment (c :: t) = opensComment (c :: u) →
    Alike (c :: t) (c :: u)

namespace Alike

variable {c d : Char} {t u : Text}

theorem symm (h : Alike t u) : Alike u t := by
  cases h with
  | nil => exact .nil
  | identifier hc hd => exact .identifier hd hc
  | same h => exact .same h.symm

theorem nil_iff (h : Alike t u) : t = [] ↔ u = [] := by
  cases h <;> simp

theorem head?_iff (h : Alike t u) (hd : isIdentifierChar d = false) :
    t.head? = some d ↔ u.head? = some d := by
  cases h with
  | nil => rfl
  | identifier hc hc' => simp [ne_of_isIdentifierChar hc hd, ne_of_isIdentifierChar hc' hd]
  | same => rfl

theorem stops {p : Char → Bool} (h : Alike t u) (hp : ∀ c, isIdentifierChar c = true → p c = true)
    (ht : ∀ c ∈ t.head?, p c = false) : ∀ c ∈ u.head?, p c = false := by
  cases h with
  | nil => exact ht
  | identifier hc _ => exact absurd (ht _ rfl) (by simp [hp _ hc])
  | same => exact ht

theorem opensLineComment_cons (h : Alike t u) :
    opensLineComment (c :: t) = opensLineComment (c :: u) := by
  have hslash := h.head?_iff (d := '/') (by decide)
  rw [Bool.eq_iff_iff]
  simp [Piece.opensLineComment_cons, hslash]

theorem opensBlockComment_cons (h : Alike t u) :
    opensBlockComment (c :: t) = opensBlockComment (c :: u) := by
  have hstar := h.head?_iff (d := '*') (by decide)
  rw [Bool.eq_iff_iff]
  simp [Piece.opensBlockComment_cons, hstar]

theorem opensComment_cons (h : Alike t u) : opensComment (c :: t) = opensComment (c :: u) := by
  rw [opensComment, h.opensLineComment_cons, h.opensBlockComment_cons, opensComment]

theorem append_left (a : Text) (h : Alike t u) : Alike (a ++ t) (a ++ u) := by
  induction a with
  | nil => exact h
  | cons c a ih => exact .same ih.opensComment_cons

theorem kindAt_eq (h : Alike t u) : kindAt c t = kindAt c u := by
  rw [kindAt, h.opensComment_cons, kindAt]

end Alike

section Ends

variable {a b b' : Text}

theorem span_append {p : Char → Bool}
    (h : ((a ++ b).takeWhile p, (a ++ b).dropWhile p) = (a, b))
    (hb : (∀ c ∈ b.head?, p c = false) → ∀ c ∈ b'.head?, p c = false) :
    ((a ++ b').takeWhile p, (a ++ b').dropWhile p) = (a, b') := by
  obtain ⟨htake, hdrop⟩ := Prod.mk.inj h
  have ha : ∀ c ∈ a, p c = true := fun c hc => List.mem_takeWhile_imp (htake ▸ hc)
  have hhead : ∀ c ∈ b'.head?, p c = false := by
    refine hb fun c hc => ?_
    have hnot := List.head?_dropWhile_not p (a ++ b)
    rw [hdrop, Option.mem_def.1 hc] at hnot
    exact hnot
  rw [List.takeWhile_append_of_pos ha, List.dropWhile_append_of_pos ha]
  cases b' with
  | nil => simp
  | cons c b' =>
    have hc := hhead c rfl
    simp [hc]

theorem blockCommentRest_cons {c : Char} {t : Text} (h : ¬(c = '*' ∧ t.head? = some '/')) :
    blockCommentRest (c :: t) = (c :: (blockCommentRest t).1, (blockCommentRest t).2) := by
  refine blockCommentRest.eq_3 c t fun u hc ht => h ⟨hc, ?_⟩
  rw [ht]
  rfl

theorem nil_of_blockCommentRest (h : blockCommentRest b = ([], b)) : b = [] := by
  cases b with
  | nil => rfl
  | cons c t =>
    unfold blockCommentRest at h
    split at h <;> simp_all

theorem blockCommentRest_append (h : blockCommentRest (a ++ b) = (a, b)) (hb : b = [] → b' = []) :
    blockCommentRest (a ++ b') = (a, b') := by
  induction a with
  | nil =>
    rw [hb (nil_of_blockCommentRest h)]
    rfl
  | cons c a ih =>
    by_cases hclosed : c = '*' ∧ (a ++ b).head? = some '/'
    · obtain ⟨rfl, hhead⟩ := hclosed
      obtain ⟨t, ht⟩ := List.head?_eq_some_iff.1 hhead
      rw [List.cons_append, ht] at h
      obtain ⟨ha, rfl⟩ := Prod.mk.inj h
      cases ha
      rfl
    · rw [List.cons_append, blockCommentRest_cons hclosed] at h
      obtain ⟨hfirst, hrest⟩ := Prod.mk.inj h
      have htail : blockCommentRest (a ++ b) = (a, b) := Prod.ext (List.cons.inj hfirst).2 hrest
      have hopen : ¬(c = '*' ∧ (a ++ b').head? = some '/') := by
        cases a with
        | nil => simp [hb (nil_of_blockCommentRest htail)]
        | cons d a => exact hclosed
      rw [List.cons_append, blockCommentRest_cons hopen, ih htail]

theorem stringRest_append {escaped : Bool} (h : stringRest escaped (a ++ b) = (a, b))
    (hb : b = [] → b' = []) (hline : b.head? = some '\n' → b'.head? = some '\n') :
    stringRest escaped (a ++ b') = (a, b') := by
  induction a generalizing escaped with
  | nil =>
    cases b with
    | nil =>
      rw [hb rfl]
      rfl
    | cons c t =>
      have hc : c = '\n' := by grind [stringRest]
      subst hc
      obtain ⟨t', rfl⟩ := List.head?_eq_some_iff.1 (hline rfl)
      simp [stringRest]
  | cons c a ih => grind [stringRest]

theorem textRest_append (h : textRest (a ++ b) = (a, b)) (hb : Alike b b') :
    textRest (a ++ b') = (a, b') := by
  induction a with
  | nil =>
    cases hb with
    | nil => rfl
    | identifier hc hd => simp [textRest, hd]
    | same hcomment =>
      simp only [List.nil_append] at h ⊢
      grind [textRest]
  | cons c a ih =>
    have hcomment := (hb.append_left a).opensComment_cons (c := c)
    rw [List.cons_append, textRest] at h ⊢
    rw [← hcomment]
    split at h
    · cases h
    · rename_i hstop
      rw [if_neg hstop]
      obtain ⟨hfirst, hrest⟩ := Prod.mk.inj h
      rw [ih (Prod.ext (List.cons.inj hfirst).2 hrest)]

end Ends

theorem cons_append_split (c : Char) (t : Text) : (c :: (split c t).1) ++ (split c t).2 = c :: t := by
  rw [List.cons_append, append_split]

/-- A piece ends in front of every text that begins like the one that it ends in front of. -/
theorem split_append {c : Char} {a b b' : Text} (h : split c (a ++ b) = (a, b)) (hb : Alike b b') :
    split c (a ++ b') = (a, b') := by
  have hwhole := hb.append_left a
  have hnewline := hb.head?_iff (d := '\n') (by decide)
  unfold split at h ⊢
  rw [← hwhole.kindAt_eq, ← hwhole.opensBlockComment_cons]
  cases hkind : kindAt c (a ++ b) with
  | comment =>
    simp only [hkind] at h ⊢
    split at h
    · rename_i hblock
      rw [if_pos hblock]
      exact blockCommentRest_append h hb.nil_iff.1
    · rename_i hline
      rw [if_neg hline]
      exact span_append h
        (hb.stops fun c hc => by simp [ne_of_isIdentifierChar hc (d := '\n') (by decide)])
  | string =>
    simp only [hkind] at h ⊢
    exact stringRest_append h hb.nil_iff.1 hnewline.1
  | identifier =>
    simp only [hkind] at h ⊢
    exact span_append h (hb.stops fun _ hc => hc)
  | text =>
    simp only [hkind] at h ⊢
    exact textRest_append h hb

theorem scan_cons_append {c : Char} {a b : Text} (h : split c (a ++ b) = (a, b)) :
    scan (c :: (a ++ b)) = ⟨kindAt c (a ++ b), c :: a⟩ :: scan b := by
  rw [scan, h]

theorem isIdentifierChar_of_kindAt {c : Char} {t : Text} (h : kindAt c t = .identifier) :
    isIdentifierChar c = true := by
  unfold kindAt at h
  grind

end CartPatch.Assembly.Piece
