import CartPatch.Proofs.Assembly.Renaming
import CartPatch.Proofs.Text.Lines

/-!
Renaming line by line. Of the pieces that are not text, only a block comment reaches from one line
into the next. Where none does (`InlineComments`), a text is renamed by renaming its lines
(`rawLines_makeLocal`). How a line ends does not matter for its renaming (`chomp_makeLocal`).
-/

namespace CartPatch.Assembly

open Piece

variable {names : List Text}

namespace Piece

def atoms (p : Piece) : List Piece :=
  if p.kind = .text then p.slice.map fun c => ⟨.text, [c]⟩ else [p]

/-- The pieces of a text, its text cut into single characters. -/
def scanAtoms (t : Text) : List Piece := (scan t).flatMap atoms

theorem scanAtoms_textRest (t : Text) :
    scanAtoms t = (textRest t).1.map (fun c => ⟨.text, [c]⟩) ++ scanAtoms (textRest t).2 := by
  cases t with
  | nil => simp [scanAtoms, scan, textRest]
  | cons c t =>
    by_cases hstop : isIdentifierChar c || c == '"' || opensComment (c :: t)
    · simp [textRest, hstop]
    · have hkind : kindAt c t = .text := by grind [kindAt]
      simp [scanAtoms, scan, split, textRest, hstop, hkind, atoms]

theorem scanAtoms_cons_text {c : Char} {t : Text} (h : kindAt c t = .text) :
    scanAtoms (c :: t) = ⟨.text, [c]⟩ :: scanAtoms t := by
  rw [scanAtoms_textRest t]
  simp [scanAtoms, scan, split, h, atoms]

theorem scanAtoms_cons {c : Char} {t : Text} (h : kindAt c t ≠ .text) :
    scanAtoms (c :: t) = ⟨kindAt c t, c :: (split c t).1⟩ :: scanAtoms (split c t).2 := by
  simp [scanAtoms, scan, atoms, h]

theorem flatMap_scanAtoms {α : Type} {f : Piece → List α}
    (hf : ∀ s, s.flatMap (fun c => f ⟨.text, [c]⟩) = f ⟨.text, s⟩) (t : Text) :
    (scanAtoms t).flatMap f = (scan t).flatMap f := by
  have hatoms (p : Piece) : p.atoms.flatMap f = f p := by
    rw [atoms]
    split
    · rename_i h
      rw [List.flatMap_map, hf, ← h]
    · exact List.flatMap_singleton ..
  rw [scanAtoms, List.flatMap_assoc]
  simp only [hatoms]

theorem makeLocal_eq_flatMap_scanAtoms (names : List Text) (t : Text) :
    Assembly.makeLocal names t = (scanAtoms t).flatMap (·.makeLocal names) :=
  (flatMap_scanAtoms (by simp [Piece.makeLocal]) t).symm

def IsBlockComment (p : Piece) : Prop := p.kind = .comment ∧ opensBlockComment p.slice = true

instance : DecidablePred IsBlockComment := fun p =>
  inferInstanceAs (Decidable (p.kind = .comment ∧ opensBlockComment p.slice = true))

end Piece

/-- No block comment of the text reaches into a second line. -/
def InlineComments (t : Text) : Prop := ∀ p ∈ scan t, p.IsBlockComment → '\n' ∉ p.slice

instance : DecidablePred InlineComments := fun t =>
  inferInstanceAs (Decidable (∀ p ∈ scan t, p.IsBlockComment → '\n' ∉ p.slice))

theorem inlineComments_iff {t : Text} :
    InlineComments t ↔ ∀ p ∈ scanAtoms t, p.IsBlockComment → '\n' ∉ p.slice := by
  have hatoms (p : Piece) : (∀ q ∈ p.atoms, q.IsBlockComment → '\n' ∉ q.slice) ↔
      (p.IsBlockComment → '\n' ∉ p.slice) := by
    rw [atoms]
    split
    · rename_i h
      simp [IsBlockComment, h]
    · simp
  simp only [InlineComments, scanAtoms, List.forall_mem_flatMap, hatoms]

section Seam

variable {c : Char} {t : Text}

theorem InlineComments.of_cons_text (h : InlineComments (c :: t)) (hkind : kindAt c t = .text) :
    InlineComments t := by
  rw [inlineComments_iff, scanAtoms_cons_text hkind] at h
  exact inlineComments_iff.2 (List.forall_mem_cons.1 h).2

theorem InlineComments.of_cons (h : InlineComments (c :: t)) : InlineComments (split c t).2 := by
  rw [InlineComments, scan] at h
  exact (List.forall_mem_cons.1 h).2

theorem kindAt_lineFeed (t : Text) : kindAt '\n' t = .text := by
  have hline : isIdentifierChar '\n' = false := by decide
  simp [kindAt, opensComment, opensLineComment_cons, opensBlockComment_cons, hline]

theorem notMem_stringRest (escaped : Bool) (t : Text) : '\n' ∉ (stringRest escaped t).1 := by
  induction t generalizing escaped with
  | nil => simp [stringRest]
  | cons c t ih => grind [stringRest]

theorem isBlockComment_split (h : opensBlockComment (c :: t) = true) :
    IsBlockComment ⟨kindAt c t, c :: (split c t).1⟩ := by
  have hkind : kindAt c t = .comment := by simp [kindAt, opensComment, h]
  refine ⟨hkind, ?_⟩
  simp only [split, hkind, h, if_true]
  rw [opensBlockComment_cons] at h ⊢
  cases t with
  | nil => simp at h
  | cons d t =>
    unfold blockCommentRest
    split <;> simp_all

theorem notMem_split (hkind : kindAt c t ≠ .text) (hblock : ¬opensBlockComment (c :: t) = true) :
    '\n' ∉ c :: (split c t).1 := by
  have hc : '\n' ≠ c := by
    rintro rfl
    exact hkind (kindAt_lineFeed t)
  have hrest : '\n' ∉ (split c t).1 := by
    intro hmem
    cases h : kindAt c t with
    | text => exact hkind h
    | comment =>
      simp only [split, h, hblock, lineCommentRest] at hmem
      exact absurd (List.mem_takeWhile_imp hmem) (by decide)
    | string =>
      simp only [split, h] at hmem
      exact notMem_stringRest false t hmem
    | identifier =>
      simp only [split, h, identifierRest] at hmem
      exact absurd (List.mem_takeWhile_imp hmem) (by decide)
  simp [hc, hrest]

theorem InlineComments.notMem_split (h : InlineComments (c :: t)) (hkind : kindAt c t ≠ .text) :
    '\n' ∉ c :: (split c t).1 := by
  by_cases hblock : opensBlockComment (c :: t) = true
  · rw [InlineComments, scan] at h
    exact (List.forall_mem_cons.1 h).1 (isBlockComment_split hblock)
  · exact Assembly.notMem_split hkind hblock

theorem exists_of_append_eq {a b x y : Text} (h : a ++ b = x ++ '\n' :: y) (ha : '\n' ∉ a) :
    ∃ x', x = a ++ x' ∧ b = x' ++ '\n' :: y := by
  rcases List.append_eq_append_iff.1 h with ⟨x', hx, hb⟩ | ⟨a', hax, hy⟩
  · exact ⟨x', hx, hb⟩
  · cases a' with
    | nil => exact ⟨[], by simpa using hax.symm, hy.symm⟩
    | cons d a' =>
      obtain ⟨rfl, -⟩ := List.cons.inj hy
      exact absurd (by simp [hax]) ha

theorem alike_lineFeed (x y y' : Text) : Alike (x ++ '\n' :: y) (x ++ '\n' :: y') := by
  refine Alike.append_left x (.same ?_)
  simp [opensComment, opensLineComment_cons, opensBlockComment_cons]

/-- Where no block comment spans lines, a text is cut into the same atoms line by line. What follows a
line does not matter. -/
theorem scanAtoms_append_lineFeed {x y' : Text} (h : InlineComments (x ++ '\n' :: y')) (y : Text) :
    scanAtoms (x ++ '\n' :: y) = scanAtoms (x ++ ['\n']) ++ scanAtoms y := by
  cases x with
  | nil =>
    have hnil : scanAtoms [] = [] := by simp [scanAtoms, scan]
    rw [List.nil_append, scanAtoms_cons_text (kindAt_lineFeed y), List.nil_append,
      scanAtoms_cons_text (kindAt_lineFeed []), hnil, List.singleton_append]
  | cons c x =>
    have hkind (z : Text) : kindAt c (x ++ '\n' :: z) = kindAt c (x ++ '\n' :: y') :=
      (alike_lineFeed x z y').kindAt_eq
    simp only [List.cons_append] at h ⊢
    by_cases htext : kindAt c (x ++ '\n' :: y') = .text
    -- Text is left one character at a time, since a piece of text may run over the line feed.
    · rw [scanAtoms_cons_text ((hkind y).trans htext), scanAtoms_cons_text ((hkind []).trans htext),
        scanAtoms_append_lineFeed (h.of_cons_text htext) y, List.cons_append]
    · have hrest := h.of_cons
      have hmem := h.notMem_split htext
      obtain ⟨a, b, hsplit⟩ : ∃ a b, split c (x ++ '\n' :: y') = (a, b) := ⟨_, _, rfl⟩
      have hcut := append_split c (x ++ '\n' :: y')
      simp only [hsplit] at hrest hmem hcut
      obtain ⟨x', rfl, rfl⟩ := exists_of_append_eq hcut fun ha => hmem (List.mem_cons_of_mem c ha)
      have hline (z : Text) : split c (a ++ x' ++ '\n' :: z) = (a, x' ++ '\n' :: z) := by
        rw [List.append_assoc] at hsplit ⊢
        exact split_append hsplit (alike_lineFeed x' y' z)
      rw [scanAtoms_cons ((hkind y).trans_ne htext), scanAtoms_cons ((hkind []).trans_ne htext),
        hline y, hline [], hkind y, hkind [], scanAtoms_append_lineFeed hrest y, List.cons_append]
termination_by x.length

theorem makeLocal_append_lineFeed {x y' : Text} (h : InlineComments (x ++ '\n' :: y')) (y : Text) :
    makeLocal names (x ++ '\n' :: y) = makeLocal names (x ++ ['\n']) ++ makeLocal names y := by
  simp only [makeLocal_eq_flatMap_scanAtoms, scanAtoms_append_lineFeed h y, List.flatMap_append]

theorem InlineComments.of_append_lineFeed {x y : Text} (h : InlineComments (x ++ '\n' :: y)) :
    InlineComments y := by
  have hatoms := inlineComments_iff.1 h
  rw [scanAtoms_append_lineFeed h y] at hatoms
  exact inlineComments_iff.2 (List.forall_mem_append.1 hatoms).2

end Seam

section Ends

variable {c d : Char} {t : Text}

/-- Characters that make no other piece of the characters in front of them. -/
def IsInert (d : Char) : Prop := isIdentifierChar d = false ∧ d ≠ '/' ∧ d ≠ '*'

instance : DecidablePred IsInert := fun d =>
  inferInstanceAs (Decidable (isIdentifierChar d = false ∧ d ≠ '/' ∧ d ≠ '*'))

theorem opensComment_concat (hd : IsInert d) :
    opensComment (c :: (t ++ [d])) = opensComment (c :: t) := by
  obtain ⟨-, hslash, hstar⟩ := hd
  cases t with
  | nil =>
    have hneither : (d == '/') = false ∧ (d == '*') = false := by simp [hslash, hstar]
    simp [opensComment, opensLineComment_cons, opensBlockComment_cons, hneither]
  | cons => simp [opensComment, opensLineComment_cons, opensBlockComment_cons]

theorem kindAt_concat (hd : IsInert d) : kindAt c (t ++ [d]) = kindAt c t := by
  rw [kindAt, opensComment_concat hd, kindAt]

theorem alike_concat (hd : IsInert d) (ht : t ≠ []) : Alike t (t ++ [d]) := by
  cases t with
  | nil => exact absurd rfl ht
  | cons c t => exact .same (opensComment_concat hd).symm

theorem mem_makeLocal (h : c ∈ makeLocal names t) : c = '@' ∨ c ∈ t := by
  obtain ⟨p, hp, hc⟩ := List.mem_flatMap.1 h
  rw [Piece.makeLocal] at hc
  rw [← flatMap_slice_scan t]
  split at hc
  · rcases List.mem_cons.1 hc with rfl | hc
    · exact .inl rfl
    · exact .inr (List.mem_flatMap.2 ⟨p, hp, hc⟩)
  · exact .inr (List.mem_flatMap.2 ⟨p, hp, hc⟩)

theorem split_concat (hd : IsInert d) (c : Char) (t : Text) :
    split c (t ++ [d]) = ((split c t).1, (split c t).2 ++ [d]) ∨
      kindAt c t ≠ .identifier ∧ split c t = (t, []) ∧ split c (t ++ [d]) = (t ++ [d], []) := by
  obtain ⟨a, b, hsplit⟩ : ∃ a b, split c t = (a, b) := ⟨_, _, rfl⟩
  have hcut := append_split c t
  obtain ⟨a', b', hlonger⟩ : ∃ a' b', split c (t ++ [d]) = (a', b') := ⟨_, _, rfl⟩
  have hcut' := append_split c (t ++ [d])
  simp only [hsplit, hlonger] at hcut hcut' ⊢
  by_cases hb : b = []
  -- The piece reaches the end of the text, so that it may take the new character in.
  · obtain rfl : a = t := by simpa [hb] using hcut
    rcases List.eq_nil_or_concat' b' with rfl | ⟨e, f, rfl⟩
    · obtain rfl : a' = a ++ [d] := by simpa using hcut'
      refine .inr ⟨fun hkind => ?_, by rw [hb], rfl⟩
      rw [split, kindAt_concat hd, hkind] at hlonger
      have hmem : d ∈ (a ++ [d]).takeWhile isIdentifierChar := by
        rw [(Prod.mk.inj hlonger).1]
        simp
      simpa [hd.1] using List.mem_takeWhile_imp hmem
    · rw [← List.append_assoc] at hcut'
      obtain ⟨rfl, hf⟩ := List.append_inj' hcut' rfl
      obtain rfl : f = d := by simpa using hf
      by_cases he : e = []
      · simp [he, hb]
      · rw [List.append_assoc] at hlonger
        have hshorter := split_append hlonger (alike_concat hd he).symm
        rw [hsplit] at hshorter
        exact absurd ((Prod.mk.inj hshorter).2 ▸ hb) he
  · subst hcut
    rw [List.append_assoc, split_append hsplit (alike_concat hd hb)] at hlonger
    exact .inl hlonger.symm

theorem makeLocal_concat (hd : IsInert d) (t : Text) :
    makeLocal names (t ++ [d]) = makeLocal names t ++ [d] := by
  fun_induction Piece.scan t with
  | case1 =>
    have hkind : kindAt d [] ≠ .identifier := fun h => by
      simpa [hd.1] using isIdentifierChar_of_kindAt h
    obtain ⟨hfirst, hrest⟩ := List.append_eq_nil_iff.1 (append_split d [])
    simp [makeLocal_cons, hfirst, hrest, Piece.makeLocal, hkind, makeLocal_nil]
  | case2 c t ih =>
    rw [makeLocal_cons, List.cons_append, makeLocal_cons, kindAt_concat hd]
    rcases split_concat hd c t with hsplit | ⟨hkind, hshort, hlong⟩
    · rw [hsplit, ih, List.append_assoc]
    · rw [hshort, hlong]
      simp [Piece.makeLocal, hkind, makeLocal_nil]

end Ends

theorem rawLines_makeLocal (names : List Text) {t : Text} (h : InlineComments t) :
    Text.rawLines (makeLocal names t) = (Text.rawLines t).map (makeLocal names) := by
  have hkept {x : Text} (hx : '\n' ∉ x) : '\n' ∉ makeLocal names x := fun hmem =>
    (mem_makeLocal hmem).elim (by decide) hx
  induction t using Text.lineInduction with
  | last x hx =>
    by_cases hnil : x = []
    · simp [hnil, makeLocal_nil, Text.rawLines]
    · have hne : makeLocal names x ≠ [] := fun h => hnil ((alike_makeLocal names x).nil_iff.2 h)
      rw [Text.rawLines_of_notMem hnil hx, Text.rawLines_of_notMem hne (hkept hx), List.map_singleton]
  | line x y hx ih =>
    have hline : makeLocal names (x ++ ['\n']) = makeLocal names x ++ ['\n'] :=
      makeLocal_concat (by decide) x
    rw [makeLocal_append_lineFeed h y, hline, List.append_assoc, List.singleton_append,
      Text.rawLines_append_lineFeed (hkept hx), ih h.of_append_lineFeed,
      Text.rawLines_append_lineFeed hx, List.map_cons, hline]

theorem getLast?_makeLocal (t : Text) : (makeLocal names t).getLast? = t.getLast? := by
  fun_induction Piece.scan t with
  | case1 => rw [makeLocal_nil]
  | case2 c t ih =>
    have hpiece : (Piece.makeLocal names ⟨kindAt c t, c :: (split c t).1⟩).getLast? =
        (c :: (split c t).1).getLast? := by
      rw [Piece.makeLocal]
      split <;> simp
    rw [makeLocal_cons, List.getLast?_append, ih, hpiece, ← List.getLast?_append, cons_append_split]

theorem chomp_makeLocal (l : Text) :
    Text.chomp (makeLocal names l) = makeLocal names (Text.chomp l) := by
  have hfeed (m : Text) : makeLocal names (m ++ ['\n']) = makeLocal names m ++ ['\n'] :=
    makeLocal_concat (by decide) m
  have hreturn (m : Text) : makeLocal names (m ++ ['\r']) = makeLocal names m ++ ['\r'] :=
    makeLocal_concat (by decide) m
  rcases Text.chomp_cases l with ⟨m, rfl, hm⟩ | ⟨m, rfl, hlast, hm⟩ | ⟨hlast, hl⟩
  · have hend (m : Text) : m ++ ['\r', '\n'] = m ++ ['\r'] ++ ['\n'] := by simp
    rw [hm, hend, hfeed, hreturn, ← hend, Text.chomp_append_return]
  · rw [← getLast?_makeLocal] at hlast
    rw [hm, hfeed, Text.chomp_append_lineFeed hlast]
  · rw [← getLast?_makeLocal] at hlast
    rw [hl, Text.chomp_of_getLast? hlast]

end CartPatch.Assembly
