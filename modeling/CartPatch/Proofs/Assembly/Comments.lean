import CartPatch.Proofs.Assembly.Atom
import Mathlib.Data.Bool.AllAny

/-!
Comments and what a text declares. With spaces in place of its comments a text has the same atoms, but
for the spaces (`scanAtoms_blankComments`). A line is then the same marker, unless a comment parts the
marker (`Marker.ofLine?_blankComments`), and it declares the same name exactly when the declaration
stands in front of the comments of the line (`declaredName?_blankComments_iff`).

So comments do not influence what is made local, except those that span lines, part a marker, or stand
in front of a declaration or within it (`candidates_blankComments`).
-/

namespace CartPatch.Assembly

open Piece

variable {line t : Text} {p : Piece} {name : Text}

def blankChar (c : Char) : Char := if c = '\n' then c else ' '

def Piece.blankComment (p : Piece) : Text := if p.kind = .comment then p.slice.map blankChar else p.slice

/-- A text with spaces in place of its comments. -/
def blankComments (t : Text) : Text := (scan t).flatMap Piece.blankComment

/-- A text with spaces in place of the comments that its lines have when each is read alone. -/
def blankLines (t : Text) : Text := (Text.rawLines t).flatMap blankComments

def Piece.blankAtoms (p : Piece) : List Piece :=
  if p.kind = .comment then p.slice.map fun c => ⟨.text, [blankChar c]⟩ else [p]

section Scanning

theorem isBlank_blankChar (c : Char) : Text.isBlank (blankChar c) = true := by
  rw [blankChar]
  split
  · rename_i h
    rw [h]
    decide
  · decide

theorem blankComments_eq_flatMap_scanAtoms (t : Text) :
    blankComments t = (scanAtoms t).flatMap Piece.blankComment :=
  (flatMap_scanAtoms (by simp [Piece.blankComment]) t).symm

@[simp] theorem blankComments_nil : blankComments [] = [] := by simp [blankComments, scan]

theorem blankComments_cons_text {c : Char} (h : kindAt c t = .text) :
    blankComments (c :: t) = c :: blankComments t := by
  rw [blankComments_eq_flatMap_scanAtoms, blankComments_eq_flatMap_scanAtoms, scanAtoms_cons_text h]
  rfl

theorem blankComments_cons {c : Char} (t : Text) :
    blankComments (c :: t) =
      Piece.blankComment ⟨kindAt c t, c :: (split c t).1⟩ ++ blankComments (split c t).2 := by
  simp [blankComments, scan]

theorem length_blankComments (t : Text) : (blankComments t).length = t.length := by
  fun_induction Piece.scan t with
  | case1 => simp
  | case2 c t ih =>
    have hpiece : (Piece.blankComment ⟨kindAt c t, c :: (split c t).1⟩).length =
        (c :: (split c t).1).length := by
      rw [Piece.blankComment]
      split <;> simp
    have hcut := congrArg List.length (append_split c t)
    rw [blankComments_cons, List.length_append, hpiece, ih]
    simp only [List.length_append, List.length_cons] at hcut ⊢
    omega

theorem mem_blankComments {c : Char} (h : c ∈ blankComments t) : c = ' ' ∨ c ∈ t := by
  obtain ⟨p, hp, hc⟩ := List.mem_flatMap.1 h
  rw [← flatMap_slice_scan t]
  rw [Piece.blankComment] at hc
  split at hc
  · obtain ⟨d, hd, rfl⟩ := List.mem_map.1 hc
    rw [blankChar]
    split
    · exact .inr (List.mem_flatMap.2 ⟨p, hp, hd⟩)
    · exact .inl rfl
  · exact .inr (List.mem_flatMap.2 ⟨p, hp, hc⟩)

/-- A blanked text begins like the text, or with a space in place of a comment. -/
theorem head?_blankComments (t : Text) :
    (blankComments t).head? = t.head? ∨
      (blankComments t).head? = some ' ' ∧ ∃ c s, t = c :: s ∧ kindAt c s = .comment := by
  cases t with
  | nil => exact .inl (by simp)
  | cons c t =>
    rw [blankComments_cons]
    by_cases hkind : kindAt c t = .comment
    · have hc : c ≠ '\n' := by
        rintro rfl
        rw [kindAt_lineFeed] at hkind
        cases hkind
      exact .inr ⟨by simp [Piece.blankComment, hkind, blankChar, hc], c, t, rfl, hkind⟩
    · exact .inl (by simp [Piece.blankComment, hkind])

theorem kindAt_blankComments {c : Char} (h : kindAt c t = .text) : kindAt c (blankComments t) = .text := by
  simp only [kindAt, opensComment, opensLineComment_cons, opensBlockComment_cons] at h ⊢
  rcases head?_blankComments t with hhead | ⟨hhead, -⟩
  · rwa [hhead]
  · rw [hhead]
    grind

theorem kindAt_of_string {c : Char} (h : kindAt c t = .string) (u : Text) : kindAt c u = .string := by
  have hquote : c = '"' := by
    unfold kindAt at h
    grind
  simp [hquote, kindAt, opensComment, opensLineComment_cons, opensBlockComment_cons]

theorem split_append_blankComments {c : Char} {a b : Text} (h : split c (a ++ b) = (a, b))
    (hkind : kindAt c (a ++ b) = .identifier ∨ kindAt c (a ++ b) = .string) :
    split c (a ++ blankComments b) = (a, blankComments b) := by
  rcases hkind with hkind | hkind
  · have hc := isIdentifierChar_of_kindAt hkind
    simp only [split, kindAt_of_isIdentifierChar hc, identifierRest] at h ⊢
    refine span_append h fun hb => ?_
    rcases head?_blankComments b with hhead | ⟨hhead, -⟩
    · rwa [hhead]
    · rw [hhead]
      rintro _ ⟨⟩
      decide
  · simp only [split, kindAt_of_string hkind] at h ⊢
    refine stringRest_append h ?_ fun hline => ?_
    · rintro rfl
      exact blankComments_nil
    · rcases head?_blankComments b with hhead | ⟨-, d, s, rfl, hcomment⟩
      · rwa [hhead]
      · cases hline
        rw [kindAt_lineFeed] at hcomment
        cases hcomment

theorem scanAtoms_append_blankComments {c : Char} (htext : kindAt c t ≠ .text)
    (hcomment : kindAt c t ≠ .comment) :
    scanAtoms (c :: ((split c t).1 ++ blankComments (split c t).2)) =
      ⟨kindAt c t, c :: (split c t).1⟩ :: scanAtoms (blankComments (split c t).2) := by
  have hcut := append_split c t
  have hkind : kindAt c t = .identifier ∨ kindAt c t = .string := by
    cases h : kindAt c t <;> simp_all
  have hsplit : split c ((split c t).1 ++ blankComments (split c t).2) =
      ((split c t).1, blankComments (split c t).2) :=
    split_append_blankComments (by rw [hcut]) (by rwa [hcut])
  have hsame (u : Text) : kindAt c u = kindAt c t := by
    rcases hkind with h | h
    · rw [h, kindAt_of_isIdentifierChar (isIdentifierChar_of_kindAt h)]
    · rw [h, kindAt_of_string h]
  rw [scanAtoms_cons (by rwa [hsame]), hsplit, hsame]

theorem scanAtoms_blanks (s : Text) (t : Text) :
    scanAtoms (s.map blankChar ++ t) = s.map (fun c => ⟨.text, [blankChar c]⟩) ++ scanAtoms t := by
  induction s with
  | nil => rfl
  | cons c s ih =>
    rw [List.map_cons, List.cons_append, scanAtoms_cons_text (kindAt_of_isBlank (isBlank_blankChar c) _),
      ih]
    rfl

/-- A text without its comments has the atoms of the text, and blanks in place of the comments. -/
theorem scanAtoms_blankComments (t : Text) :
    scanAtoms (blankComments t) = (scanAtoms t).flatMap Piece.blankAtoms := by
  induction t using atomInduction with
  | nil => simp [scanAtoms, scan]
  | text c t hkind ih =>
    rw [blankComments_cons_text hkind, scanAtoms_cons_text hkind,
      scanAtoms_cons_text (kindAt_blankComments hkind), ih]
    rfl
  | piece c t hkind ih =>
    rw [blankComments_cons, scanAtoms_cons hkind, List.flatMap_cons, ← ih]
    by_cases hcomment : kindAt c t = .comment
    · simp only [Piece.blankComment, Piece.blankAtoms, hcomment, if_true]
      exact scanAtoms_blanks _ _
    · simp only [Piece.blankComment, Piece.blankAtoms, hcomment, if_false]
      exact scanAtoms_append_blankComments hkind hcomment

end Scanning

section Lines

theorem blankComments_append_lineFeed {x y : Text} (h : InlineComments (x ++ '\n' :: y)) :
    blankComments (x ++ '\n' :: y) = blankComments (x ++ ['\n']) ++ blankComments y := by
  simp only [blankComments_eq_flatMap_scanAtoms, scanAtoms_append_lineFeed h y, List.flatMap_append]

theorem blankComments_concat (x : Text) : blankComments (x ++ ['\n']) = blankComments x ++ ['\n'] := by
  rw [blankComments_eq_flatMap_scanAtoms, blankComments_eq_flatMap_scanAtoms]
  rcases scanAtoms_concat (d := '\n') (by decide) (by decide) x with h | ⟨ps, p, -, -, hx, h⟩
  · rw [h, List.flatMap_append]
    rfl
  · rw [h, hx, List.flatMap_append, List.flatMap_append, List.append_assoc]
    congr 1
    by_cases hcomment : p.kind = .comment <;> simp [Piece.blankComment, hcomment, blankChar]

theorem rawLines_blankLines (t : Text) :
    Text.rawLines (blankLines t) = (Text.rawLines t).map blankComments := by
  have hlines := (Text.areLines_rawLines t).map (f := blankComments)
    (fun x h => List.eq_nil_of_length_eq_zero (by rw [← length_blankComments, h, List.length_nil]))
    (fun x hx hmem => (mem_blankComments hmem).elim (by decide) hx) blankComments_concat
  rw [blankLines, List.flatMap_def, hlines.rawLines_flatten]

/-- Where no comment spans lines, it does not matter that lines are read alone. -/
theorem blankLines_eq (h : InlineComments t) : blankLines t = blankComments t := by
  rw [blankLines]
  induction t using Text.lineInduction with
  | last x hx =>
    by_cases hnil : x = []
    · simp [hnil, Text.rawLines]
    · simp [Text.rawLines_of_notMem hnil hx]
  | line x y hx ih =>
    rw [Text.rawLines_append_lineFeed hx, List.flatMap_cons, ih h.of_append_lineFeed,
      blankComments_append_lineFeed h]

end Lines

section Markers

theorem filter_blankComments (line : Text) :
    (blankComments line).filter (!Text.isBlank ·) =
      (uncommented (scanAtoms line)).filter (!Text.isBlank ·) := by
  rw [blankComments_eq_flatMap_scanAtoms]
  induction scanAtoms line with
  | nil => rfl
  | cons p ps ih =>
    rw [List.flatMap_cons, uncommented_cons, List.filter_append, List.filter_append, ih]
    congr 1
    rw [Piece.blankComment]
    split
    · simp [List.filter_map, Function.comp_def, isBlank_blankChar]
    · rfl

theorem uncommented_sublist (line : Text) :
    (uncommented (scanAtoms line)).Sublist (blankComments line) := by
  rw [blankComments_eq_flatMap_scanAtoms]
  induction scanAtoms line with
  | nil => exact .slnil
  | cons p ps ih =>
    rw [List.flatMap_cons, uncommented_cons, Piece.blankComment]
    split
    · exact ih.trans (List.sublist_append_right _ _)
    · exact ih.append_left _

theorem code_blankComments (line : Text) :
    Marker.code (blankComments line) = Text.trim (blankComments line) := by
  have hatoms (p : Piece) : uncommented p.blankAtoms = p.blankComment := by
    rw [Piece.blankAtoms, Piece.blankComment]
    split
    · simp [uncommented, List.filter_map, Function.comp_def, List.flatMap_map, ← List.map_eq_flatMap]
    · rename_i h
      simp [uncommented, h]
  rw [Marker.code_eq, scanAtoms_blankComments, blankComments_eq_flatMap_scanAtoms]
  congr 1
  induction scanAtoms line with
  | nil => rfl
  | cons p ps ih => rw [List.flatMap_cons, List.flatMap_cons, uncommented_append, ih, hatoms]

namespace Marker

theorem isBlank_of_mem_code (h : (ofLine? line).isSome) : ∀ c ∈ code line, Text.isBlank c = false := by
  rw [ofLine?] at h
  split at h
  · exact Text.isBlank_of_sameName ‹_› (List.all_iff_forall_prop.1 (by decide))
  · split at h
    · exact Text.isBlank_of_sameName ‹_› (List.all_iff_forall_prop.1 (by decide))
    · cases h

theorem code_ne_nil (h : (ofLine? line).isSome) : code line ≠ [] := fun hnil => by
  have hhead := head?_of_ofLine? h
  simp [hnil] at hhead

theorem ofLine?_congr {line' : Text} (h : code line' = code line) : ofLine? line' = ofLine? line := by
  rw [ofLine?, ofLine?, h]

theorem code_blankComments_of_isSome (h : (ofLine? (blankComments line)).isSome) :
    code line = code (blankComments line) := by
  have hsolid := isBlank_of_mem_code h
  have hne := code_ne_nil h
  rw [code_blankComments] at hsolid hne ⊢
  have hfilter : (uncommented (scanAtoms line)).filter (!Text.isBlank ·) =
      Text.trim (blankComments line) := by
    rw [← filter_blankComments, ← Text.filter_trim]
    exact List.filter_eq_self.2 fun c hc => by simp [hsolid c hc]
  obtain ⟨u, v, hcut, hu, hv⟩ := Text.exists_eq_append_trim (blankComments line)
  have hsub := uncommented_sublist line
  rw [hcut] at hsub
  obtain ⟨x, v', hx, hxsub, hv'⟩ := List.sublist_append_iff.1 hsub
  obtain ⟨u', k, rfl, hu', hk⟩ := List.sublist_append_iff.1 hxsub
  have hnone {w w' : Text} (hw : ∀ c ∈ w, Text.isBlank c = true) (hsub : w'.Sublist w) :
      w'.filter (!Text.isBlank ·) = [] :=
    List.filter_eq_nil_iff.2 fun c hc => by simp [hw c (hsub.subset hc)]
  have hkeep : k.filter (!Text.isBlank ·) = k :=
    List.filter_eq_self.2 fun c hc => by simp [hsolid c (hk.subset hc)]
  have hfilter' := hfilter
  rw [hx, List.filter_append, List.filter_append, hnone hu hu', hnone hv hv', hkeep, List.nil_append,
    List.append_nil] at hfilter'
  rw [code_eq]
  exact Text.trim_eq_of_filter (by rw [hx, hfilter']) hne hfilter

/-- A marker is the same marker when the comments of its line are blanked, unless they part it, and
blanking makes no marker. -/
theorem ofLine?_blankComments (hwhole : IsWhole line) :
    ofLine? (blankComments line) = ofLine? line := by
  by_cases h : (ofLine? line).isSome
  · obtain ⟨p, hp, hkind, hcode⟩ := hwhole h
    obtain ⟨before, behind, hscan⟩ := List.append_of_mem hp
    have hcut : blankComments line =
        before.flatMap Piece.blankComment ++ code line ++ behind.flatMap Piece.blankComment := by
      rw [blankComments, hscan, List.flatMap_append, List.flatMap_cons, ← hcode, List.append_assoc]
      simp [Piece.blankComment, hkind]
    refine ofLine?_congr ?_
    rw [code_blankComments]
    refine Text.trim_eq_of_filter hcut (code_ne_nil h) ?_
    rw [filter_blankComments, ← Text.filter_trim, ← code_eq]
    exact List.filter_eq_self.2 fun c hc => by simp [isBlank_of_mem_code h c hc]
  · rw [Option.not_isSome_iff_eq_none.1 h, ← Option.not_isSome_iff_eq_none]
    intro hsome
    rw [ofLine?_congr (code_blankComments_of_isSome hsome)] at h
    exact h hsome

end Marker

end Markers

section Declarations

def atomsInFront (line : Text) : List Piece := (scanAtoms line).takeWhile (·.kind ≠ .comment)

/-- Whether a line declares in front of its comments what it declares without them. -/
def DeclaredInFront (line : Text) : Prop :=
  (declaredName? (blankComments line)).isSome → (declaration? (atomsInFront line)).isSome

instance : DecidablePred DeclaredInFront := fun line =>
  inferInstanceAs (Decidable (_ → (declaration? (atomsInFront line)).isSome = true))

theorem atomsInFront_append (line : Text) :
    atomsInFront line ++ (scanAtoms line).dropWhile (·.kind ≠ .comment) = scanAtoms line :=
  List.takeWhile_append_dropWhile

theorem leadingName?_cons_comment {ps : List Piece} (h : p.kind = .comment) :
    leadingName? (p :: ps) = none :=
  leadingName?_cons_other (by simp [Piece.isBlank, h]) (by simp [h])

theorem declaredName?_eq_inFront (line : Text) :
    declaredName? line = declaration? (atomsInFront line) := by
  rw [declaredName?_eq_declaration?, ← atomsInFront_append line]
  cases hbehind : (scanAtoms line).dropWhile (·.kind ≠ .comment) with
  | nil => rw [List.append_nil]
  | cons p ps =>
    have hkind : p.kind = .comment := by
      have hnot := List.head?_dropWhile_not (fun p : Piece => decide (p.kind ≠ .comment)) (scanAtoms line)
      rw [hbehind] at hnot
      simpa using hnot
    refine declaration?_append (leadingName?_cons_comment hkind) (fun hcolon => ?_) _
    rw [Option.some.inj hcolon] at hkind
    cases hkind

theorem declaredName?_blankComments_of_some (h : declaration? (atomsInFront line) = some name) :
    declaredName? (blankComments line) = some name := by
  have hfront : (atomsInFront line).flatMap Piece.blankAtoms = atomsInFront line := by
    have heach : ∀ p ∈ atomsInFront line, p.blankAtoms = [p] := fun p hp => by
      have hkind := List.mem_takeWhile_imp hp
      rw [Piece.blankAtoms, if_neg (by simpa using hkind)]
    rw [List.flatMap_def, List.map_congr_left heach, ← List.flatMap_def, List.flatMap_singleton']
  rw [declaredName?_eq_declaration?, scanAtoms_blankComments, ← atomsInFront_append line,
    List.flatMap_append, hfront]
  exact declaration?_append_of_some h _

/-- A line declares the same when its comments are blanked exactly when it declares in front of
them. -/
theorem declaredName?_blankComments_iff (line : Text) :
    declaredName? (blankComments line) = declaredName? line ↔ DeclaredInFront line := by
  rw [DeclaredInFront, declaredName?_eq_inFront line]
  cases hfront : declaration? (atomsInFront line) with
  | none => simp
  | some name => simp [declaredName?_blankComments_of_some hfront]

end Declarations

/-- With spaces in place of the comments that its lines have, each read alone, a text has the same
names to be made local: no comment parts a marker, and what a line declares stands in front of its
comments. Where no comment spans lines, these are all comments of the text. -/
theorem candidates_blankComments (hmarkers : ∀ line ∈ Text.rawLines t, Marker.IsWhole line)
    (hdeclared : ∀ line ∈ Text.rawLines t, DeclaredInFront line) :
    candidates (blankLines t) = candidates t ∧
      (InlineComments t → candidates (blankComments t) = candidates t) := by
  have hregions : Regions.ofText (blankLines t) = (Regions.ofText t).map (Regions.map blankComments) := by
    rw [Regions.ofText, rawLines_blankLines, List.zipIdx_map]
    refine Regions.ofLines_map fun l hl => Marker.ofLine?_blankComments (hmarkers l.1 ?_)
    exact List.fst_mem_of_mem_zipIdx hl
  have hlines : candidates (blankLines t) = candidates t := by
    rw [candidates, candidates, hregions]
    cases hr : Regions.ofText t with
    | error e => rfl
    | ok r =>
      rw [hr] at hregions
      have hnames : ∀ line ∈ r.outside, (declaredName? ∘ blankComments) line = declaredName? line :=
        fun line hline => (declaredName?_blankComments_iff line).2
          (hdeclared line ((Regions.outside_sublist_rawLines hr).subset hline))
      have hdistinct := Regions.declaredNames_eq hregions
      rw [Regions.map, List.filterMap_map, List.filterMap_congr hnames,
        ← Regions.declaredNames_eq hr] at hdistinct
      exact congrArg Except.ok hdistinct
  exact ⟨hlines, fun hcomments => blankLines_eq hcomments ▸ hlines⟩

/-- Comments behind a marker and behind declarations, in a string, and between lines. -/
theorem candidates_blankComments_behind :
    candidates ".beginglobal // a\na:\n.endglobal\n/* b: */\n.definelabel c, 1 ; d\ne:\"/* f\"" =
        .ok ["c", "e"] ∧
      candidates (blankComments
          ".beginglobal // a\na:\n.endglobal\n/* b: */\n.definelabel c, 1 ; d\ne:\"/* f\"") =
        .ok ["c", "e"] := by
  refine ⟨?names, ((candidates_blankComments ?markers ?declared).2 ?comments).trans ?names⟩
  case names => decide +kernel
  case markers => decide +kernel
  case declared => decide +kernel
  case comments => decide +kernel

/-- Comments that influence what is made local: one in front of a label and one within a directive,
one with a label and one with a marker in a line of their own, and one that parts a marker. -/
theorem candidates_influenced_by_comments :
    (candidates "/* c */ a:" = .ok [] ∧ candidates (blankComments "/* c */ a:") = .ok ["a"]) ∧
    (candidates ".definelabel /* c */ a, 1" = .ok [] ∧
      candidates (blankComments ".definelabel /* c */ a, 1") = .ok ["a"]) ∧
    (candidates "/*\na:\n*/" = .ok ["a"] ∧ candidates (blankComments "/*\na:\n*/") = .ok []) ∧
    (candidates "/*\n.beginglobal\n*/" = .error (.unbalancedRegion 2) ∧
      candidates (blankComments "/*\n.beginglobal\n*/") = .ok []) ∧
    (candidates ".begin/**/global\na:\n.endglobal" = .ok [] ∧
      candidates (blankComments ".begin/**/global\na:\n.endglobal") =
        .error (.unbalancedRegion 3)) := by
  decide +kernel

end CartPatch.Assembly
