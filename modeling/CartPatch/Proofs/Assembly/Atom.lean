import CartPatch.Proofs.Assembly.Region

/-!
What a line says, read from its atoms: the pieces of the line, of which text is cut into single
characters. The code of the line is what its atoms but the comments have (`Marker.code_eq`). A
declaration begins with the first identifier behind blanks, and the colon of a label is the atom behind
it (`declaredName?_eq_declaration?`). Nothing that ends the line after that matters, so a line declares
the same with and without its end (`declaredName?_chomp`).
-/

namespace CartPatch.Assembly

open Piece

def Piece.isBlank (p : Piece) : Bool := p.kind = .text && p.slice.all Text.isBlank

/-- The identifier that comes first when blanks are left out, and what stands behind it. -/
def leadingName? (ps : List Piece) : Option (Text × List Piece) :=
  match ps.dropWhile Piece.isBlank with
  | ⟨.identifier, name⟩ :: rest => some (name, rest)
  | _ => none

def colon : Piece := ⟨.text, [':']⟩

/-- Whether a name is the directive that gives the name behind it a value. -/
def isDefinition (name : Text) : Bool := Text.sameName name ".definelabel"

/-- The name that atoms declare: the name in front of a colon, or the name behind the directive. -/
def declaration? (ps : List Piece) : Option Text :=
  (leadingName? ps).bind fun (first, rest) =>
    if rest.head? = some colon then some first
    else if isDefinition first then (leadingName? rest).map Prod.fst
    else none

section Code

def uncommented (ps : List Piece) : Text := (ps.filter (·.kind ≠ .comment)).flatMap slice

theorem uncommented_cons (p : Piece) (ps : List Piece) :
    uncommented (p :: ps) = (if p.kind = .comment then [] else p.slice) ++ uncommented ps := by
  by_cases h : p.kind = .comment <;> simp [uncommented, h]

theorem uncommented_append (ps qs : List Piece) :
    uncommented (ps ++ qs) = uncommented ps ++ uncommented qs := by
  simp [uncommented]

theorem uncommented_eq_flatMap (ps : List Piece) :
    uncommented ps = ps.flatMap fun p => if p.kind = .comment then [] else p.slice := by
  induction ps with
  | nil => rfl
  | cons p ps ih => rw [uncommented_cons, ih, List.flatMap_cons]

theorem uncommented_scanAtoms (t : Text) : uncommented (scanAtoms t) = uncommented (scan t) := by
  rw [uncommented_eq_flatMap, uncommented_eq_flatMap]
  exact flatMap_scanAtoms (by simp) t

theorem Marker.code_eq (line : Text) : Marker.code line = Text.trim (uncommented (scanAtoms line)) := by
  rw [uncommented_scanAtoms]
  rfl

end Code

section Leading

variable {p : Piece} {ps qs : List Piece} {name : Text}

@[simp] theorem leadingName?_nil : leadingName? [] = none := rfl

theorem leadingName?_cons_blank (h : p.isBlank = true) : leadingName? (p :: ps) = leadingName? ps := by
  simp [leadingName?, h]

theorem leadingName?_cons_identifier :
    leadingName? (⟨.identifier, name⟩ :: ps) = some (name, ps) := by
  simp [leadingName?, Piece.isBlank]

theorem leadingName?_cons_other (hblank : p.isBlank = false) (hkind : p.kind ≠ .identifier) :
    leadingName? (p :: ps) = none := by
  rw [leadingName?, List.dropWhile_cons_of_neg (by simp [hblank])]
  split
  · rename_i h
    obtain ⟨rfl, -⟩ := List.cons.inj h
    exact absurd rfl hkind
  · rfl

@[simp] theorem leadingName?_colon : leadingName? (colon :: ps) = none :=
  leadingName?_cons_other (by decide) (by decide)

theorem leadingName?_append (h : leadingName? qs = none) (ps : List Piece) :
    leadingName? (ps ++ qs) = (leadingName? ps).map fun (name, rest) => (name, rest ++ qs) := by
  induction ps with
  | nil => simp [h]
  | cons p ps ih =>
    by_cases hblank : p.isBlank = true
    · rw [List.cons_append, leadingName?_cons_blank hblank, leadingName?_cons_blank hblank, ih]
    · obtain ⟨kind, slice⟩ := p
      by_cases hkind : kind = .identifier
      · subst hkind
        rw [List.cons_append, leadingName?_cons_identifier, leadingName?_cons_identifier]
        rfl
      · have hother := Bool.not_eq_true _ ▸ hblank
        rw [List.cons_append, leadingName?_cons_other hother hkind,
          leadingName?_cons_other hother hkind]
        rfl

theorem leadingName?_append_of_some {rest : List Piece} (h : leadingName? ps = some (name, rest))
    (qs : List Piece) : leadingName? (ps ++ qs) = some (name, rest ++ qs) := by
  induction ps with
  | nil => cases h
  | cons p ps ih =>
    by_cases hblank : p.isBlank = true
    · rw [leadingName?_cons_blank hblank] at h
      rw [List.cons_append, leadingName?_cons_blank hblank, ih h]
    · obtain ⟨kind, slice⟩ := p
      by_cases hkind : kind = .identifier
      · subst hkind
        rw [leadingName?_cons_identifier] at h
        obtain ⟨rfl, rfl⟩ := Prod.mk.inj (Option.some.inj h)
        rw [List.cons_append, leadingName?_cons_identifier]
      · rw [leadingName?_cons_other (Bool.not_eq_true _ ▸ hblank) hkind] at h
        cases h

theorem declaration?_of_none (h : leadingName? ps = none) : declaration? ps = none := by
  rw [declaration?, h]
  rfl

theorem declaration?_of_some {rest : List Piece} (h : leadingName? ps = some (name, rest)) :
    declaration? ps =
      if rest.head? = some colon then some name
      else if isDefinition name then (leadingName? rest).map Prod.fst
      else none := by
  rw [declaration?, h]
  rfl

theorem declaration?_append (hname : leadingName? qs = none) (hcolon : qs.head? ≠ some colon)
    (ps : List Piece) : declaration? (ps ++ qs) = declaration? ps := by
  have happend := leadingName?_append hname ps
  cases hleading : leadingName? ps with
  | none =>
    rw [hleading] at happend
    rw [declaration?_of_none hleading, declaration?_of_none happend]
  | some leading =>
    obtain ⟨first, rest⟩ := leading
    rw [hleading] at happend
    have hhead : (rest ++ qs).head? = some colon ↔ rest.head? = some colon := by
      cases rest with
      | nil => simpa using hcolon
      | cons => rfl
    rw [declaration?_of_some hleading, declaration?_of_some happend, leadingName?_append hname,
      Option.map_map]
    simp only [hhead]
    rfl

theorem declaration?_append_of_some (h : declaration? ps = some name) (qs : List Piece) :
    declaration? (ps ++ qs) = some name := by
  cases hleading : leadingName? ps with
  | none =>
    rw [declaration?_of_none hleading] at h
    cases h
  | some leading =>
    obtain ⟨first, rest⟩ := leading
    rw [declaration?_of_some hleading] at h
    rw [declaration?_of_some (leadingName?_append_of_some hleading qs)]
    cases rest with
    | nil =>
      split at h
      · cases ‹_ = some colon›
      · split at h <;> cases h
    | cons p rest =>
      rw [List.cons_append, List.head?_cons] at *
      split at h
      · rename_i hcolon
        rw [if_pos hcolon, h]
      · rename_i hcolon
        rw [if_neg hcolon]
        split at h
        · obtain ⟨⟨second, behind⟩, hsecond, rfl⟩ := Option.map_eq_some_iff.1 h
          have hlonger := leadingName?_append_of_some hsecond qs
          rw [List.cons_append] at hlonger
          rw [if_pos ‹_›, hlonger]
          rfl
        · cases h

end Leading

section Lines

variable {line : Text}

@[elab_as_elim]
theorem Piece.atomInduction {motive : Text → Prop} (nil : motive [])
    (text : ∀ c t, kindAt c t = .text → motive t → motive (c :: t))
    (piece : ∀ c t, kindAt c t ≠ .text → motive (split c t).2 → motive (c :: t)) (t : Text) :
    motive t := by
  cases t with
  | nil => exact nil
  | cons c t =>
    by_cases h : kindAt c t = .text
    · exact text c t h (atomInduction nil text piece t)
    · have := length_split_le c t
      exact piece c t h (atomInduction nil text piece (split c t).2)
termination_by t.length

theorem Piece.kindAt_colon (t : Text) : kindAt ':' t = .text := by
  have hplain : isIdentifierChar ':' = false := by decide
  simp [kindAt, opensComment, opensLineComment_cons, opensBlockComment_cons, hplain]

theorem head?_scanAtoms_eq_colon (t : Text) :
    (scanAtoms t).head? = some colon ↔ t.head? = some ':' := by
  cases t with
  | nil => simp [scanAtoms, scan]
  | cons c t =>
    by_cases h : kindAt c t = .text
    · simp [scanAtoms_cons_text h, colon]
    · have hc : c ≠ ':' := by
        rintro rfl
        exact h (kindAt_colon t)
      simp [scanAtoms_cons h, colon, h, hc]

theorem Piece.kindAt_of_isBlank {c : Char} (h : Text.isBlank c = true) (t : Text) :
    kindAt c t = .text := by
  have hname : isIdentifierChar c = false := by
    rw [← Bool.not_eq_true]
    exact fun hc => by simp [isBlank_of_isIdentifierChar hc] at h
  have hother : c ≠ ';' ∧ c ≠ '/' ∧ c ≠ '"' := by
    refine ⟨?_, ?_, ?_⟩ <;>
    · rintro rfl
      revert h
      decide
  simp [kindAt, opensComment, opensLineComment_cons, opensBlockComment_cons, hname, hother]

theorem isBlank_of_trim {t : Text} (h : Text.trim t = []) : ∀ c ∈ t, Text.isBlank c = true := by
  intro c hc
  by_contra hblank
  have hmem := (Text.mem_trim (Bool.not_eq_true _ ▸ hblank)).2 hc
  rw [h] at hmem
  cases hmem

theorem leadingName?_blanks {s : Text} (h : ∀ c ∈ s, Text.isBlank c = true) (ps : List Piece) :
    leadingName? (s.map (fun c => ⟨.text, [c]⟩) ++ ps) = leadingName? ps := by
  induction s with
  | nil => rfl
  | cons c s ih =>
    obtain ⟨hc, hs⟩ := List.forall_mem_cons.1 h
    rw [List.map_cons, List.cons_append, leadingName?_cons_blank (by simp [Piece.isBlank, hc]), ih hs]

theorem leadingName?_text {s : Text} (h : ¬∀ c ∈ s, Text.isBlank c = true) (ps : List Piece) :
    leadingName? (s.map (fun c => ⟨.text, [c]⟩) ++ ps) = none := by
  induction s with
  | nil => exact absurd (by simp) h
  | cons c s ih =>
    rw [List.map_cons, List.cons_append]
    by_cases hc : Text.isBlank c = true
    · rw [leadingName?_cons_blank (by simp [Piece.isBlank, hc])]
      exact ih fun hs => h (List.forall_mem_cons.2 ⟨hc, hs⟩)
    · exact leadingName?_cons_other (by simp [Piece.isBlank, hc]) (by simp)

/-- Where a line begins with a name, it has the name behind text that cannot be part of it. Both the
pieces that count and the atoms then go on with what is behind the name. -/
theorem solidPieces_cases (line : Text) :
    (∃ c name w r, line = w ++ c :: name ++ r ∧ (∀ d ∈ w, isIdentifierChar d = false) ∧
        isIdentifierChar c = true ∧
        solidPieces line = ⟨.identifier, c :: name⟩ :: solidPieces r ∧
        leadingName? (scanAtoms line) = some (c :: name, scanAtoms r)) ∨
      (∀ name ps, solidPieces line ≠ ⟨.identifier, name⟩ :: ps) ∧
        leadingName? (scanAtoms line) = none := by
  fun_induction Piece.scan line with
  | case1 => exact .inr ⟨by simp [solidPieces, scan], by simp [scanAtoms, scan]⟩
  | case2 c t ih =>
    have hcut := append_split c t
    rw [solidPieces_cons]
    cases hkind : kindAt c t with
    | text =>
      have hatoms : scanAtoms (c :: t) =
          (c :: (split c t).1).map (fun c => ⟨.text, [c]⟩) ++ scanAtoms (split c t).2 := by
        simp [scanAtoms, scan, atoms, hkind]
      by_cases hblank : Text.trim (c :: (split c t).1) = []
      · rw [if_pos ⟨rfl, hblank⟩, hatoms, leadingName?_blanks (isBlank_of_trim hblank)]
        rcases ih with ⟨d, name, w, r, hr, hw, hrest⟩ | hnone
        · refine .inl ⟨d, name, c :: (split c t).1 ++ w, r, ?_, ?_, hrest⟩
          · simp only [List.cons_append, List.append_assoc] at hr ⊢
            rw [← hr, hcut]
          · exact List.forall_mem_append.2 ⟨fun d => isIdentifierChar_of_mem_split hkind, hw⟩
        · exact .inr hnone
      · have hsolid : ¬∀ d ∈ c :: (split c t).1, Text.isBlank d = true := fun hall => by
          have hnil : Text.trim (c :: (split c t).1) = [] := by
            simp [Text.trim, Text.trimEnd, Text.trimStart, List.dropWhile_eq_nil_iff.2 hall]
          exact hblank hnil
        rw [if_neg (by simp [hblank]), hatoms, leadingName?_text hsolid]
        exact .inr ⟨by simp, rfl⟩
    | identifier =>
      rw [if_neg (by simp), scanAtoms_cons (by simp [hkind]), hkind, leadingName?_cons_identifier]
      exact .inl ⟨c, (split c t).1, [], (split c t).2, by simp [hcut], by simp,
        isIdentifierChar_of_kindAt hkind, rfl, rfl⟩
    | comment | string =>
      rw [if_neg (by simp), scanAtoms_cons (by simp [hkind]), hkind,
        leadingName?_cons_other (by simp [Piece.isBlank]) (by simp)]
      exact .inr ⟨by simp, rfl⟩

theorem solidPieces_cons_colon (t : Text) :
    ∃ s ps, solidPieces (':' :: t) = ⟨.text, ':' :: s⟩ :: ps := by
  have hsolid : Text.trim (':' :: (split ':' t).1) ≠ [] := fun h => by
    have hblank := isBlank_of_trim h ':' (by simp)
    revert hblank
    decide
  rw [solidPieces_cons, if_neg (by simp [hsolid]), kindAt_colon]
  exact ⟨_, _, rfl⟩

/-- What a line declares can be read from its atoms. -/
theorem declaredName?_eq_declaration? (line : Text) :
    declaredName? line = declaration? (scanAtoms line) := by
  rcases solidPieces_cases line with ⟨c, name, w, r, rfl, hw, hc, hsolid, hleading⟩ | ⟨hsolid, hleading⟩
  · have hfirst : c ∉ w := fun hmem => by simp [hw c hmem] at hc
    have hbehind : Text.afterFirst? (c :: name) (w ++ c :: name ++ r) = some r :=
      Text.afterFirst?_append hfirst name r
    rw [declaration?_of_some hleading]
    by_cases hcolon : r.head? = some ':'
    · obtain ⟨t, rfl⟩ := List.head?_eq_some_iff.1 hcolon
      obtain ⟨s, ps, hps⟩ := solidPieces_cons_colon t
      have hstart : (Text.trimStart (':' :: s)).head? = some ':' := by
        rw [Text.trimStart, List.dropWhile_cons_of_neg (by decide)]
        rfl
      rw [hps] at hsolid
      rw [if_pos ((head?_scanAtoms_eq_colon (':' :: t)).2 rfl), declaredName?, hsolid]
      simp only [hstart, hbehind, Option.bind_some, List.head?_cons, and_self, if_true]
    · rw [if_neg (mt (head?_scanAtoms_eq_colon r).1 hcolon)]
      rcases solidPieces_cases r with ⟨d, second, _, _, _, -, -, hsecond, hlead⟩ | ⟨hsecond, hlead⟩
      · rw [hsecond] at hsolid
        rw [declaredName?_directive hsolid, hlead]
        rfl
      · have hnone : declaredName? (w ++ c :: name ++ r) = none := by
          rw [declaredName?, hsolid]
          split
          · rename_i h
            exact absurd (List.cons.inj h).2 (hsecond _ _)
          · rename_i h
            obtain ⟨hlabel, -⟩ := List.cons.inj h
            obtain rfl := (Piece.mk.inj hlabel).2
            simp only [hbehind, Option.bind_some, hcolon, and_false, if_false]
          · rfl
        rw [hnone, hlead]
        split <;> rfl
  · rw [declaration?_of_none hleading, declaredName?]
    split
    · exact absurd ‹_› (hsolid _ _)
    · exact absurd ‹_› (hsolid _ _)
    · rfl

/-- A character at the end of a text is an atom of its own, or the last piece, which is no text and no
name, goes on with it. -/
theorem scanAtoms_concat {d : Char} (hd : IsInert d) (htext : kindAt d [] = .text) (t : Text) :
    scanAtoms (t ++ [d]) = scanAtoms t ++ [⟨.text, [d]⟩] ∨
      ∃ ps p, p.kind ≠ .identifier ∧ p.kind ≠ .text ∧ scanAtoms t = ps ++ [p] ∧
        scanAtoms (t ++ [d]) = ps ++ [⟨p.kind, p.slice ++ [d]⟩] := by
  induction t using atomInduction with
  | nil =>
    rw [List.nil_append, scanAtoms_cons_text htext]
    exact .inl (by simp [scanAtoms, scan])
  | text c t hkind ih =>
    rw [List.cons_append, scanAtoms_cons_text hkind, scanAtoms_cons_text ((kindAt_concat hd).trans hkind)]
    rcases ih with ih | ⟨ps, p, hname, hpiece, ht, ih⟩
    · exact .inl (by rw [ih, List.cons_append])
    · exact .inr ⟨_ :: ps, p, hname, hpiece, by rw [ht, List.cons_append], by rw [ih, List.cons_append]⟩
  | piece c t hkind ih =>
    rw [List.cons_append, scanAtoms_cons hkind, scanAtoms_cons ((kindAt_concat hd).trans_ne hkind),
      kindAt_concat hd]
    rcases split_concat hd c t with hsplit | ⟨hname, hshort, hlong⟩
    · rw [hsplit]
      rcases ih with ih | ⟨ps, p, hname, hpiece, ht, ih⟩
      · exact .inl (by rw [ih, List.cons_append])
      · exact .inr ⟨_ :: ps, p, hname, hpiece, by rw [ht, List.cons_append],
          by rw [ih, List.cons_append]⟩
    · rw [hshort, hlong]
      exact .inr ⟨[], ⟨kindAt c t, c :: t⟩, hname, hkind, by simp [scanAtoms, scan],
        by simp [scanAtoms, scan]⟩

theorem declaredName?_concat {d : Char} (hd : IsInert d) (htext : kindAt d [] = .text)
    (hblank : Text.isBlank d = true) (t : Text) : declaredName? (t ++ [d]) = declaredName? t := by
  rw [declaredName?_eq_declaration?, declaredName?_eq_declaration?]
  rcases scanAtoms_concat hd htext t with h | ⟨ps, p, hname, hpiece, ht, h⟩
  · have hcolon : d ≠ ':' := by
      rintro rfl
      revert hblank
      decide
    rw [h, declaration?_append]
    · rw [leadingName?_cons_blank (by simp [Piece.isBlank, hblank]), leadingName?_nil]
    · simpa [colon] using hcolon
  · have hother (slice : Text) : leadingName? [⟨p.kind, slice⟩] = none :=
      leadingName?_cons_other (by simp [Piece.isBlank, hpiece]) hname
    have hcolon (slice : Text) : [⟨p.kind, slice⟩].head? ≠ some colon := by simp [colon, hpiece]
    rw [h, ht, declaration?_append (hother _) (hcolon _), declaration?_append (hother _) (hcolon _)]

theorem declaredName?_chomp (line : Text) : declaredName? (Text.chomp line) = declaredName? line := by
  have hfeed (m : Text) : declaredName? (m ++ ['\n']) = declaredName? m :=
    declaredName?_concat (by decide) (by decide) (by decide) m
  have hreturn (m : Text) : declaredName? (m ++ ['\r']) = declaredName? m :=
    declaredName?_concat (by decide) (by decide) (by decide) m
  rcases Text.chomp_cases line with ⟨m, rfl, hm⟩ | ⟨m, rfl, -, hm⟩ | ⟨-, hline⟩
  · have hend : m ++ ['\r', '\n'] = m ++ ['\r'] ++ ['\n'] := by simp
    rw [hm, hend, hfeed, hreturn]
  · rw [hm, hfeed]
  · rw [hline]

theorem Regions.declaredNames_eq {t : Text} {r : Regions} (hr : Regions.ofText t = .ok r) :
    declaredNames r.outside.flatten =
      distinct ((r.outside.filterMap declaredName?).filter isScopable) := by
  rw [declaredNames, Regions.lines_outside hr, List.filterMap_map]
  simp only [Function.comp_def, declaredName?_chomp]

end Lines

end CartPatch.Assembly
