import CartPatch.Proofs.Assembly.Completeness
import CartPatch.Proofs.Assembly.Marking

/-!
Scoping twice is scoping once. A line of the scoped text is a marked line of the text, even where it
lies in a comment that spans lines. So it is the same marker (`Marker.ofLine?_marked`) and it declares
the same name, which may have got its at sign (`declaredName?_marked`). What the scoped text declares
was therefore declared by the text, and has its at signs already (`scopeLabels_idempotent`).
-/

namespace CartPatch.Assembly

open Piece

variable {names : List Text} {line line' : Text} {ps qs : List Piece}

section Code

theorem exists_isBlank_eq_false {p : Piece} {t : Text} (h : p ∈ scan t) (hkind : p.kind ≠ .text) :
    ∃ c ∈ p.slice, Text.isBlank c = false := by
  fun_induction Piece.scan t with
  | case1 => cases h
  | case2 c t ih =>
    rcases List.mem_cons.1 h with rfl | hmem
    · refine ⟨c, List.mem_cons_self, ?_⟩
      rw [← Bool.not_eq_true]
      exact fun hblank => hkind (kindAt_of_isBlank hblank t)
    · exact ih hmem

/-- Outside comments marked pieces have the text of the pieces, or one of them has an at sign: a name,
or a string. -/
theorem uncommented_marked (h : List.Forall₂ (MarkedPiece names) ps qs) :
    uncommented qs = uncommented ps ∨
      '@' ∈ uncommented qs ∧ ∃ p ∈ ps, p.kind ≠ .text ∧ p.kind ≠ .comment ∧
        (p.kind = .identifier → p.slice ∈ names) := by
  induction h with
  | nil => exact .inl rfl
  | @cons p q ps qs hpq _ ih =>
    rw [uncommented_cons, uncommented_cons]
    cases hpq with
    | same =>
      rcases ih with heq | ⟨hat, p', hp', hpiece⟩
      · exact .inl (by rw [heq])
      · exact .inr ⟨List.mem_append_right _ hat, p', List.mem_cons_of_mem _ hp', hpiece⟩
    | name hmem => exact .inr ⟨by simp, _, List.mem_cons_self, by simp, by simp, fun _ => hmem⟩
    | @inside kind _ _ hname htext hat =>
      by_cases hcomment : kind = .comment
      · simp only [hcomment, if_true, List.nil_append]
        rcases ih with heq | ⟨hat, p', hp', hpiece⟩
        · exact .inl heq
        · exact .inr ⟨hat, p', List.mem_cons_of_mem _ hp', hpiece⟩
      · simp only [hcomment, if_false]
        exact .inr ⟨List.mem_append_left _ hat, _, List.mem_cons_self, htext, hcomment,
          fun h => absurd h hname⟩

theorem mem_scan_of_mem_scanAtoms {p : Piece} {t : Text} (h : p ∈ scanAtoms t)
    (hkind : p.kind ≠ .text) : p ∈ scan t := by
  obtain ⟨q, hq, hp⟩ := List.mem_flatMap.1 h
  rw [atoms] at hp
  split at hp
  · obtain ⟨c, -, rfl⟩ := List.mem_map.1 hp
    exact absurd rfl hkind
  · rwa [List.mem_singleton.1 hp]

theorem Marker.ofLine?_marked (hnames : ∀ name ∈ names, name.head? ≠ some '.')
    (hwhole : Marker.IsWhole line) (h : Marked names line line') :
    Marker.ofLine? line' = Marker.ofLine? line := by
  rcases uncommented_marked h.scanAtoms with heq | ⟨hat, p, hp, htext, hcomment, hmem⟩
  · rw [Marker.ofLine?, Marker.ofLine?, Marker.code_eq, Marker.code_eq, heq]
  · have hnone : Marker.ofLine? line' = none := by
      refine Marker.ofLine?_of_mem (.inl rfl) ?_
      rw [Marker.code_eq, Text.mem_trim (by decide)]
      exact hat
    rw [hnone]
    by_contra hsome
    have hmarker := Option.isSome_iff_ne_none.2 (Ne.symm hsome)
    obtain ⟨q, hq, hqkind, hcode⟩ := hwhole hmarker
    have hscan := mem_scan_of_mem_scanAtoms hp htext
    rcases Marker.eq_or_blank hq hqkind hcode hscan hcomment with rfl | hblank
    · refine hnames _ (hmem hqkind) ?_
      rw [hcode, Marker.head?_of_ofLine? hmarker]
    · obtain ⟨c, hc, hsolid⟩ := exists_isBlank_eq_false hscan htext
      simp [hblank c hc] at hsolid

end Code

section Declaration

theorem leadingName?_marked (h : List.Forall₂ (MarkedPiece names) ps qs) :
    leadingName? ps = none ∧ leadingName? qs = none ∨
      ∃ w w' rest rest', leadingName? ps = some (w, rest) ∧ leadingName? qs = some (w', rest') ∧
        MarkedWord names w w' ∧ List.Forall₂ (MarkedPiece names) rest rest' := by
  induction h with
  | nil => exact .inl ⟨rfl, rfl⟩
  | @cons p q ps qs hpq hrest ih =>
    cases hpq with
    | same =>
      by_cases hblank : p.isBlank = true
      · rw [leadingName?_cons_blank hblank, leadingName?_cons_blank hblank]
        exact ih
      · obtain ⟨kind, slice⟩ := p
        by_cases hkind : kind = .identifier
        · subst hkind
          exact .inr ⟨slice, slice, ps, qs, leadingName?_cons_identifier,
            leadingName?_cons_identifier, .inl rfl, hrest⟩
        · have hother := Bool.not_eq_true _ ▸ hblank
          exact .inl ⟨leadingName?_cons_other hother hkind, leadingName?_cons_other hother hkind⟩
    | name hmem =>
      exact .inr ⟨_, _, ps, qs, leadingName?_cons_identifier, leadingName?_cons_identifier,
        .inr ⟨hmem, rfl⟩, hrest⟩
    | inside hname htext _ =>
      exact .inl ⟨leadingName?_cons_other (by simp [Piece.isBlank, htext]) hname,
        leadingName?_cons_other (by simp [Piece.isBlank, htext]) hname⟩

theorem head?_marked (h : List.Forall₂ (MarkedPiece names) ps qs) :
    qs.head? = some colon ↔ ps.head? = some colon := by
  cases h with
  | nil => rfl
  | cons hpq _ =>
    cases hpq with
    | same => rfl
    | name => simp [colon]
    | inside _ htext _ => simp [colon, htext]

theorem isDefinition_marked {w w' : Text} (h : MarkedWord names w w') (hw' : isDefinition w' = true) :
    isDefinition w = true := by
  rcases h with rfl | ⟨-, rfl⟩
  · exact hw'
  · have hhead := Text.head?_of_sameName hw'
    simp at hhead

/-- What a marked line declares is declared by the line, or was before it got an at sign. -/
theorem declaredName?_marked {name' : Text} (h : Marked names line line')
    (hname' : declaredName? line' = some name') :
    ∃ name, declaredName? line = some name ∧ MarkedWord names name name' := by
  rw [declaredName?_eq_declaration?] at hname' ⊢
  rcases leadingName?_marked h.scanAtoms with ⟨-, hnone⟩ | ⟨w, w', rest, rest', hw, hw', hmark, hrest⟩
  · rw [declaration?_of_none hnone] at hname'
    cases hname'
  · rw [declaration?_of_some hw'] at hname'
    rw [declaration?_of_some hw]
    split at hname'
    · rename_i hcolon
      cases hname'
      exact ⟨w, by rw [if_pos ((head?_marked hrest).1 hcolon)], hmark⟩
    · rename_i hcolon
      split at hname'
      · rename_i hdirective
        obtain ⟨⟨name, behind⟩, hsecond, rfl⟩ := Option.map_eq_some_iff.1 hname'
        rcases leadingName?_marked hrest with ⟨-, hnone⟩ | ⟨v, v', _, _, hv, hv', hvmark, -⟩
        · rw [hnone] at hsecond
          cases hsecond
        · rw [hv'] at hsecond
          cases hsecond
          rw [if_neg (mt (head?_marked hrest).2 hcolon), if_pos (isDefinition_marked hmark hdirective), hv]
          exact ⟨v, rfl, hvmark⟩
      · cases hname'

end Declaration

section Regions

/-- Lines that correspond to the lines of a text, each being the same marker, have corresponding lines
outside the regions. -/
theorem Regions.ofLines_forall₂ {R : Text → Text → Prop} {ls ls' : List Text} {opened : Option Nat}
    {n : Nat} {r : Regions} (h : List.Forall₂ R ls ls')
    (hmarker : ∀ l l', R l l' → Marker.ofLine? l' = Marker.ofLine? l)
    (hr : Regions.ofLines opened (ls.zipIdx n) = .ok r) :
    ∃ r', Regions.ofLines opened (ls'.zipIdx n) = .ok r' ∧ List.Forall₂ R r.outside r'.outside := by
  induction h generalizing opened n r with
  | nil =>
    cases opened with
    | some => cases hr
    | none =>
      cases hr
      exact ⟨_, rfl, .nil⟩
  | @cons l l' ls ls' hl _ ih =>
    rw [List.zipIdx_cons] at hr ⊢
    have hsame := hmarker l l' hl
    cases hm : Marker.ofLine? l with
    | some m =>
      rw [hm] at hsame
      cases m <;> cases opened <;> simp only [Regions.ofLines, hm, hsame, reduceCtorEq] at hr ⊢ <;>
        exact ih hr
    | none =>
      rw [hm] at hsame
      simp only [Regions.ofLines, hm, hsame] at hr ⊢
      obtain ⟨s, hs, rfl⟩ := Outcome.map_eq_ok.1 hr
      obtain ⟨s', hs', hrest⟩ := ih hs
      refine ⟨_, Outcome.map_eq_ok.2 ⟨s', hs', rfl⟩, ?_⟩
      cases opened with
      | none => exact .cons hl hrest
      | some => exact hrest

theorem exists_of_forall₂ {α β : Type} {R : α → β → Prop} {as : List α} {bs : List β} {b : β}
    (h : List.Forall₂ R as bs) (hb : b ∈ bs) : ∃ a ∈ as, R a b := by
  induction h with
  | nil => cases hb
  | @cons a _ _ _ hab _ ih =>
    rcases List.mem_cons.1 hb with rfl | hb
    · exact ⟨a, List.mem_cons_self, hab⟩
    · obtain ⟨a', ha', hrel⟩ := ih hb
      exact ⟨a', List.mem_cons_of_mem _ ha', hrel⟩

theorem Regions.mem_declaredNames {t name : Text} {r : Regions} (hr : Regions.ofText t = .ok r) :
    name ∈ declaredNames r.outside.flatten ↔
      isScopable name ∧ ∃ line ∈ r.outside, declaredName? line = some name := by
  rw [Regions.declaredNames_eq hr]
  simp [mem_distinct, and_comm]

theorem Regions.ofText_marked {t u : Text} {r : Regions} (h : Marked names t u)
    (hnames : ∀ name ∈ names, name.head? ≠ some '.')
    (hmarkers : ∀ line ∈ Text.rawLines t, Marker.IsWhole line) (hr : Regions.ofText t = .ok r) :
    ∃ r', Regions.ofText u = .ok r' ∧
      List.Forall₂ (fun line line' => Marker.IsWhole line ∧ Marked names line line') r.outside
        r'.outside :=
  Regions.ofLines_forall₂ ((List.forall₂_and_left _ _).2 ⟨hmarkers, h.rawLines⟩)
    (fun _ _ hline => Marker.ofLine?_marked hnames hline.1 hline.2) hr

/-- A text that was scoped declares no name to be made local but names that were made local. -/
theorem declaredNames_subset {t u : Text} {r r' : Regions} (hr : Regions.ofText t = .ok r)
    (hr' : Regions.ofText u = .ok r')
    (h : List.Forall₂ (fun line line' => Marker.IsWhole line ∧ Marked names line line') r.outside
      r'.outside) :
    declaredNames r'.outside.flatten ⊆ declaredNames r.outside.flatten := by
  intro name hname
  obtain ⟨hscopable, line', hline', hdeclared⟩ := (Regions.mem_declaredNames hr').1 hname
  obtain ⟨line, hline, -, hmarked⟩ := exists_of_forall₂ h hline'
  obtain ⟨original, horiginal, hmark⟩ := declaredName?_marked hmarked hdeclared
  rcases hmark with rfl | ⟨-, rfl⟩
  · exact (Regions.mem_declaredNames hr).2 ⟨hscopable, line, hline, horiginal⟩
  · simp [isScopable] at hscopable

end Regions

/-- What was made local is left alone by names that have no at sign and were all made local. -/
theorem makeLocal_makeLocal_of_subset {first second : List Text} (hsub : second ⊆ first)
    (h : ∀ name ∈ second, name.head? ≠ some '@') (t : Text) :
    makeLocal second (makeLocal first t) = makeLocal first t := by
  rw [makeLocal_makeLocal h]
  refine makeLocal_congr (fun name => ?_) t
  rw [List.mem_append]
  exact or_iff_left_of_imp fun hname => hsub hname

/-- Scoping a scoped text changes nothing, wherever its comments and strings begin and end. -/
theorem scopeLabels_idempotent {t out : Text}
    (hmarkers : ∀ line ∈ Text.rawLines t, Marker.IsWhole line)
    (h : scopeLabels true t = .ok out) : scopeLabels true out = .ok out := by
  obtain ⟨r, hr, hout⟩ := Outcome.map_eq_ok.1 h
  rw [if_pos rfl] at hout
  have hnames : ∀ name ∈ declaredNames r.outside.flatten, name.head? ≠ some '.' :=
    fun name => head?_of_mem_declaredNames
  have hmarked := marked_makeLocal (declaredNames r.outside.flatten) t
  rw [hout] at hmarked
  obtain ⟨r', hr', hlines⟩ := Regions.ofText_marked hmarked hnames hmarkers hr
  have hlocal : ∀ name ∈ declaredNames r'.outside.flatten, name.head? ≠ some '@' := by
    intro name hname hhead
    obtain ⟨hscopable, -⟩ := (Regions.mem_declaredNames hr').1 hname
    obtain ⟨w, rfl⟩ := List.head?_eq_some_iff.1 hhead
    simp [isScopable] at hscopable
  have htwice := makeLocal_makeLocal_of_subset (declaredNames_subset hr hr' hlines) hlocal t
  rw [hout] at htwice
  exact Outcome.map_eq_ok.2 ⟨r', hr', by rw [if_pos rfl, htwice]⟩

/-- A name is declared in a comment that spans lines, and a string is left open in the line that
begins in a comment. -/
theorem scopeLabels_idempotent_comment :
    scopeLabels true "a: /*\nc: \" */ j a, c\n.beginglobal // */ c\nd:\n.endglobal\nj d \"c" =
      .ok "@a: /*\nc: \" */ j @a, @c\n.beginglobal // */ c\nd:\n.endglobal\nj d \"c" ∧
    scopeLabels true "@a: /*\nc: \" */ j @a, @c\n.beginglobal // */ c\nd:\n.endglobal\nj d \"c" =
      .ok "@a: /*\nc: \" */ j @a, @c\n.beginglobal // */ c\nd:\n.endglobal\nj d \"c" := by
  refine ⟨?once, scopeLabels_idempotent ?markers ?once⟩
  case once => decide +kernel
  case markers => decide +kernel

end CartPatch.Assembly
