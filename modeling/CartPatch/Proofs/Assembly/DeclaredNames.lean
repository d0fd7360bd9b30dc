import CartPatch.Proofs.Assembly.MarkerOrder
import CartPatch.Proofs.Assembly.Marking
import CartPatch.Proofs.Text.Words

/-!
Which names are made local. A line declares a name as a label or by the directive (`Declares`), which
the pieces of the line show just so, whatever comments and strings the line has
(`declaredName?_eq_some`). The names that become local are those that the lines outside the regions
declare, unless how they begin forbids it (`candidates_declared`).
-/

namespace CartPatch.Assembly

open Piece

variable {t u line name : Text}

section Declaration

/-- What it is for a line to declare a name: behind blanks the line has the name and a colon, with no
blank between them, or the directive, blanks and then the name. -/
inductive Declares : Text → Text → Prop where
  | label {blanks name rest : Text} (hblanks : Text.IsGap blanks) (hname : IsWord name) :
      Declares (blanks ++ name ++ ':' :: rest) name
  | definition {blanks directive gap name rest : Text} (hblanks : Text.IsGap blanks)
      (hdirective : isDefinition directive) (hgap : Text.IsGap gap) (hne : gap ≠ [])
      (hname : IsWord name) (hrest : EndsWord rest) :
      Declares (blanks ++ directive ++ gap ++ name ++ rest) name

theorem isIdentifierChar_of_toLower {c : Char} (h : isIdentifierChar c.toLower = true) :
    isIdentifierChar c = true := by
  unfold Char.toLower at h
  split at h
  · rename_i hupper
    have halnum : c.isAlphanum = true := by
      have hbounds : 65 ≤ c.val ∧ c.val ≤ 90 := hupper
      delta Char.isAlphanum Char.isAlpha Char.isUpper
      simp [hbounds]
    rw [← Text.isAlphanumeric_of_lt (Text.toNat_lt_of_isAlphanum halnum)] at halnum
    simp [isIdentifierChar, halnum]
  · exact h

theorem isWord_of_isDefinition (h : isDefinition name = true) : IsWord name := by
  have hlower : Text.lower name = ".definelabel" := eq_of_beq h
  refine ⟨?_, fun c hc => isIdentifierChar_of_toLower ?_⟩
  · rintro rfl
    cases hlower
  · have hword : ∀ d ∈ (".definelabel" : Text), isIdentifierChar d = true :=
      List.all_eq_true.1 (by decide)
    rw [← hlower] at hword
    exact hword _ (List.mem_map_of_mem hc)

theorem endsWord_append_of_isGap {gap : Text} (h : Text.IsGap gap) (hne : gap ≠ []) (t : Text) :
    EndsWord (gap ++ t) := by
  obtain ⟨c, gap, rfl⟩ := List.exists_cons_of_ne_nil hne
  rintro d ⟨⟩
  have hblank : Text.isBlank c = true := h c List.mem_cons_self
  rw [← Bool.not_eq_true]
  exact fun hword => by simp [isBlank_of_isIdentifierChar hword] at hblank

theorem IsWord.not_endsWord (h : IsWord name) (t : Text) : ¬EndsWord (name ++ t) := by
  obtain ⟨hne, hall⟩ := h
  obtain ⟨c, name, rfl⟩ := List.exists_cons_of_ne_nil hne
  exact fun hends => by simpa [hall c List.mem_cons_self] using hends c rfl

theorem leadingName?_scanAtoms_append {blanks : Text} (h : Text.IsGap blanks) (t : Text) :
    leadingName? (scanAtoms (blanks ++ t)) = leadingName? (scanAtoms t) := by
  induction blanks with
  | nil => rfl
  | cons c blanks ih =>
    obtain ⟨hc, hblanks⟩ := List.forall_mem_cons.1 h
    rw [List.cons_append, scanAtoms_cons_text (kindAt_of_isBlank hc _),
      leadingName?_cons_blank (by simp [Piece.isBlank, hc]), ih hblanks]

theorem leadingName?_scanAtoms_cons {c : Char} (hname : isIdentifierChar c = false)
    (hblank : Text.isBlank c = false) (t : Text) : leadingName? (scanAtoms (c :: t)) = none := by
  have hkind : kindAt c t ≠ .identifier := fun h => by simp [isIdentifierChar_of_kindAt h] at hname
  by_cases htext : kindAt c t = .text
  · rw [scanAtoms_cons_text htext]
    exact leadingName?_cons_other (by simp [Piece.isBlank, hblank]) (by simp)
  · rw [scanAtoms_cons htext]
    exact leadingName?_cons_other (by simp [Piece.isBlank, htext]) hkind

theorem leadingName?_scanAtoms {rest : List Piece} : leadingName? (scanAtoms t) = some (name, rest) ↔
    ∃ blanks u, t = blanks ++ name ++ u ∧ Text.IsGap blanks ∧ IsWord name ∧ EndsWord u ∧
      rest = scanAtoms u := by
  constructor
  · intro h
    induction t using wordInduction with
    | nil => simp [scanAtoms, scan] at h
    | other c t hc ih =>
      by_cases hblank : Text.isBlank c = true
      · rw [scanAtoms_cons_text (kindAt_of_isBlank hblank t),
          leadingName?_cons_blank (by simp [Piece.isBlank, hblank])] at h
        obtain ⟨blanks, u, rfl, hblanks, hname⟩ := ih h
        exact ⟨c :: blanks, u, rfl, List.forall_mem_cons.2 ⟨hblank, hblanks⟩, hname⟩
      · rw [leadingName?_scanAtoms_cons hc (Bool.not_eq_true _ ▸ hblank)] at h
        cases h
    | word w t hw ht ih =>
      rw [scanAtoms_word hw ht, leadingName?_cons_identifier] at h
      cases h
      exact ⟨[], t, rfl, by simp [Text.IsGap], hw, ht, rfl⟩
  · rintro ⟨blanks, u, rfl, hblanks, hname, hu, rfl⟩
    rw [List.append_assoc, leadingName?_scanAtoms_append hblanks, scanAtoms_word hname hu,
      leadingName?_cons_identifier]

/-- What a line with a word behind blanks declares, by what stands behind the word. -/
theorem declaredName?_append {blanks : Text} (hblanks : Text.IsGap blanks) (hname : IsWord name)
    (hu : EndsWord u) : declaredName? (blanks ++ name ++ u) =
      if u.head? = some ':' then some name
      else if isDefinition name then (leadingName? (scanAtoms u)).map Prod.fst
      else none := by
  have hleading : leadingName? (scanAtoms (blanks ++ name ++ u)) = some (name, scanAtoms u) :=
    leadingName?_scanAtoms.2 ⟨blanks, u, rfl, hblanks, hname, hu, rfl⟩
  rw [declaredName?_eq_declaration?, declaration?_of_some hleading]
  simp only [head?_scanAtoms_eq_colon]

theorem Declares.of_declaredName? (h : declaredName? line = some name) : Declares line name := by
  cases hleading : leadingName? (scanAtoms line) with
  | none =>
    rw [declaredName?_eq_declaration?, declaration?_of_none hleading] at h
    cases h
  | some leading =>
    obtain ⟨blanks, u, rfl, hblanks, hfirst, hu, -⟩ := leadingName?_scanAtoms.1 hleading
    rw [declaredName?_append hblanks hfirst hu] at h
    split at h
    · rename_i hcolon
      obtain ⟨t, rfl⟩ := List.head?_eq_some_iff.1 hcolon
      cases h
      exact .label hblanks hfirst
    · split at h
      · rename_i hdefinition
        obtain ⟨⟨second, rest⟩, hsecond, rfl⟩ := Option.map_eq_some_iff.1 h
        obtain ⟨gap, v, rfl, hgap, hname, hv, -⟩ := leadingName?_scanAtoms.1 hsecond
        have hne : gap ≠ [] := by
          -- Without a blank the first word would go on with the second.
          rintro rfl
          exact hname.not_endsWord v hu
        simpa using Declares.definition hblanks hdefinition hgap hne hname hv
      · cases h

theorem declaredName?_eq_some : declaredName? line = some name ↔ Declares line name := by
  refine ⟨.of_declaredName?, ?_⟩
  rintro (⟨hblanks, hname⟩ | ⟨hblanks, hdirective, hgap, hne, hname, hrest⟩)
  · rw [declaredName?_append hblanks hname (by rintro _ ⟨⟩; decide)]
    rfl
  · rename_i blanks directive gap rest
    have hends := endsWord_append_of_isGap hgap hne (name ++ rest)
    have hcolon : (gap ++ (name ++ rest)).head? ≠ some ':' := by
      obtain ⟨c, gap, rfl⟩ := List.exists_cons_of_ne_nil hne
      rintro ⟨⟩
      exact absurd (hgap ':' List.mem_cons_self) (by decide)
    have hsecond := leadingName?_scanAtoms.2 ⟨gap, rest, rfl, hgap, hname, hrest, rfl⟩
    rw [List.append_assoc gap] at hsecond
    rw [List.append_assoc _ name, List.append_assoc _ gap,
      declaredName?_append hblanks (isWord_of_isDefinition hdirective) hends, if_neg hcolon,
      if_pos hdirective, hsecond]
    rfl

theorem Declares.isWord (h : Declares line name) : IsWord name := by
  cases h with
  | label _ hname => exact hname
  | definition _ _ _ _ hname _ => exact hname

end Declaration

section Order

variable {α β : Type} {R : α → β → Prop} {l : List α} {a b : β}

/-- The first member of a list that has a relation to `a` stands before any that has it to `b`. -/
def FirstBefore (R : α → β → Prop) (l : List α) (a b : β) : Prop :=
  ∃ before x behind, l = before ++ x :: behind ∧ R x a ∧ ∀ y ∈ before ++ [x], ¬R y b

theorem FirstBefore.cons (h : FirstBefore R l a b) {x : α} (hx : ¬R x b) :
    FirstBefore R (x :: l) a b := by
  obtain ⟨before, y, behind, rfl, hy, hnot⟩ := h
  exact ⟨x :: before, y, behind, rfl, hy, List.forall_mem_cons.2 ⟨hx, hnot⟩⟩

variable [DecidableEq β]

/-- The values of a partial function are kept in the order in which members first have them. -/
theorem pairwise_distinct (f : α → Option β) (l : List α) :
    (distinct (l.filterMap f)).Pairwise (FirstBefore (f · = some ·) l) := by
  induction l with
  | nil => exact .nil
  | cons x l ih =>
    cases hx : f x with
    | none =>
      rw [List.filterMap_cons_none hx]
      exact ih.imp fun h => h.cons (by simp [hx])
    | some a =>
      have hother {b : β} (hb : decide (b ≠ a) = true) : f x ≠ some b := by
        rw [hx]
        rintro ⟨⟩
        simp at hb
      rw [List.filterMap_cons_some hx, distinct, List.pairwise_cons, List.pairwise_filter]
      constructor
      · intro b hb
        exact ⟨[], x, l, rfl, hx, by simpa using hother (List.mem_filter.1 hb).2⟩
      · exact ih.imp fun h _ hb => h.cons (hother hb)

theorem distinct_filter (p : β → Bool) (l : List β) : distinct (l.filter p) = (distinct l).filter p := by
  induction l with
  | nil => rfl
  | cons a l ih =>
    rw [distinct]
    cases h : p a with
    | true =>
      rw [List.filter_cons_of_pos h, List.filter_cons_of_pos h, distinct, ih, List.filter_filter,
        List.filter_filter]
      simp only [Bool.and_comm]
    | false =>
      have hother : ∀ b, p b = true → b ≠ a := by
        rintro b hb rfl
        simp [h] at hb
      rw [List.filter_cons_of_neg (by simp [h]), List.filter_cons_of_neg (by simp [h]), ih,
        List.filter_filter]
      refine List.filter_congr fun b _ => ?_
      cases hb : p b with
      | true => simpa using hother b hb
      | false => rfl

end Order

structure MayBeLocal (name : Text) : Prop where
  not_local : name.head? ≠ some '@'
  not_directive : name.head? ≠ some '.'
  not_number : ∀ c ∈ name.head?, c.isDigit = false
  not_reserved : ¬reservedStart <+: name

theorem isScopable_iff (h : name ≠ []) : isScopable name = true ↔ MayBeLocal name := by
  obtain ⟨c, name, rfl⟩ := List.exists_cons_of_ne_nil h
  constructor
  · intro hscopable
    simp only [isScopable, Bool.and_eq_true, decide_eq_true_eq, Bool.not_eq_true',
      Option.isNone_iff_eq_none, Text.after?_eq_none] at hscopable
    obtain ⟨⟨⟨hlocal, hdirective⟩, hnumber⟩, hreserved⟩ := hscopable
    exact ⟨by simpa, by simpa, by simpa, hreserved⟩
  · rintro ⟨hlocal, hdirective, hnumber, hreserved⟩
    simp_all [isScopable, Text.after?_eq_none]

theorem candidates_eq {names : List Text} (h : candidates t = .ok names) :
    names = (distinct ((outsideLines (Text.rawLines t)).filterMap declaredName?)).filter isScopable := by
  obtain ⟨r, hr, rfl⟩ := Outcome.map_eq_ok.1 h
  rw [Regions.declaredNames_eq hr, Regions.outside_eq hr, distinct_filter]

/-- What becomes local is what the lines outside the regions declare, each name once, in the order in
which the names are first declared. -/
theorem candidates_declared {names : List Text} (h : candidates t = .ok names) :
    let ls := outsideLines (Text.rawLines t)
    names.Nodup ∧ (∀ name, name ∈ names ↔ MayBeLocal name ∧ ∃ line ∈ ls, Declares line name) ∧
      names.Pairwise (FirstBefore Declares ls) := by
  intro ls
  obtain rfl := candidates_eq h
  have horder : ((distinct (ls.filterMap declaredName?)).filter isScopable).Pairwise
      (FirstBefore Declares ls) := by
    have hdistinct := (pairwise_distinct declaredName? ls).filter isScopable
    simpa only [declaredName?_eq_some] using hdistinct
  refine ⟨horder.imp ?_, fun name => ?_, horder⟩
  · rintro _ _ ⟨before, line, behind, -, hline, hnot⟩ rfl
    exact hnot line (by simp) hline
  · simp only [List.mem_filter, mem_distinct, List.mem_filterMap, declaredName?_eq_some]
    rw [and_comm]
    refine and_congr_left fun ⟨line, _, hline⟩ => ?_
    exact isScopable_iff hline.isWord.1

/-- Names with letters of any script, a directive with capital letters, a label that is declared twice,
one in a region, and one with a blank before its colon. -/
theorem candidates_declared_region :
    let t : Text := "é_1:x ; b:\r\n\tFOO:\"a:\"\nbar :\n.DefineLabel \u3000 q.x,1 // /*\n.BeginGlobal\n" ++
      "g:\n.endglobal\nFOO: c:\n@l:\n1:\n.k:\n__INTERNAL_z:\n.definelabel é_1,2"
    let ls := outsideLines (Text.rawLines t)
    candidates t = .ok ["é_1", "FOO", "q.x"] ∧ FirstBefore Declares ls "FOO" "q.x" ∧
      ∀ line ∈ ls, ¬Declares line "bar" ∧ ¬Declares line "g" := by
  intro t ls
  have hnames : candidates t = .ok ["é_1", "FOO", "q.x"] := by decide +kernel
  obtain ⟨-, hmem, horder⟩ := candidates_declared hnames
  have hnone (name : Text) (hlocal : MayBeLocal name)
      (hnot : name ∉ (["é_1", "FOO", "q.x"] : List Text)) : ∀ line ∈ ls, ¬Declares line name :=
    fun line hline hname =>
      hnot ((hmem name).2 ⟨hlocal, line, hline, hname⟩)
  have hbar := hnone "bar" ⟨by decide, by decide, by simp, by decide⟩ (by decide)
  have hg := hnone "g" ⟨by decide, by decide, by simp, by decide⟩ (by decide)
  refine ⟨hnames, ?_, fun line hline => ⟨hbar line hline, hg line hline⟩⟩
  exact (List.pairwise_cons.1 (List.pairwise_cons.1 horder).2).1 _ (by simp)

end CartPatch.Assembly
