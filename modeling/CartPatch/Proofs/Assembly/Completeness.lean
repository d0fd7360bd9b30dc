import CartPatch.Proofs.Assembly.Region

/-!
Scoping leaves nothing to scope. A renamed text has the regions of the text with their lines renamed
(`ofText_makeLocal`), so that its declarations are the renamed declarations of the text, line by
line, and none of them may be made local any more (`scopeLabels_complete`).
-/

namespace CartPatch.Assembly

theorem mem_declaredNames {t name : Text} :
    name ∈ declaredNames t ↔
      isScopable name ∧ ∃ line ∈ Text.lines t, declaredName? line = some name := by
  simp [declaredNames, mem_distinct, and_comm]

theorem head?_of_mem_declaredNames {t name : Text} (h : name ∈ declaredNames t) :
    name.head? ≠ some '.' := by
  have hscopable := (mem_declaredNames.1 h).1
  cases name with
  | nil => simp
  | cons c name =>
    rw [isScopable] at hscopable
    grind

/-- The name that a declared name has in the scoped text. -/
def scopedName (name : Text) : Text := if isScopable name then '@' :: name else name

theorem isScopable_scopedName (name : Text) : isScopable (scopedName name) = false := by
  rw [scopedName]
  split
  · simp [isScopable]
  · rename_i h
    exact Bool.not_eq_true _ ▸ h

/-- Where a text declares names, each of its lines declares the scoped name when it is renamed. -/
theorem declaredName?_scoped {t line : Text} (h : line ∈ Text.lines t) :
    declaredName? (makeLocal (declaredNames t) line) = (declaredName? line).map scopedName := by
  rw [declaredName?_makeLocal fun name => head?_of_mem_declaredNames]
  cases hname : declaredName? line with
  | none => rfl
  | some name =>
    have hmem : name ∈ declaredNames t ↔ isScopable name = true := by
      rw [mem_declaredNames]
      exact and_iff_left ⟨line, h, hname⟩
    simp [Piece.makeLocal, scopedName, hmem]

theorem declaredNames_eq_nil {t : Text} {ls : List Text}
    (h : (Text.lines t).map declaredName? =
      ls.map fun line => (declaredName? line).map scopedName) : declaredNames t = [] := by
  rw [List.eq_nil_iff_forall_not_mem]
  intro name hmem
  obtain ⟨hscopable, line, hline, hname⟩ := mem_declaredNames.1 hmem
  have hdeclared : some name ∈ (Text.lines t).map declaredName? :=
    List.mem_map.2 ⟨line, hline, hname⟩
  rw [h] at hdeclared
  obtain ⟨line, -, hscoped⟩ := List.mem_map.1 hdeclared
  obtain ⟨name, -, rfl⟩ := Option.map_eq_some_iff.1 hscoped
  simp [isScopable_scopedName] at hscopable

theorem declaredName?_outside {t out : Text} {r : Regions} (hr : Regions.ofText t = .ok r)
    (hout : Regions.ofText out = .ok (r.map (makeLocal (declaredNames r.outside.flatten)))) :
    (Text.lines (r.map (makeLocal (declaredNames r.outside.flatten))).outside.flatten).map
        declaredName? =
      (Text.lines r.outside.flatten).map fun line => (declaredName? line).map scopedName := by
  rw [Regions.lines_outside hout, Regions.lines_outside hr, Regions.map, List.map_map,
    List.map_map, List.map_map]
  refine List.map_congr_left fun line hmem => ?_
  have hline : Text.chomp line ∈ Text.lines r.outside.flatten := by
    rw [Regions.lines_outside hr]
    exact List.mem_map_of_mem hmem
  simp only [Function.comp_apply, chomp_makeLocal, declaredName?_scoped hline]

/-- Scoping leaves no declaration outside the regions that could be made local: each line declares
the scoped name of what it declared. The lines of the text stay lines, and its markers stay what
they are, with no other line becoming a marker. -/
theorem scopeLabels_complete {t out : Text} (hcomments : InlineComments t)
    (hmarkers : ∀ line ∈ Text.rawLines t, Marker.IsWhole line)
    (h : scopeLabels true t = .ok out) :
    candidates out = .ok [] ∧
      (Text.rawLines out).length = (Text.rawLines t).length ∧
      (∀ pair ∈ (Text.rawLines t).zip (Text.rawLines out),
        Marker.ofLine? pair.2 = Marker.ofLine? pair.1 ∧
          ((Marker.ofLine? pair.1).isSome → pair.2 = pair.1)) ∧
      ∃ before after, Regions.ofText t = .ok before ∧ Regions.ofText out = .ok after ∧
        (Text.lines after.outside.flatten).map declaredName? =
          (Text.lines before.outside.flatten).map fun line =>
            (declaredName? line).map scopedName := by
  obtain ⟨before, hbefore, hout⟩ := Outcome.map_eq_ok.1 h
  rw [if_pos rfl] at hout
  have hnames : ∀ name ∈ declaredNames before.outside.flatten, name.head? ≠ some '.' :=
    fun name => head?_of_mem_declaredNames
  have hlines := rawLines_makeLocal (declaredNames before.outside.flatten) hcomments
  have hafter := Regions.ofText_makeLocal hcomments hmarkers hnames
  rw [hout] at hlines hafter
  rw [hbefore] at hafter
  have hdeclared := declaredName?_outside hbefore hafter
  refine ⟨?_, ?_, fun pair hpair => ?_, before, _, hbefore, hafter, hdeclared⟩
  · rw [candidates, hafter]
    exact congrArg Except.ok (declaredNames_eq_nil hdeclared)
  · rw [hlines, List.length_map]
  · rw [hlines, ← List.map_prod_left_eq_zip] at hpair
    obtain ⟨line, hmem, rfl⟩ := List.mem_map.1 hpair
    exact ⟨Marker.ofLine?_makeLocal hnames (hmarkers line hmem),
      Marker.makeLocal_eq hnames (hmarkers line hmem)⟩

/-- A label and a defined label become local; the label of a region, which also stands in a comment,
does not. -/
theorem scopeLabels_complete_region :
    scopeLabels true "a: j b\r\n.BeginGlobal ; c\nc:\n.endglobal\n.definelabel b, 1 /* c: */\n" =
      .ok "@a: j @b\r\n.BeginGlobal ; c\nc:\n.endglobal\n.definelabel @b, 1 /* c: */\n" ∧
    candidates "@a: j @b\r\n.BeginGlobal ; c\nc:\n.endglobal\n.definelabel @b, 1 /* c: */\n" =
      .ok [] := by
  refine ⟨?renamed, (scopeLabels_complete ?comments ?markers ?renamed).1⟩
  case renamed => decide +kernel
  case comments => decide +kernel
  case markers => decide +kernel

end CartPatch.Assembly
