import CartPatch.Proofs.Assembly.Region

/-!
Texts with and without their marker lines. What is left without them are the plain lines of the text
(`Regions.unmarked_eq`). Where no comment spans lines, these lines are renamed as they are in the text
(`makeLocal_flatten`), so that a scoped text without markers is the scoped text with markers, less the
lines that stand where the text has its markers (`scopeLabels_agree`).
-/

namespace CartPatch.Assembly

variable {names : List Text} {t : Text}

def isPlain (line : Text) : Bool := (Marker.ofLine? line).isNone

def plainLines (t : Text) : List Text := (Text.rawLines t).filter isPlain

/-- What is left of a changed text without the lines that stand where the original has markers. -/
def dropMarkers (original changed : Text) : Text :=
  (((Text.rawLines original).zip (Text.rawLines changed)).filter fun l => isPlain l.1).flatMap Prod.snd

theorem Regions.unmarked_eq_filter {opened : Option Nat} {ls : List (Text × Nat)} {r : Regions}
    (h : ofLines opened ls = .ok r) : r.unmarked = (ls.map Prod.fst).filter isPlain := by
  induction ls generalizing opened r with
  | nil =>
    cases opened with
    | some line => cases h
    | none =>
      cases h
      rfl
  | cons l ls ih =>
    obtain ⟨line, n⟩ := l
    cases hmarker : Marker.ofLine? line with
    | some m =>
      rw [List.map_cons, List.filter_cons_of_neg (by simp [isPlain, hmarker])]
      cases m <;> cases opened <;> simp only [ofLines, hmarker, reduceCtorEq] at h
      · exact ih h
      · exact ih h
    | none =>
      simp only [ofLines, hmarker] at h
      obtain ⟨s, hs, rfl⟩ := Outcome.map_eq_ok.1 h
      rw [List.map_cons, List.filter_cons_of_pos (by simp [isPlain, hmarker]), ← ih hs]
      rfl

theorem Regions.unmarked_eq {r : Regions} (h : ofText t = .ok r) : r.unmarked = plainLines t := by
  rw [unmarked_eq_filter h, List.zipIdx_map_fst, plainLines]

/-- Lines of a text that are put together, in their order, are renamed as they are in the text. -/
theorem makeLocal_flatten (h : InlineComments t) {ls : List Text}
    (hsub : ls.Sublist (Text.rawLines t)) :
    makeLocal names ls.flatten = ls.flatMap (makeLocal names) := by
  induction t using Text.lineInduction generalizing ls with
  | last x hx =>
    by_cases hnil : x = []
    · rw [hnil] at hsub
      rw [List.sublist_nil.1 hsub, List.flatten_nil, makeLocal_nil, List.flatMap_nil]
    · rw [Text.rawLines_of_notMem hnil hx] at hsub
      rcases List.sublist_singleton.1 hsub with rfl | rfl
      · rw [List.flatten_nil, makeLocal_nil, List.flatMap_nil]
      · simp
  | line x y hx ih =>
    rw [Text.rawLines_append_lineFeed hx] at hsub
    cases hsub with
    | cons _ hsub => exact ih h.of_append_lineFeed hsub
    | cons_cons _ hsub =>
      rename_i ls
      rw [List.flatten_cons, List.flatMap_cons, ← ih h.of_append_lineFeed hsub, List.append_assoc,
        List.singleton_append, makeLocal_append_lineFeed h]

theorem dropMarkers_makeLocal (h : InlineComments t) :
    dropMarkers t (makeLocal names t) = makeLocal names (plainLines t).flatten := by
  rw [plainLines, makeLocal_flatten h List.filter_sublist, dropMarkers, rawLines_makeLocal names h,
    ← List.map_prod_left_eq_zip, List.filter_map, List.flatMap_map]
  rfl

/-- Whether marker lines stay or not, the same error is found in a text without comments that span
lines, or none. Then each line of the text is renamed on its own, the markers among them as well, and
without markers the text is what is left when their lines are deleted. -/
theorem scopeLabels_agree (h : InlineComments t) :
    (∃ e, ∀ keep, scopeLabels keep t = .error e) ∨
      ∃ names kept, candidates t = .ok names ∧ scopeLabels true t = .ok kept ∧
        Text.rawLines kept = (Text.rawLines t).map (makeLocal names) ∧
        scopeLabels false t = .ok (dropMarkers t kept) := by
  cases hregions : Regions.ofText t with
  | error e =>
    refine .inl ⟨e, fun keep => ?_⟩
    rw [scopeLabels, hregions]
    rfl
  | ok r =>
    let names := declaredNames r.outside.flatten
    have hcandidates : candidates t = .ok names := by
      rw [candidates, hregions]
      rfl
    have hkept : scopeLabels true t = .ok (makeLocal names t) := by
      rw [scopeLabels, hregions]
      rfl
    have hdropped : scopeLabels false t = .ok (makeLocal names r.unmarked.flatten) := by
      rw [scopeLabels, hregions]
      rfl
    refine .inr ⟨names, _, hcandidates, hkept, rawLines_makeLocal names h, ?_⟩
    rw [hdropped, Regions.unmarked_eq hregions, dropMarkers_makeLocal h]

/-- A marker on a last line without its end, a marker word in a string, and comments and a string that
begin like a block comment but end with their lines. -/
theorem scopeLabels_agree_region :
    let t : Text := "a: ; /*\n.BeginGlobal // /*\nb: j a\n.db \".endglobal\", \"/*\n .endglobal"
    scopeLabels true t =
        .ok "@a: ; /*\n.BeginGlobal // /*\nb: j @a\n.db \".endglobal\", \"/*\n .endglobal" ∧
      scopeLabels false t = .ok "@a: ; /*\nb: j @a\n.db \".endglobal\", \"/*\n" := by
  intro t
  have hkept : scopeLabels true t =
      .ok "@a: ; /*\n.BeginGlobal // /*\nb: j @a\n.db \".endglobal\", \"/*\n .endglobal" := by
    decide +kernel
  refine ⟨hkept, ?_⟩
  have hcomments : InlineComments t := by decide +kernel
  rcases scopeLabels_agree hcomments with ⟨e, he⟩ | ⟨names, kept, -, hok, -, hdropped⟩
  · rw [he true] at hkept
    cases hkept
  · rw [hkept] at hok
    cases hok
    rw [hdropped]
    decide +kernel

end CartPatch.Assembly
