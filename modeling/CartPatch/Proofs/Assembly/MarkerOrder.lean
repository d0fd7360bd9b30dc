import CartPatch.Proofs.Assembly.MarkerLines

/-!
The order of markers. A text has regions just when its markers pair up, an opening one with the closing
one that follows it (`Paired`). Otherwise the first marker out of order is reported, and where there is
none, the last region that is opened (`MarkerFault`). Labels are taken from the lines that no pair
encloses (`outsideLines`).
-/

namespace CartPatch.Assembly

def markers (ls : List Text) : List Marker := ls.filterMap Marker.ofLine?

/-- Markers that open and close regions by turns, the first one opening and the last one closing. -/
inductive Paired : List Marker → Prop where
  | nil : Paired []
  | pair {ms : List Marker} (h : Paired ms) : Paired (.opening :: .closing :: ms)

def markerAt (ls : List Text) (k : ℕ) : Option Marker := ls[k]?.bind Marker.ofLine?

def OpenBefore (ls : List Text) (k : ℕ) : Prop := (markers (ls.take k)).getLast? = some .opening

/-- A marker that opens a region and directly follows another one that does. -/
def IsNested (ls : List Text) (k : ℕ) : Prop := markerAt ls k = some .opening ∧ OpenBefore ls k

/-- A marker that closes a region and does not directly follow one that opens it. -/
def IsStray (ls : List Text) (k : ℕ) : Prop := markerAt ls k = some .closing ∧ ¬OpenBefore ls k

def InOrder (ls : List Text) (k : ℕ) : Prop := ∀ j < k, ¬IsNested ls j ∧ ¬IsStray ls j

/-- What is reported of lines whose markers do not pair up, with line numbers from one. -/
inductive MarkerFault (ls : List Text) : ScopeError → Prop where
  | nested {k : ℕ} (hbefore : InOrder ls k) (h : IsNested ls k) :
      MarkerFault ls (.nestedRegion (k + 1))
  | stray {k : ℕ} (hbefore : InOrder ls k) (h : IsStray ls k) :
      MarkerFault ls (.unbalancedRegion (k + 1))
  | unclosed {k : ℕ} (horder : ∀ n, InOrder ls n) (h : markerAt ls k = some .opening)
      (hlast : ∀ j > k, markerAt ls j ≠ some .opening) :
      MarkerFault ls (.unbalancedRegion (k + 1))

def IsEnclosed (ls : List Text) (k : ℕ) : Prop :=
  OpenBefore ls k ∧ (markers (ls.drop (k + 1))).head? = some .closing

instance (ls : List Text) : DecidablePred (OpenBefore ls) := fun k =>
  inferInstanceAs (Decidable ((markers (ls.take k)).getLast? = some .opening))

instance (ls : List Text) : DecidablePred (IsEnclosed ls) := fun _ => instDecidableAnd

/-- The lines that are neither markers nor enclosed by a pair of them. -/
def outsideLines (ls : List Text) : List Text :=
  (ls.zipIdx.filter fun l => isPlain l.1 && !decide (IsEnclosed ls l.2)).map Prod.fst

variable {ls rest : List Text} {line : Text} {opened : Option ℕ} {e e' : ScopeError} {j k : ℕ}
  {ms ms' : List Marker}

section Order

theorem markers_append (before rest : List Text) :
    markers (before ++ rest) = markers before ++ markers rest :=
  List.filterMap_append

theorem markers_cons_of_none (h : Marker.ofLine? line = none) (ls : List Text) :
    markers (line :: ls) = markers ls :=
  List.filterMap_cons_none h

theorem markers_cons_of_some {m : Marker} (h : Marker.ofLine? line = some m) (ls : List Text) :
    markers (line :: ls) = m :: markers ls :=
  List.filterMap_cons_some h

theorem markers_take_succ :
    markers (ls.take (k + 1)) = markers (ls.take k) ++ (markerAt ls k).toList := by
  rw [List.take_add_one, markers_append, markerAt]
  cases ls[k]? with
  | none => rfl
  | some line => cases h : Marker.ofLine? line <;> simp [markers, h]

theorem openBefore_succ :
    OpenBefore ls (k + 1) ↔ ((markerAt ls k).or (markers (ls.take k)).getLast?) = some .opening := by
  rw [OpenBefore, markers_take_succ]
  cases markerAt ls k <;> simp

theorem openBefore_succ_of_some {m : Marker} (h : markerAt ls k = some m) :
    OpenBefore ls (k + 1) ↔ m = .opening := by
  rw [openBefore_succ, h]
  exact Option.some_inj

theorem openBefore_succ_of_none (h : markerAt ls k = none) :
    OpenBefore ls (k + 1) ↔ OpenBefore ls k := by
  rw [openBefore_succ, h, Option.none_or, OpenBefore]

theorem not_openBefore_zero : ¬OpenBefore ls 0 := by simp [OpenBefore, markers]

theorem InOrder.succ (h : InOrder ls k) (hnested : ¬IsNested ls k) (hstray : ¬IsStray ls k) :
    InOrder ls (k + 1) := by
  intro j hj
  rcases Nat.lt_succ_iff_lt_or_eq.1 hj with hlt | rfl
  · exact h j hlt
  · exact ⟨hnested, hstray⟩

theorem InOrder.le_of_isNested (h : InOrder ls k) (hj : IsNested ls j) : k ≤ j :=
  not_lt.1 fun hlt => (h j hlt).1 hj

theorem InOrder.le_of_isStray (h : InOrder ls k) (hj : IsStray ls j) : k ≤ j :=
  not_lt.1 fun hlt => (h j hlt).2 hj

theorem not_isStray_of_isNested (h : IsNested ls k) : ¬IsStray ls k := fun hstray =>
  hstray.2 h.2

theorem MarkerFault.unique (h : MarkerFault ls e) (h' : MarkerFault ls e') : e = e' := by
  -- Of two markers out of order, the first stands where the second has none in front of it.
  cases h with
  | @nested k hbefore hk =>
    cases h' with
    | nested hbefore' hk' =>
      rw [le_antisymm (hbefore.le_of_isNested hk') (hbefore'.le_of_isNested hk)]
    | stray hbefore' hk' =>
      obtain rfl := le_antisymm (hbefore.le_of_isStray hk') (hbefore'.le_of_isNested hk)
      exact absurd hk' (not_isStray_of_isNested hk)
    | unclosed horder => exact absurd ((horder _).le_of_isNested hk) (Nat.not_succ_le_self k)
  | @stray k hbefore hk =>
    cases h' with
    | nested hbefore' hk' =>
      obtain rfl := le_antisymm (hbefore.le_of_isNested hk') (hbefore'.le_of_isStray hk)
      exact absurd hk (not_isStray_of_isNested hk')
    | stray hbefore' hk' =>
      rw [le_antisymm (hbefore.le_of_isStray hk') (hbefore'.le_of_isStray hk)]
    | unclosed horder => exact absurd ((horder _).le_of_isStray hk) (Nat.not_succ_le_self k)
  | unclosed horder hk hlast =>
    cases h' with
    | @nested k' _ hk' => exact absurd ((horder _).le_of_isNested hk') (Nat.not_succ_le_self k')
    | @stray k' _ hk' => exact absurd ((horder _).le_of_isStray hk') (Nat.not_succ_le_self k')
    | unclosed _ hk' hlast' =>
      have hle := not_lt.1 fun hlt => hlast _ hlt hk'
      have hge := not_lt.1 fun hlt => hlast' _ hlt hk
      rw [le_antisymm hge hle]

end Order

section Pairs

@[simp] theorem paired_pair : Paired (.opening :: .closing :: ms) ↔ Paired ms :=
  ⟨fun | .pair h => h, .pair⟩

@[simp] theorem not_paired_closing : ¬Paired (.closing :: ms) := nofun

@[simp] theorem not_paired_nested : ¬Paired (.opening :: .opening :: ms) := nofun

@[simp] theorem not_paired_unclosed : ¬Paired [.opening] := nofun

theorem Paired.head?_eq (h : Paired (ms ++ ms')) (hlast : ms.getLast? = some .opening) :
    ms'.head? = some .closing := by
  generalize hall : ms ++ ms' = all at h
  induction h generalizing ms with
  | nil =>
    rw [(List.append_eq_nil_iff.1 hall).1] at hlast
    cases hlast
  | pair _ ih =>
    match ms, hlast, hall with
    | [_], _, hall =>
      cases hall
      rfl
    | [_, _], hlast, hall =>
      cases hall
      cases hlast
    | _ :: _ :: m :: ms, hlast, hall =>
      rw [List.getLast?_cons_cons, List.getLast?_cons_cons] at hlast
      exact ih hlast (List.tail_eq_of_cons_eq (List.tail_eq_of_cons_eq hall))

/-- Where markers pair up, a line that is no marker is enclosed when the marker before it opens a
region. -/
theorem isEnclosed_iff (h : Paired (markers ls)) (hplain : markerAt ls k = none) :
    IsEnclosed ls k ↔ OpenBefore ls k := by
  refine and_iff_left_of_imp fun hopen => Paired.head?_eq ?_ hopen
  have hsplit : markers ls = markers (ls.take (k + 1)) ++ markers (ls.drop (k + 1)) := by
    rw [← markers_append, List.take_append_drop]
  rwa [hsplit, markers_take_succ, hplain, Option.toList_none, List.append_nil] at h

end Pairs

section Walk

/-- What a walk has seen in front of a line: no marker out of order, and which line opened the present
region, if any. -/
structure Walked (ls : List Text) (k : ℕ) (opened : Option ℕ) : Prop where
  inOrder : InOrder ls k
  isSome_iff : opened.isSome ↔ OpenBefore ls k
  opening : ∀ n ∈ opened, ∃ j, n = j + 1 ∧ markerAt ls j = some .opening ∧
    ∀ i, j < i → i < k → markerAt ls i ≠ some .opening

namespace Walked

theorem start : Walked ls 0 none where
  inOrder j hj := absurd hj (Nat.not_lt_zero j)
  isSome_iff := by simp [not_openBefore_zero]
  opening n hn := by cases hn

theorem plain (h : Walked ls k opened) (hmarker : markerAt ls k = none) :
    Walked ls (k + 1) opened where
  inOrder := h.inOrder.succ (by simp [IsNested, hmarker]) (by simp [IsStray, hmarker])
  isSome_iff := by rw [openBefore_succ_of_none hmarker, h.isSome_iff]
  opening n hn := by
    obtain ⟨j, hj, hopening, hlast⟩ := h.opening n hn
    refine ⟨j, hj, hopening, fun i hji hik => ?_⟩
    rcases Nat.lt_succ_iff_lt_or_eq.1 hik with hlt | rfl
    · exact hlast i hji hlt
    · simp [hmarker]

theorem opens (h : Walked ls k none) (hmarker : markerAt ls k = some .opening) :
    Walked ls (k + 1) (some (k + 1)) where
  inOrder := h.inOrder.succ (by simp [IsNested, ← h.isSome_iff]) (by simp [IsStray, hmarker])
  isSome_iff := by simp [openBefore_succ_of_some hmarker]
  opening n hn := by
    cases hn
    exact ⟨k, rfl, hmarker, fun i hki hik => absurd hik (by omega)⟩

theorem closes {n : ℕ} (h : Walked ls k (some n)) (hmarker : markerAt ls k = some .closing) :
    Walked ls (k + 1) none where
  inOrder := h.inOrder.succ (by simp [IsNested, hmarker]) (by simp [IsStray, ← h.isSome_iff])
  isSome_iff := by simp [openBefore_succ_of_some hmarker]
  opening n hn := by cases hn

theorem unclosed {n : ℕ} (h : Walked ls k (some n)) (hend : ls.drop k = []) :
    MarkerFault ls (.unbalancedRegion n) := by
  have hnone (i : ℕ) (hi : k ≤ i) : markerAt ls i = none := by
    rw [markerAt, List.getElem?_eq_none ((List.drop_eq_nil_iff.1 hend).trans hi)]
    rfl
  obtain ⟨j, rfl, hopening, hlast⟩ := h.opening n rfl
  refine .unclosed (fun m i hi => ?_) hopening fun i hi => ?_
  · by_cases hik : i < k
    · exact h.inOrder i hik
    · simp [IsNested, IsStray, hnone i (not_lt.1 hik)]
  · by_cases hik : i < k
    · exact hlast i hi hik
    · simp [hnone i (not_lt.1 hik)]

end Walked

theorem markerAt_of_drop (h : ls.drop k = line :: rest) : markerAt ls k = Marker.ofLine? line := by
  have hget : ls[k]? = some line := by rw [← List.head?_drop, h, List.head?_cons]
  rw [markerAt, hget]
  rfl

theorem drop_succ_of_drop (h : ls.drop k = line :: rest) : ls.drop (k + 1) = rest := by
  rw [← List.tail_drop, h, List.tail_cons]

namespace Regions

/-- A walk succeeds when the markers ahead, with the one that opened the present region, pair up. -/
theorem ofLines_eq_ok_iff_paired {ls : List (Text × ℕ)} : (∃ r, ofLines opened ls = .ok r) ↔
    Paired ((opened.map fun _ => Marker.opening).toList ++ markers (ls.map Prod.fst)) := by
  induction ls generalizing opened with
  | nil =>
    cases opened with
    | none => simp [ofLines, markers, Paired.nil]
    | some n => simp [ofLines, markers]
  | cons l ls ih =>
    obtain ⟨line, n⟩ := l
    cases hline : Marker.ofLine? line with
    | none =>
      simp only [ofLines, hline, Outcome.map_eq_ok]
      rw [List.map_cons, markers_cons_of_none hline, ← ih]
      simp
    | some m =>
      rw [List.map_cons, markers_cons_of_some hline]
      cases m <;> cases opened <;> simp only [ofLines, hline]
      · exact ih
      · simp
      · simp
      · simp [ih]

/-- What a walk finds at a line and ahead of it: the line is out of order, or the walk goes on behind
it, and the line is added in front unless it is a marker. -/
theorem ofLines_cons (hwalked : Walked ls k opened) (hrest : ls.drop k = line :: rest)
    (ahead : List (Text × ℕ)) :
    (∃ e, MarkerFault ls e ∧ ofLines opened ((line, k + 1) :: ahead) = .error e) ∨
      ∃ opened', Walked ls (k + 1) opened' ∧ ofLines opened ((line, k + 1) :: ahead) =
        (ofLines opened' ahead).map fun r =>
          if isPlain line then r.addLine line (decide (OpenBefore ls k)) else r := by
  have hmarker := markerAt_of_drop hrest
  have hmap (opened' : Option ℕ) : (ofLines opened' ahead).map (fun r => r) = ofLines opened' ahead := by
    cases ofLines opened' ahead <;> rfl
  cases hline : Marker.ofLine? line with
  | none =>
    rw [hline] at hmarker
    refine .inr ⟨opened, hwalked.plain hmarker, ?_⟩
    have hinside : opened.isSome = decide (OpenBefore ls k) := by simp [← hwalked.isSome_iff]
    simp [ofLines, hline, isPlain, hinside]
  | some m =>
    rw [hline] at hmarker
    simp only [ofLines, hline, isPlain, Option.isNone_some, Bool.false_eq_true, if_false, hmap]
    cases m <;> cases opened
    · exact .inr ⟨_, hwalked.opens hmarker, rfl⟩
    · exact .inl ⟨_, .nested hwalked.inOrder ⟨hmarker, hwalked.isSome_iff.1 rfl⟩, rfl⟩
    · exact .inl ⟨_, .stray hwalked.inOrder ⟨hmarker, by simp [← hwalked.isSome_iff]⟩, rfl⟩
    · exact .inr ⟨_, hwalked.closes hmarker, rfl⟩

theorem markerFault_of_ofLines (hwalked : Walked ls k opened) (hrest : ls.drop k = rest)
    (h : ofLines opened (rest.zipIdx (k + 1)) = .error e) : MarkerFault ls e := by
  induction rest generalizing k opened with
  | nil =>
    cases opened with
    | none => cases h
    | some n =>
      cases h
      exact hwalked.unclosed hrest
  | cons line rest ih =>
    rw [List.zipIdx_cons] at h
    rcases ofLines_cons hwalked hrest (rest.zipIdx (k + 1 + 1)) with
      ⟨e', hfault, hline⟩ | ⟨opened', hnext, hline⟩
    · rw [hline] at h
      cases h
      exact hfault
    · rw [hline] at h
      exact ih hnext (drop_succ_of_drop hrest) (Outcome.map_eq_error.1 h)

theorem outside_eq_of_ofLines {r : Regions} (hwalked : Walked ls k opened) (hrest : ls.drop k = rest)
    (h : ofLines opened (rest.zipIdx (k + 1)) = .ok r) :
    r.outside = ((rest.zipIdx k).filter fun l => isPlain l.1 && !decide (OpenBefore ls l.2)).map
      Prod.fst := by
  induction rest generalizing k opened r with
  | nil =>
    cases opened with
    | none =>
      cases h
      rfl
    | some n => cases h
  | cons line rest ih =>
    rw [List.zipIdx_cons] at h ⊢
    rcases ofLines_cons hwalked hrest (rest.zipIdx (k + 1 + 1)) with
      ⟨e, -, hline⟩ | ⟨opened', hnext, hline⟩
    · rw [hline] at h
      cases h
    · rw [hline] at h
      obtain ⟨s, hs, rfl⟩ := Outcome.map_eq_ok.1 h
      have houtside := ih hnext (drop_succ_of_drop hrest) hs
      cases hplain : isPlain line with
      | false => simpa [hplain] using houtside
      | true => by_cases hopen : OpenBefore ls k <;> simp [hplain, hopen, addLine, houtside]

theorem exists_ofText_eq_ok {t : Text} :
    (∃ r, ofText t = .ok r) ↔ Paired (markers (Text.rawLines t)) := by
  rw [← List.zipIdx_map_fst 1 (Text.rawLines t)]
  exact ofLines_eq_ok_iff_paired

theorem outside_eq {t : Text} {r : Regions} (h : ofText t = .ok r) :
    r.outside = outsideLines (Text.rawLines t) := by
  have hpaired := exists_ofText_eq_ok.1 ⟨r, h⟩
  rw [outside_eq_of_ofLines .start List.drop_zero h, outsideLines]
  congr 1
  refine List.filter_congr fun l hl => ?_
  have hmarker : markerAt (Text.rawLines t) l.2 = Marker.ofLine? l.1 := by
    rw [markerAt, List.mem_zipIdx_iff_getElem?.1 hl]
    rfl
  cases hplain : isPlain l.1 with
  | false => rfl
  | true =>
    have henclosed := isEnclosed_iff hpaired (hmarker.trans (Option.isNone_iff_eq_none.1 hplain))
    simp only [henclosed]

theorem ofText_eq_ok {t : Text} {r : Regions} : ofText t = .ok r ↔
    Paired (markers (Text.rawLines t)) ∧ r = ⟨plainLines t, outsideLines (Text.rawLines t)⟩ := by
  have hregions {r : Regions} (h : ofText t = .ok r) :
      r = ⟨plainLines t, outsideLines (Text.rawLines t)⟩ := by
    rw [← unmarked_eq h, ← outside_eq h]
  constructor
  · exact fun h => ⟨exists_ofText_eq_ok.1 ⟨r, h⟩, hregions h⟩
  · rintro ⟨hpaired, rfl⟩
    obtain ⟨r, h⟩ := exists_ofText_eq_ok.2 hpaired
    rw [h, hregions h]

theorem ofText_eq_error {t : Text} :
    ofText t = .error e ↔ ¬Paired (markers (Text.rawLines t)) ∧ MarkerFault (Text.rawLines t) e := by
  have hfault {e : ScopeError} (h : ofText t = .error e) : MarkerFault (Text.rawLines t) e :=
    markerFault_of_ofLines .start List.drop_zero h
  rw [← exists_ofText_eq_ok]
  cases hwalk : ofText t with
  | ok r => simp
  | error e' =>
    simp only [Except.error.injEq, reduceCtorEq, exists_false, not_false_eq_true, true_and]
    constructor
    · rintro rfl
      exact hfault hwalk
    · exact (hfault hwalk).unique

end Regions

end Walk

/-- The markers of a text make regions just when they pair up. Every line but the markers then stays,
and the names that the lines outside the regions declare are renamed. -/
theorem regions_of_markers (keep : Bool) (t : Text) :
    let ls := Text.rawLines t
    let names := declaredNames (outsideLines ls).flatten
    let Fails (e : ScopeError) : Prop := ¬Paired (markers ls) ∧ MarkerFault ls e
    (∀ r, Regions.ofText t = .ok r ↔ Paired (markers ls) ∧ r = ⟨plainLines t, outsideLines ls⟩) ∧
      (∀ e, Regions.ofText t = .error e ↔ Fails e) ∧
      (∀ ns, candidates t = .ok ns ↔ Paired (markers ls) ∧ ns = names) ∧
      (∀ e, candidates t = .error e ↔ Fails e) ∧
      (∀ t', scopeLabels keep t = .ok t' ↔ Paired (markers ls) ∧
        t' = makeLocal names (if keep then t else (plainLines t).flatten)) ∧
      (∀ e, scopeLabels keep t = .error e ↔ Fails e) := by
  intro ls names Fails
  have hok {α : Type} (f : Regions → α) (a : α) : (Regions.ofText t).map f = .ok a ↔
      Paired (markers ls) ∧ a = f ⟨plainLines t, outsideLines ls⟩ := by
    rw [Outcome.map_eq_ok]
    simp only [Regions.ofText_eq_ok]
    constructor
    · rintro ⟨_, ⟨hpaired, rfl⟩, rfl⟩
      exact ⟨hpaired, rfl⟩
    · rintro ⟨hpaired, rfl⟩
      exact ⟨_, ⟨hpaired, rfl⟩, rfl⟩
  have herror {α : Type} (f : Regions → α) (e : ScopeError) :
      (Regions.ofText t).map f = .error e ↔ Fails e :=
    Outcome.map_eq_error.trans Regions.ofText_eq_error
  exact ⟨fun _ => Regions.ofText_eq_ok, fun _ => Regions.ofText_eq_error, hok _, herror _, hok _, herror _⟩

/-- A region with a label of its own, and a label on either side of it. -/
theorem regions_of_markers_pair :
    let t : Text := "a:\n.beginglobal\nb:\n.endglobal ; all\nc:\n"
    candidates t = .ok [['a'], ['c']] ∧ scopeLabels false t = .ok "@a:\nb:\n@c:\n" := by
  intro t
  have hpaired : Paired (markers (Text.rawLines t)) := by
    have hmarkers : markers (Text.rawLines t) = [.opening, .closing] := by decide +kernel
    rw [hmarkers]
    exact .pair .nil
  obtain ⟨-, -, hnames, -, hscoped, -⟩ := regions_of_markers false t
  refine ⟨(hnames _).2 ⟨hpaired, ?_⟩, (hscoped _).2 ⟨hpaired, ?_⟩⟩
  · decide +kernel
  · decide +kernel

/-- A region that is never closed is reported where it is opened. -/
example : candidates ".endglobal x\n.BeginGlobal ; y\nb:\n" = .error (.unbalancedRegion 2) := by
  decide +kernel

end CartPatch.Assembly
