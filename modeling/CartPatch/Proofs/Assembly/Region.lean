import CartPatch.Proofs.Assembly.Declaration
import CartPatch.Proofs.Assembly.Lines
import CartPatch.Proofs.Outcome
import CartPatch.Proofs.Text.Blank

/-!
Global regions of renamed texts. A marker begins with a full stop, so that it is not renamed where
it is one identifier (`Marker.IsWhole`), and a renamed identifier makes no marker. The regions of a
renamed text are therefore those of the text, line by line (`Regions.ofText_makeLocal`).
-/

namespace CartPatch.Assembly

open Piece

variable {names : List Text} {line : Text}

theorem isBlank_of_isIdentifierChar {c : Char} (h : isIdentifierChar c = true) :
    Text.isBlank c = false := by
  rw [← Bool.not_eq_true]
  intro hblank
  have hletter := Text.isAlphanumeric_of_isBlank hblank
  have hsign : c = '_' ∨ c = '@' ∨ c = '.' := by simpa [isIdentifierChar, hletter, or_assoc] using h
  rcases hsign with rfl | rfl | rfl <;> revert hblank <;> decide

theorem makeLocal_of_forall (h : ∀ p ∈ scan line, p.kind = .identifier → p.slice ∉ names) :
    makeLocal names line = line := by
  have heach : ∀ p ∈ scan line, p.makeLocal names = p.slice := fun p hp => by
    rw [Piece.makeLocal, if_neg fun hmem => h p hp hmem.1 hmem.2]
  rw [makeLocal, List.flatMap_def, List.map_congr_left heach, ← List.flatMap_def,
    flatMap_slice_scan]

namespace Marker

theorem head?_of_ofLine? (h : (ofLine? line).isSome) : (code line).head? = some '.' := by
  rw [ofLine?] at h
  split at h
  · exact Text.head?_of_sameName ‹_›
  · split at h
    · exact Text.head?_of_sameName ‹_›
    · cases h

/-- A line is no marker when its code has an at sign or the colon of a label. -/
theorem ofLine?_of_mem {c : Char} (hc : c = '@' ∨ c = ':') (h : c ∈ code line) :
    ofLine? line = none := by
  have hlower : c.toLower = c := by rcases hc with rfl | rfl <;> rfl
  have hother (name : Text) (hname : '@' ∉ Text.lower name ∧ ':' ∉ Text.lower name) :
      Text.sameName (code line) name = false :=
    Text.sameName_of_mem hlower h (by rcases hc with rfl | rfl <;> simp [hname])
  rw [ofLine?, hother _ (by decide), hother _ (by decide)]
  rfl

/-- Whether a marker stands on its line in one piece. -/
def IsWhole (line : Text) : Prop :=
  (ofLine? line).isSome → ∃ p ∈ scan line, p.kind = .identifier ∧ p.slice = code line

instance : DecidablePred IsWhole := fun line =>
  inferInstanceAs (Decidable (_ → ∃ p ∈ scan line, p.kind = .identifier ∧ p.slice = code line))

theorem eq_or_nil_of_flatMap_eq {α : Type} {f : α → Text} {l : List α} {a b : α} (ha : a ∈ l)
    (hb : b ∈ l) (h : l.flatMap f = f a) : b = a ∨ f b = [] := by
  obtain ⟨before, behind, rfl⟩ := List.append_of_mem ha
  have hlength := congrArg List.length h
  simp only [List.flatMap_append, List.flatMap_cons, List.length_append] at hlength
  have hbefore : before.flatMap f = [] := List.eq_nil_of_length_eq_zero (by omega)
  have hbehind : behind.flatMap f = [] := List.eq_nil_of_length_eq_zero (by omega)
  rcases List.mem_append.1 hb with hmem | hmem
  · exact .inr (List.flatMap_eq_nil_iff.1 hbefore b hmem)
  · rcases List.mem_cons.1 hmem with rfl | hmem
    · exact .inl rfl
    · exact .inr (List.flatMap_eq_nil_iff.1 hbehind b hmem)

theorem eq_or_blank {p q : Piece} (hp : p ∈ scan line) (hpkind : p.kind = .identifier)
    (hcode : p.slice = code line) (hq : q ∈ scan line) (hqkind : q.kind ≠ .comment) :
    q = p ∨ ∀ c ∈ q.slice, Text.isBlank c = true := by
  have hcounts {p : Piece} (hp : p ∈ scan line) (hkind : p.kind ≠ .comment) :
      p ∈ (scan line).filter (·.kind ≠ .comment) := List.mem_filter.2 ⟨hp, by simp [hkind]⟩
  have hsolid : ((scan line).filter (·.kind ≠ .comment)).flatMap
      (fun p => p.slice.filter (!Text.isBlank ·)) = p.slice.filter (!Text.isBlank ·) := by
    rw [← List.filter_flatMap, ← Text.filter_trim, hcode, code]
  refine (eq_or_nil_of_flatMap_eq (hcounts hp (by simp [hpkind])) (hcounts hq hqkind) hsolid).imp_right
    fun hnil c hc => ?_
  simpa using List.filter_eq_nil_iff.1 hnil c hc

theorem slice_eq_code {p q : Piece} (hp : p ∈ scan line) (hpkind : p.kind = .identifier)
    (hcode : p.slice = code line) (hq : q ∈ scan line) (hqkind : q.kind = .identifier) :
    q.slice = code line := by
  rcases eq_or_blank hp hpkind hcode hq (by simp [hqkind]) with rfl | hblank
  · exact hcode
  · obtain ⟨c, s, hslice, hc⟩ := slice_of_mem_scan hq hqkind
    have hblank := hblank c (by simp [hslice])
    simp [isBlank_of_isIdentifierChar hc] at hblank

variable (hnames : ∀ name ∈ names, name.head? ≠ some '.') (hwhole : IsWhole line)
include hnames hwhole

theorem makeLocal_eq (h : (ofLine? line).isSome) : makeLocal names line = line := by
  obtain ⟨p, hp, hkind, hcode⟩ := hwhole h
  refine makeLocal_of_forall fun q hq hqkind hmem => hnames q.slice hmem ?_
  rw [slice_eq_code hp hkind hcode hq hqkind, head?_of_ofLine? h]

/-- Renaming neither makes a marker nor takes one away. -/
theorem ofLine?_makeLocal : ofLine? (makeLocal names line) = ofLine? line := by
  by_cases h : (ofLine? line).isSome
  · rw [makeLocal_eq hnames hwhole h]
  · by_cases hrenamed : ∃ p ∈ scan line, p.kind = .identifier ∧ p.slice ∈ names
    · obtain ⟨p, hp, hkind, hmem⟩ := hrenamed
      have hat : '@' ∈ code (makeLocal names line) := by
        rw [code, Text.mem_trim (by decide), scan_makeLocal]
        refine List.mem_flatMap.2 ⟨p.renamed names, ?_, ?_⟩
        · exact List.mem_filter.2 ⟨List.mem_map_of_mem hp, by simp [hkind]⟩
        · simp [Piece.makeLocal, hkind, hmem]
      rw [ofLine?_of_mem (.inl rfl) hat, Option.not_isSome_iff_eq_none.1 h]
    · rw [makeLocal_of_forall fun p hp hkind hmem => hrenamed ⟨p, hp, hkind, hmem⟩]

end Marker

namespace Regions

variable {opened : Option Nat} {ls : List (Text × Nat)} {r : Regions} {f : Text → Text}

def map (f : Text → Text) (r : Regions) : Regions := ⟨r.unmarked.map f, r.outside.map f⟩

theorem map_addLine (r : Regions) (line : Text) (inside : Bool) :
    (r.addLine line inside).map f = (r.map f).addLine (f line) inside := by
  cases inside <;> rfl

theorem ofLines_map (h : ∀ l ∈ ls, Marker.ofLine? (f l.1) = Marker.ofLine? l.1) :
    ofLines opened (ls.map (Prod.map f id)) = (ofLines opened ls).map (map f) := by
  induction ls generalizing opened with
  | nil => cases opened <;> rfl
  | cons l ls ih =>
    obtain ⟨line, n⟩ := l
    obtain ⟨hline, hrest⟩ := List.forall_mem_cons.1 h
    cases hmarker : Marker.ofLine? line with
    | some m =>
      rw [hmarker] at hline
      cases m <;> cases opened <;> simp [ofLines, hline, hmarker, ih hrest] <;> rfl
    | none =>
      rw [hmarker] at hline
      simp only [List.map_cons, Prod.map_apply, id_eq, ofLines, hline, hmarker, ih hrest]
      cases ofLines opened ls with
      | error e => rfl
      | ok r => exact congrArg Except.ok (map_addLine r line opened.isSome).symm

theorem outside_sublist (h : ofLines opened ls = .ok r) :
    r.outside.Sublist (ls.map Prod.fst) := by
  induction ls generalizing opened r with
  | nil =>
    cases opened with
    | some line => cases h
    | none =>
      cases h
      exact .slnil
  | cons l ls ih =>
    obtain ⟨line, n⟩ := l
    cases hmarker : Marker.ofLine? line with
    | some m =>
      cases m <;> cases opened <;> simp only [ofLines, hmarker, reduceCtorEq] at h
      · exact (ih h).cons line
      · exact (ih h).cons line
    | none =>
      simp only [ofLines, hmarker] at h
      obtain ⟨s, hs, rfl⟩ := Outcome.map_eq_ok.1 h
      rw [addLine]
      split
      · exact (ih hs).cons line
      · exact (ih hs).cons_cons line

theorem outside_sublist_rawLines {t : Text} (h : ofText t = .ok r) :
    r.outside.Sublist (Text.rawLines t) := by
  have hsub := outside_sublist h
  rwa [List.zipIdx_map_fst] at hsub

theorem lines_outside {t : Text} (h : ofText t = .ok r) :
    Text.lines r.outside.flatten = r.outside.map Text.chomp := by
  rw [Text.lines, ((Text.areLines_rawLines t).sublist (outside_sublist_rawLines h)).rawLines_flatten]

theorem ofText_makeLocal {names : List Text} {t : Text} (hcomments : InlineComments t)
    (hmarkers : ∀ line ∈ Text.rawLines t, Marker.IsWhole line)
    (hnames : ∀ name ∈ names, name.head? ≠ some '.') :
    ofText (makeLocal names t) = (ofText t).map (map (makeLocal names)) := by
  rw [ofText, rawLines_makeLocal names hcomments, List.zipIdx_map]
  refine ofLines_map fun l hl => Marker.ofLine?_makeLocal hnames (hmarkers l.1 ?_)
  exact List.fst_mem_of_mem_zipIdx hl

end Regions

end CartPatch.Assembly
