import CartPatch.Event.Custom
import CartPatch.Proofs.Lookup
import CartPatch.Proofs.Outcome
import CartPatch.Proofs.Text.Cut
import Mathlib.Data.List.Induction

/-!
The header lines of custom events. A heading is a blank line or a comment, and the header is the
headings that a file begins with (`headings`). Some of them give a value to a key (`Gives`), and a key
may refuse it (`Refuses`). Lines are read up to the first that has such a fault (`read_eq_error`), and
without one the header is made up of what every key was given, in order (`makesUp_of_read`).
-/

namespace CartPatch.Event

open Text Outcome

namespace Header

inductive Key where
  | name | builds | execution | parameter
  deriving DecidableEq

def Key.text : Key → Text
  | name => "NAME"
  | builds => "GAMES"
  | execution => "EXECUTION"
  | parameter => "PARAM"

/-- Whether a line may stand in a header: it is blank, or it begins with a semicolon. -/
def isHeading (line : Text) : Bool :=
  match trim line with
  | [] => true
  | c :: _ => c == ';'

/-- The lines of a file up to the first that is no heading. -/
def headings (t : Text) : List Text := (lines t).takeWhile isHeading

/-- A line that gives a key a value. The key is whatever stands between the semicolon and the first
colon, in capital or small letters, and the value is what stands behind that colon. -/
def Gives (line : Text) (key : Key) (value : Text) : Prop :=
  ∃ name rest, trim line = ';' :: (name ++ ':' :: rest) ∧ ':' ∉ name ∧
    sameName (trim name) key.text ∧ trim rest = value

def IsBuild (t : Text) (b : Build) : Prop := sameName b.id (trim t)

/-- A value that is a type, a bar and the name of a parameter. -/
def IsParameter (value : Text) (p : Parameter) : Prop :=
  ∃ type name, value = type ++ '|' :: name ∧ '|' ∉ type ∧ p = ⟨trim name, .ofText type⟩

inductive Refuses : Key → Text → Prop where
  | emptyName : Refuses .name []
  | unknownBuild {value t : Text} (ht : t ∈ value.splitOn ',') (h : ∀ b, ¬IsBuild t b) :
      Refuses .builds value
  | unknownExecution {value : Text} (h : ∀ e : Execution, (e.name : Text) ≠ value) :
      Refuses .execution value
  | noBar {value : Text} (h : '|' ∉ value) : Refuses .parameter value

def Faulty (line : Text) : Prop := ∃ key value, Gives line key value ∧ Refuses key value

/-- What values that keys were given, each in order, make up. Of the names and of the ways to run the
last one counts, builds and parameters add up, and an event runs directly when nothing is said of it. -/
structure MakesUp (given : Key → List Text) (h : Header) : Prop where
  name : h.name = (given .name).getLast?
  builds : List.Forall₂ IsBuild ((given .builds).flatMap (·.splitOn ',')) h.builds
  execution : (h.execution.name : Text) ∈ (given .execution).getLast? ∨
    given .execution = [] ∧ h.execution = .direct
  parameters : List.Forall₂ IsParameter (given .parameter) h.parameters

/-- The first line with a fault, by its number, which begins at one. -/
def FirstFault (ls : List Text) (e : EventError) : Prop :=
  ∃ before line behind, ls = before ++ line :: behind ∧ (∀ l ∈ before, ¬Faulty l) ∧ Faulty line ∧
    e = .invalidHeader (before.length + 1) (trim line)

section Lines

variable {line value : Text} {key : Key}

/-- What stands on either side of the first colon of a comment. -/
def parts? (line : Text) : Option (Text × Text) :=
  match trim line with
  | ';' :: comment => (cut? (· == ':') comment).map fun parts => (trim parts.1, trim parts.2)
  | _ => none

theorem gives_iff :
    Gives line key value ↔ ∃ name, parts? line = some (name, value) ∧ sameName name key.text := by
  constructor
  · rintro ⟨name, rest, htrim, hname, hkey, rfl⟩
    refine ⟨trim name, ?_, hkey⟩
    rw [parts?, htrim]
    simp only [cut?_of_not_mem hname, Option.map_some]
  · rintro ⟨name, hentry, hkey⟩
    unfold parts? at hentry
    split at hentry
    · rename_i comment htrim
      obtain ⟨⟨name, rest⟩, hcut, hparts⟩ := Option.map_eq_some_iff.1 hentry
      cases hparts
      obtain ⟨rfl, hname⟩ := cut?_eq_some.1 hcut
      exact ⟨name, rest, htrim, hname, hkey, rfl⟩
    · cases hentry

def value? (key : Key) (line : Text) : Option Text :=
  ((parts? line).filter fun entry => sameName entry.1 key.text).map Prod.snd

theorem value?_eq_some : value? key line = some value ↔ Gives line key value := by
  simp [value?, gives_iff, Option.filter_eq_some_iff]

theorem value?_eq_none : value? key line = none ↔ ∀ value, ¬Gives line key value := by
  rw [Option.eq_none_iff_forall_ne_some]
  exact forall_congr' fun value => not_congr value?_eq_some

end Lines

section Values

variable {line value t : Text} {ls : List Text} {key key' : Key} {h h' : Header}
  {given : Key → List Text}

theorem Key.eq_of_sameName {name : Text} (h : sameName name key.text = true)
    (h' : sameName name key'.text = true) : key = key' := by
  have hlower : lower key.text = lower key'.text := (eq_of_beq h).symm.trans (eq_of_beq h')
  revert hlower
  cases key <;> cases key' <;> decide

theorem Gives.key_eq (h : Gives line key value) {value' : Text} (h' : Gives line key' value') :
    key = key' := by
  obtain ⟨name, hentry, hkey⟩ := gives_iff.1 h
  obtain ⟨name', hentry', hkey'⟩ := gives_iff.1 h'
  rw [hentry] at hentry'
  cases hentry'
  exact Key.eq_of_sameName hkey hkey'

def Key.take? (key : Key) (h : Header) (value : Text) : Option Header :=
  match key with
  | .name => if value.isEmpty then none else some { h with name := some value }
  | .builds => ((value.splitOn ',').mapM fun t => Build.ofText? (trim t)).map fun builds =>
      { h with builds := h.builds ++ builds }
  | .execution => (Execution.ofText? value).map fun execution => { h with execution }
  | .parameter => (cut? (· == '|') value).map fun parts =>
      { h with parameters := h.parameters ++ [⟨trim parts.2, .ofText parts.1⟩] }

theorem set?_of_sameName {name : Text} (hname : sameName name key.text = true) :
    h.set? name value = key.take? h value := by
  have hother (key' : Key) (hne : key' ≠ key) : ¬sameName name key'.text = true :=
    fun hkey' => hne (Key.eq_of_sameName hkey' hname)
  cases key with
  | name => exact if_pos hname
  | builds =>
    refine (if_neg (hother .name (by decide))).trans ((if_pos hname).trans ?_)
    rw [Key.take?]
    cases (value.splitOn ',').mapM fun t => Build.ofText? (trim t) <;> rfl
  | execution =>
    refine (if_neg (hother .name (by decide))).trans ((if_neg (hother .builds (by decide))).trans ?_)
    refine (if_pos hname).trans ?_
    rw [Key.take?]
    cases Execution.ofText? value <;> rfl
  | parameter =>
    refine (if_neg (hother .name (by decide))).trans ((if_neg (hother .builds (by decide))).trans ?_)
    refine (if_neg (hother .execution (by decide))).trans ((if_pos hname).trans ?_)
    rw [Key.take?]
    cases cut? (· == '|') value <;> rfl

theorem set?_of_not_sameName {name : Text} (hname : ∀ key : Key, ¬sameName name key.text = true) :
    h.set? name value = some h :=
  (if_neg (hname .name)).trans ((if_neg (hname .builds)).trans ((if_neg (hname .execution)).trans
    (if_neg (hname .parameter))))

theorem ofText?_eq_some_iff_isBuild {b : Build} : Build.ofText? (trim t) = some b ↔ IsBuild t b := by
  rw [Build.ofText?, Lookup.find?_sameName_eq_some (by decide +kernel), IsBuild,
    and_iff_right (by cases b <;> decide)]

theorem ofText?_eq_some_iff_name {e : Execution} :
    Execution.ofText? value = some e ↔ (e.name : Text) = value := by
  rw [Execution.ofText?, Lookup.find?_key_eq_some (by decide +kernel),
    and_iff_right (by cases e <;> decide)]

theorem cut?_eq_some_iff_isParameter {p : Parameter} :
    (cut? (· == '|') value).map (fun parts => (⟨trim parts.2, .ofText parts.1⟩ : Parameter)) = some p ↔
      IsParameter value p := by
  rw [Option.map_eq_some_iff]
  constructor
  · rintro ⟨⟨type, name⟩, hcut, rfl⟩
    obtain ⟨rfl, htype⟩ := cut?_eq_some.1 hcut
    exact ⟨type, name, rfl, htype, rfl⟩
  · rintro ⟨type, name, rfl, htype, rfl⟩
    exact ⟨_, cut?_of_not_mem htype name, rfl⟩

theorem take?_eq_none : key.take? h value = none ↔ Refuses key value := by
  cases key with
  | name =>
    constructor
    · intro hnone
      cases value with
      | nil => exact .emptyName
      | cons c value => cases hnone
    · rintro ⟨⟩
      rfl
  | builds =>
    rw [Key.take?, Option.map_eq_none_iff, mapM_eq_none]
    constructor
    · rintro ⟨t, ht, hnone⟩
      exact .unknownBuild ht fun b hb => by simp [ofText?_eq_some_iff_isBuild.2 hb] at hnone
    · intro hrefuses
      cases hrefuses with
      | unknownBuild ht hb =>
        exact ⟨_, ht, Option.eq_none_iff_forall_ne_some.2 fun b hsome =>
          hb b (ofText?_eq_some_iff_isBuild.1 hsome)⟩
  | execution =>
    rw [Key.take?, Option.map_eq_none_iff, Option.eq_none_iff_forall_ne_some]
    simp only [ne_eq, ofText?_eq_some_iff_name]
    constructor
    · exact fun hnone => .unknownExecution hnone
    · intro hrefuses
      cases hrefuses with
      | unknownExecution hnone => exact hnone
  | parameter =>
    rw [Key.take?, Option.map_eq_none_iff, cut?_eq_none]
    constructor
    · exact fun hbar => .noBar hbar
    · rintro ⟨⟩
      assumption

theorem makesUp_blank : MakesUp (fun _ => []) blank := ⟨rfl, .nil, .inr ⟨rfl, rfl⟩, .nil⟩

theorem MakesUp.take (hup : MakesUp given h) (htake : key.take? h value = some h') :
    MakesUp (Function.update given key (given key ++ [value])) h' := by
  obtain ⟨hname, hbuilds, hexecution, hparameters⟩ := hup
  cases key with
  | name =>
    rw [Key.take?] at htake
    split at htake
    · cases htake
    · cases htake
      exact ⟨by simp, hbuilds, hexecution, hparameters⟩
  | builds =>
    obtain ⟨builds, hmap, rfl⟩ := Option.map_eq_some_iff.1 htake
    refine ⟨hname, ?_, hexecution, hparameters⟩
    rw [Function.update_self, List.flatMap_append, List.flatMap_singleton]
    refine List.rel_append hbuilds ?_
    simpa only [ofText?_eq_some_iff_isBuild] using mapM_eq_some.1 hmap
  | execution =>
    obtain ⟨execution, hof, rfl⟩ := Option.map_eq_some_iff.1 htake
    refine ⟨hname, hbuilds, .inl ?_, hparameters⟩
    simp [ofText?_eq_some_iff_name.1 hof]
  | parameter =>
    obtain ⟨parts, hcut, rfl⟩ := Option.map_eq_some_iff.1 htake
    refine ⟨hname, hbuilds, hexecution, ?_⟩
    rw [Function.update_self]
    refine List.rel_append hparameters (.cons ?_ .nil)
    exact cut?_eq_some_iff_isParameter.1 (by rw [hcut, Option.map_some])

theorem MakesUp.unique (hup : MakesUp given h) (hup' : MakesUp given h') : h = h' := by
  obtain ⟨name, builds, execution, parameters⟩ := h
  obtain ⟨name', builds', execution', parameters'⟩ := h'
  have hname : name = name' := hup.name.trans hup'.name.symm
  have hbuilds : builds = builds' := by
    refine List.right_unique_forall₂' (fun t b b' hb hb' => ?_) hup.builds hup'.builds
    rw [← ofText?_eq_some_iff_isBuild] at hb hb'
    exact Option.some.inj (hb.symm.trans hb')
  have hparameters : parameters = parameters' := by
    refine List.right_unique_forall₂' (fun t p p' hp hp' => ?_) hup.parameters hup'.parameters
    rw [← cut?_eq_some_iff_isParameter] at hp hp'
    exact Option.some.inj (hp.symm.trans hp')
  have hexecution : execution = execution' := by
    rcases hup.execution with hlast | ⟨hnil, rfl⟩ <;> rcases hup'.execution with hlast' | ⟨hnil', rfl⟩
    · have hlast : (given .execution).getLast? = some (execution.name : Text) := hlast
      have hof := ofText?_eq_some_iff_name.2 (Option.some.inj (hlast.symm.trans hlast'))
      exact (Option.some.inj (hof.symm.trans (Execution.ofText?_name _)))
    · simp [hnil'] at hlast
    · simp [hnil] at hlast'
    · rfl
  rw [hname, hbuilds, hexecution, hparameters]

end Values

section Reading

variable {line value t t' : Text} {ls : List Text} {key : Key} {h h' : Header} {n : ℕ}
  {given : Key → List Text} {e : EventError}

/-- What a header line changes in what was said before it; none when it has a fault. -/
def setLine? (h : Header) (line : Text) : Option Header :=
  match parts? line with
  | some (key, value) => h.set? key value
  | none => some h

def readLine (h : Header) (numbered : Text × ℕ) : Except EventError Header :=
  match h.setLine? numbered.1 with
  | some h' => .ok h'
  | none => .error (.invalidHeader numbered.2 (trim numbered.1))

theorem setLine?_of_gives (hgives : Gives line key value) : h.setLine? line = key.take? h value := by
  obtain ⟨name, hentry, hkey⟩ := gives_iff.1 hgives
  simp only [setLine?, hentry, set?_of_sameName hkey]

theorem setLine?_of_not_gives (hgives : ∀ key value, ¬Gives line key value) :
    h.setLine? line = some h := by
  unfold setLine?
  split
  · rename_i name value hentry
    exact set?_of_not_sameName fun key hkey => hgives key value (gives_iff.2 ⟨name, hentry, hkey⟩)
  · rfl

def values (ls : List Text) (key : Key) : List Text := ls.filterMap (value? key)

theorem setLine?_eq_none : h.setLine? line = none ↔ Faulty line := by
  constructor
  · intro hnone
    by_cases hgives : ∃ key value, Gives line key value
    · obtain ⟨key, value, hgives⟩ := hgives
      rw [setLine?_of_gives hgives] at hnone
      exact ⟨key, value, hgives, take?_eq_none.1 hnone⟩
    · simp only [not_exists] at hgives
      simp [setLine?_of_not_gives hgives] at hnone
  · rintro ⟨key, value, hgives, hrefuses⟩
    rw [setLine?_of_gives hgives, take?_eq_none.2 hrefuses]

theorem readLine_eq_ok : h.readLine (line, n) = .ok h' ↔ h.setLine? line = some h' := by
  rw [readLine]
  cases h.setLine? line <;> simp

theorem readLine_eq_error :
    h.readLine (line, n) = .error e ↔ Faulty line ∧ e = .invalidHeader n (trim line) := by
  rw [← setLine?_eq_none (h := h), readLine]
  cases h.setLine? line <;> simp [eq_comm]

theorem values_concat (ls : List Text) (line : Text) (key : Key) :
    values (ls ++ [line]) key = values ls key ++ (value? key line).toList := by
  simp only [values, List.filterMap_eq_flatMap_toList, List.flatMap_append, List.flatMap_singleton]

theorem MakesUp.setLine (hup : MakesUp (values ls) h) (hset : h.setLine? line = some h') :
    MakesUp (values (ls ++ [line])) h' := by
  by_cases hgives : ∃ key value, Gives line key value
  · obtain ⟨key, value, hgives⟩ := hgives
    rw [setLine?_of_gives hgives] at hset
    have hvalues : values (ls ++ [line]) =
        Function.update (values ls) key (values ls key ++ [value]) := by
      funext key'
      rw [values_concat]
      by_cases hkey : key' = key
      · subst hkey
        rw [Function.update_self, value?_eq_some.2 hgives, Option.toList_some]
      · have hnone := value?_eq_none.2 fun value' hgives' => hkey (hgives'.key_eq hgives)
        rw [Function.update_of_ne hkey, hnone, Option.toList_none, List.append_nil]
    rw [hvalues]
    exact hup.take hset
  · simp only [not_exists] at hgives
    rw [setLine?_of_not_gives hgives] at hset
    cases hset
    have hvalues : values (ls ++ [line]) = values ls := by
      funext key
      rw [values_concat, value?_eq_none.2 (hgives key), Option.toList_none, List.append_nil]
    rwa [hvalues]

theorem readLines_cons (h : Header) (line : Text) (ls : List Text) (n : ℕ) :
    h.readLines ((line :: ls).zipIdx n) =
      if isHeading line then h.readLine (line, n) >>= fun h' => h'.readLines (ls.zipIdx (n + 1))
      else .ok h := by
  rw [List.zipIdx_cons, readLines, readLine, setLine?, parts?, isHeading]
  cases trim line with
  | nil => rfl
  | cons c comment =>
    by_cases hc : c = ';'
    · subst hc
      cases hcut : cut? (· == ':') comment with
      | none => simp [hcut, bind, Except.bind]
      | some parts =>
        cases hset : h.set? (trim parts.1) (trim parts.2) <;> simp [hcut, hset, bind, Except.bind]
    · simp [hc]

/-- Only the headings count, up to the first line that is none. -/
theorem readLines_eq_foldlM (h : Header) (ls : List Text) (n : ℕ) :
    h.readLines (ls.zipIdx n) = ((ls.takeWhile isHeading).zipIdx n).foldlM readLine h := by
  induction ls generalizing h n with
  | nil => rfl
  | cons line ls ih =>
    rw [readLines_cons]
    split
    · rename_i hheading
      rw [List.takeWhile_cons_of_pos hheading, List.zipIdx_cons, List.foldlM_cons]
      simp only [ih]
    · rename_i hheading
      rw [List.takeWhile_cons_of_neg hheading]
      rfl

theorem makesUp_of_read (hread : (ls.zipIdx n).foldlM readLine blank = .ok h) :
    MakesUp (values ls) h := by
  induction ls using List.reverseRecOn generalizing h with
  | nil =>
    cases hread
    exact makesUp_blank
  | append_singleton ls line ih =>
    rw [List.zipIdx_append, List.foldlM_append] at hread
    obtain ⟨h₁, hbefore, hline⟩ := bind_eq_ok.1 hread
    rw [List.zipIdx_cons, List.zipIdx_nil, List.foldlM_cons] at hline
    obtain ⟨h₂, hline, hlast⟩ := bind_eq_ok.1 hline
    cases hlast
    exact (ih hbefore).setLine (readLine_eq_ok.1 hline)

theorem exists_read : (∃ h', (ls.zipIdx n).foldlM readLine h = .ok h') ↔ ∀ l ∈ ls, ¬Faulty l := by
  induction ls generalizing h n with
  | nil => exact iff_of_true ⟨h, rfl⟩ (by simp)
  | cons line ls ih =>
    rw [List.zipIdx_cons, List.foldlM_cons, List.forall_mem_cons]
    cases hline : h.setLine? line with
    | none =>
      have hfault := setLine?_eq_none.1 hline
      have hread := (readLine_eq_error (h := h) (n := n)).2 ⟨hfault, rfl⟩
      refine iff_of_false ?_ fun h => h.1 hfault
      simp [bind_of_error hread]
    | some h₁ =>
      have hfault : ¬Faulty line := fun hfault => by simp [setLine?_eq_none.2 hfault] at hline
      rw [bind_of_ok (readLine_eq_ok.2 hline), ih, and_iff_right hfault]

theorem not_faultless (hread : (ls.zipIdx n).foldlM readLine h = .error e) :
    ¬∀ l ∈ ls, ¬Faulty l := by
  rw [← exists_read (h := h) (n := n), hread]
  simp

theorem read_eq_error :
    (ls.zipIdx 1).foldlM readLine blank = .error e ↔ FirstFault ls e := by
  rw [foldlM_zipIdx_eq_error]
  constructor
  · rintro ⟨before, line, behind, h, hls, hbefore, hline⟩
    obtain ⟨hfault, he⟩ := readLine_eq_error.1 hline
    rw [Nat.add_comm] at he
    exact ⟨before, line, behind, hls, exists_read.1 ⟨h, hbefore⟩, hfault, he⟩
  · rintro ⟨before, line, behind, hls, hbefore, hfault, he⟩
    obtain ⟨h, hread⟩ := exists_read.2 hbefore
    rw [Nat.add_comm] at he
    exact ⟨before, line, behind, h, hls, hread, readLine_eq_error.2 ⟨hfault, he⟩⟩

end Reading

end Header

end CartPatch.Event
