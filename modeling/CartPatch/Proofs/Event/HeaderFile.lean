import CartPatch.Proofs.Event.Header

/-!
The files of custom events. A file is an event when no header line has a fault, some gives a name and
some gives builds (`Describes`); what is wrong otherwise is found in this order (`Fault`). The lines
behind the header are never looked at.
-/

namespace CartPatch.Event

open Text Lookup Outcome Header

namespace CustomEvent

/-- A file whose header lines are an event: none has a fault, the event has the last name, and it has
the builds, the way to run and the parameters that are said of it. -/
structure Describes (ls : List Text) (e : CustomEvent) : Prop where
  faultless : ∀ l ∈ ls, ¬Faulty l
  said : ∃ given : Key → List Text, (∀ key, Gathers (Gives · key ·) ls (given key)) ∧
    MakesUp given ⟨some e.name, e.builds, e.execution, e.parameters⟩
  builds_said : ∃ l ∈ ls, ∃ value, Gives l .builds value

/-- Why a file is no event. A line with a fault counts first, then that there is no name, and last
that there are no builds. -/
inductive Fault (ls : List Text) : EventError → Prop where
  | line {e : EventError} (h : FirstFault ls e) : Fault ls e
  | noName (hlines : ∀ l ∈ ls, ¬Faulty l) (h : ∀ l ∈ ls, ∀ value, ¬Gives l .name value) :
      Fault ls (.missingHeader "NAME")
  | noBuilds (hlines : ∀ l ∈ ls, ¬Faulty l) (hname : ∃ l ∈ ls, ∃ value, Gives l .name value)
      (h : ∀ l ∈ ls, ∀ value, ¬Gives l .builds value) : Fault ls (.missingHeader "GAMES")

section Files

variable {t : Text} {ls : List Text} {key : Key} {h : Header} {e : CustomEvent} {fault : EventError}

theorem gathers_values {found : List Text} :
    Gathers (Gives · key ·) ls found ↔ found = values ls key :=
  gathers_iff fun _ _ => value?_eq_some

theorem values_eq_nil : values ls key = [] ↔ ∀ l ∈ ls, ∀ value, ¬Gives l key value := by
  rw [values, List.filterMap_eq_nil_iff]
  exact forall₂_congr fun l _ => value?_eq_none

theorem name_eq_none (hup : MakesUp (values ls) h) :
    h.name = none ↔ ∀ l ∈ ls, ∀ value, ¬Gives l .name value := by
  rw [hup.name, List.getLast?_eq_none_iff, values_eq_nil]

theorem builds_eq_nil (hup : MakesUp (values ls) h) :
    h.builds = [] ↔ ∀ l ∈ ls, ∀ value, ¬Gives l .builds value := by
  rw [← values_eq_nil]
  have hbuilds := hup.builds
  constructor
  · intro hnil
    rw [hnil, List.forall₂_nil_right_iff, List.flatMap_eq_nil_iff] at hbuilds
    exact List.eq_nil_iff_forall_not_mem.2 fun value hvalue =>
      List.splitOn_ne_nil _ _ (hbuilds value hvalue)
  · intro hnil
    rw [hnil, List.flatMap_nil, List.forall₂_nil_left_iff] at hbuilds
    exact hbuilds

theorem parse_of_read (hread : ((headings t).zipIdx 1).foldlM readLine blank = .ok h) :
    parse t =
      match h.name with
      | none => .error (.missingHeader "NAME")
      | some name =>
        if h.builds.isEmpty then .error (.missingHeader "GAMES")
        else .ok ⟨name, h.builds, h.execution, h.parameters, t⟩ := by
  rw [parse, numberedLines, readLines_eq_foldlM]
  refine (bind_of_ok hread _).trans ?_
  cases h.name <;> rfl

theorem parse_of_not_read {fault : EventError}
    (hread : ((headings t).zipIdx 1).foldlM readLine blank = .error fault) :
    parse t = .error fault := by
  rw [parse, numberedLines, readLines_eq_foldlM]
  exact bind_of_error hread _

theorem parse_eq_ok : parse t = .ok e ↔ Describes (headings t) e ∧ e.body = t := by
  cases hread : ((headings t).zipIdx 1).foldlM readLine blank with
  | error fault =>
    rw [parse_of_not_read hread]
    exact iff_of_false (by simp) fun ⟨hdescribes, _⟩ => not_faultless hread hdescribes.faultless
  | ok h =>
    have hup := makesUp_of_read hread
    rw [parse_of_read hread]
    constructor
    · intro hparse
      cases hname : h.name with
      | none => simp [hname] at hparse
      | some name =>
        simp only [hname] at hparse
        split at hparse
        · cases hparse
        · rename_i hbuilds
          cases hparse
          have hbuilds := mt (builds_eq_nil hup).2 (by simpa using hbuilds)
          push Not at hbuilds
          refine ⟨⟨exists_read.1 ⟨h, hread⟩, ⟨values (headings t), fun key => gathers_values.2 rfl, ?_⟩,
            hbuilds⟩, rfl⟩
          rwa [← hname]
    · rintro ⟨⟨-, ⟨given, hgiven, hdescribed⟩, hbuilds⟩, rfl⟩
      obtain rfl : given = values (headings e.body) := funext fun key => gathers_values.1 (hgiven key)
      obtain rfl := hup.unique hdescribed
      have hne : e.builds.isEmpty = false := by
        rw [List.isEmpty_eq_false_iff, ne_eq, builds_eq_nil hup]
        push Not
        exact hbuilds
      simp [hne]

theorem parse_eq_error : parse t = .error fault ↔ Fault (headings t) fault := by
  cases hread : ((headings t).zipIdx 1).foldlM readLine blank with
  | error first =>
    rw [parse_of_not_read hread]
    constructor
    · rintro ⟨⟩
      exact .line (read_eq_error.1 hread)
    · intro hfault
      cases hfault with
      | line hfirst =>
        cases hread.symm.trans (read_eq_error.2 hfirst)
        rfl
      | noName hfaultless | noBuilds hfaultless => exact absurd hfaultless (not_faultless hread)
  | ok h =>
    have hup := makesUp_of_read hread
    have hfaultless := exists_read.1 ⟨h, hread⟩
    rw [parse_of_read hread]
    constructor
    · intro hparse
      cases hname : h.name with
      | none =>
        simp only [hname] at hparse
        cases hparse
        exact .noName hfaultless ((name_eq_none hup).1 hname)
      | some name =>
        simp only [hname] at hparse
        split at hparse
        · rename_i hbuilds
          cases hparse
          have hname := mt (name_eq_none hup).2 (by simp [hname])
          push Not at hname
          exact .noBuilds hfaultless hname ((builds_eq_nil hup).1 (by simpa using hbuilds))
        · cases hparse
    · intro hfault
      cases hfault with
      | line hfirst =>
        rw [read_eq_error.2 hfirst] at hread
        cases hread
      | noName _ hname => rw [(name_eq_none hup).2 hname]
      | noBuilds _ hname hbuilds =>
        obtain ⟨name, hname⟩ : ∃ name, h.name = some name := by
          rw [← Option.isSome_iff_exists, Option.isSome_iff_ne_none, ne_eq, name_eq_none hup]
          push Not
          exact hname
        simp [hname, (builds_eq_nil hup).2 hbuilds]

/-- What is read from the file of a custom event. It is told from the header alone, up to the first
line that is neither blank nor a comment; only the body of the event is the whole file. A file is an
event just when no header line has a fault, some line names the event, and some line gives builds. The
id is the name as part of a label. -/
theorem parse_reads_header (t : Text) :
    (∀ e, parse t = .ok e ↔ Describes (headings t) e ∧ e.body = t) ∧
      (∀ e, parse t = .ok e → e.id = labelSafe e.name) ∧
      (∀ fault, parse t = .error fault ↔ Fault (headings t) fault) ∧
      ∀ t', headings t' = headings t →
        (∀ e, parse t = .ok e → parse t' = .ok { e with body := t' }) ∧
          ∀ fault, parse t = .error fault → parse t' = .error fault := by
  refine ⟨fun e => parse_eq_ok, fun e _ => rfl, fun fault => parse_eq_error, fun t' hheader => ⟨?_, ?_⟩⟩
  · intro e hparse
    obtain ⟨⟨hfaultless, hsaid, hbuilds⟩, -⟩ := parse_eq_ok.1 hparse
    exact parse_eq_ok.2 ⟨hheader ▸ ⟨hfaultless, hsaid, hbuilds⟩, rfl⟩
  · intro fault hparse
    rw [parse_eq_error, hheader]
    exact parse_eq_error.1 hparse

example : parse "; NAME: Late\nNOP\n; GAMES: MP1_USA" = .error (.missingHeader "GAMES") := by
  decide +kernel

end Files

end CustomEvent

end CartPatch.Event
