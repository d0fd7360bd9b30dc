import CartPatch.Text.Blank
import Mathlib.Data.List.Basic

/-!
Texts that are trimmed, and texts that are cut in two. Trimming leaves a text alone that has no blank
at either end (`Tight.trim_eq`), and it leaves no such blank (`tight_trim`). A text is cut at a
character where that stands first (`cut?_eq_some`), and only if it stands in it (`cut?_eq_none`).
-/

namespace CartPatch.Text

/-- A text with a character at either end that is not blank. -/
structure Tight (t : Text) : Prop where
  ne_nil : t ≠ []
  first : ∀ c ∈ t.head?, isBlank c = false
  last : ∀ c ∈ t.getLast?, isBlank c = false

theorem tight_of_forall {t : Text} (hne : t ≠ []) (h : ∀ c ∈ t, isBlank c = false) : Tight t :=
  ⟨hne, fun c hc => h c (List.mem_of_mem_head? hc), fun c hc => h c (List.mem_of_mem_getLast? hc)⟩

theorem Tight.around {s t : Text} (hs : Tight s) (ht : Tight t) (middle : Text) :
    Tight (s ++ (middle ++ t)) := by
  refine ⟨by simp [hs.ne_nil], ?_, ?_⟩
  · rw [List.head?_append_of_ne_nil s hs.ne_nil]
    exact hs.first
  · rw [← List.append_assoc, List.getLast?_append_of_ne_nil _ ht.ne_nil]
    exact ht.last

theorem dropWhile_eq_self {p : Char → Bool} {t : Text} (h : ∀ c ∈ t.head?, p c = false) :
    t.dropWhile p = t := by
  cases t with
  | nil => rfl
  | cons c t =>
    have hc : p c = false := h c rfl
    simp [List.dropWhile, hc]

theorem Tight.trim_eq {t : Text} (h : Tight t) : trim t = t := by
  have hstart : trimStart t = t := dropWhile_eq_self h.first
  have hend : t.reverse.dropWhile isBlank = t.reverse := by
    apply dropWhile_eq_self
    simpa only [List.head?_reverse] using h.last
  rw [trim, hstart, trimEnd, hend, List.reverse_reverse]

theorem eq_false_of_head?_dropWhile {p : Char → Bool} {t : Text} {c : Char}
    (h : c ∈ (t.dropWhile p).head?) : p c = false := by
  have hnot := List.head?_dropWhile_not p t
  rwa [h] at hnot

theorem tight_trim {t : Text} (h : trim t ≠ []) : Tight (trim t) := by
  have hend : trimStart t = trim t ++ ((trimStart t).reverse.takeWhile isBlank).reverse := by
    rw [trim, trimEnd, ← List.reverse_append, List.takeWhile_append_dropWhile, List.reverse_reverse]
  refine ⟨h, fun c hc => ?_, fun c hc => ?_⟩
  · rw [← List.head?_append_of_ne_nil _ h, ← hend] at hc
    exact eq_false_of_head?_dropWhile hc
  · rw [trim, trimEnd, List.getLast?_reverse] at hc
    exact eq_false_of_head?_dropWhile hc

theorem trim_trim (t : Text) : trim (trim t) = trim t := by
  by_cases h : trim t = []
  · rw [h, trim_nil]
  · exact (tight_trim h).trim_eq

theorem trim_space_cons (t : Text) : trim (' ' :: t) = trim t := by
  have hb : isBlank ' ' = true := by decide
  simp [trim, trimStart, List.dropWhile, hb]

theorem cut?_append_cons {p : Char → Bool} {a : Text} {c : Char} (b : Text)
    (ha : ∀ x ∈ a, p x = false) (hc : p c = true) : cut? p (a ++ c :: b) = some (a, b) := by
  induction a with
  | nil => simp [cut?, hc]
  | cons x a ih =>
    have hx := ha x List.mem_cons_self
    have hrest := ih fun y hy => ha y (List.mem_cons_of_mem x hy)
    simp [cut?, hx, hrest]

theorem cut?_of_not_mem {c : Char} {a : Text} (h : c ∉ a) (b : Text) :
    cut? (· == c) (a ++ c :: b) = some (a, b) :=
  cut?_append_cons b (fun x hx => by simpa using ne_of_mem_of_not_mem hx h) (by simp)

theorem cut?_eq_some {c : Char} {t a b : Text} :
    cut? (· == c) t = some (a, b) ↔ t = a ++ c :: b ∧ c ∉ a := by
  constructor
  · intro h
    induction t generalizing a with
    | nil => cases h
    | cons x t ih =>
      rw [cut?] at h
      split at h
      · rename_i hx
        cases h
        exact ⟨by rw [eq_of_beq hx, List.nil_append], List.not_mem_nil⟩
      · rename_i hx
        obtain ⟨⟨a', b'⟩, hcut, heq⟩ := Option.map_eq_some_iff.1 h
        cases heq
        obtain ⟨rfl, ha⟩ := ih hcut
        refine ⟨rfl, fun hmem => ?_⟩
        rcases List.mem_cons.1 hmem with rfl | hmem
        · exact hx (beq_self_eq_true _)
        · exact ha hmem
  · rintro ⟨rfl, ha⟩
    exact cut?_of_not_mem ha b

theorem cut?_eq_none {c : Char} {t : Text} : cut? (· == c) t = none ↔ c ∉ t := by
  constructor
  · intro h hmem
    obtain ⟨a, b, rfl, ha⟩ := List.eq_append_cons_of_mem hmem
    rw [cut?_of_not_mem ha] at h
    cases h
  · intro h
    refine Option.eq_none_iff_forall_ne_some.2 fun ⟨a, b⟩ hcut => h ?_
    rw [(cut?_eq_some.1 hcut).1]
    exact List.mem_append_right a List.mem_cons_self

end CartPatch.Text
