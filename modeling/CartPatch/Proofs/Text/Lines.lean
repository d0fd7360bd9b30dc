import CartPatch.Text.Blank
import Mathlib.Data.List.Basic

/-!
The lines of a text. A line ends behind its line feed, whatever follows (`rawLines_append_lineFeed`);
with the last line, which may have none, this settles the lines of every text. Lines that are taken
from a text in order and put together again are the lines of what they make (`rawLines_flatten`), and
so are lines that are joined by line feeds (`lines_intercalate`).
-/

namespace CartPatch.Text

theorem rawLines_append_lineFeed {x : Text} (h : '\n' ∉ x) (y : Text) :
    rawLines (x ++ '\n' :: y) = (x ++ ['\n']) :: rawLines y := by
  induction x with
  | nil => simp [rawLines]
  | cons c x ih =>
    obtain ⟨hc, hx⟩ : '\n' ≠ c ∧ '\n' ∉ x := by simpa using h
    simp [rawLines, hc.symm, ih hx]

theorem rawLines_of_notMem {x : Text} (hne : x ≠ []) (h : '\n' ∉ x) : rawLines x = [x] := by
  induction x with
  | nil => exact absurd rfl hne
  | cons c x ih =>
    obtain ⟨hc, hx⟩ : '\n' ≠ c ∧ '\n' ∉ x := by simpa using h
    by_cases hnil : x = []
    · simp [rawLines, hc.symm, hnil]
    · simp [rawLines, hc.symm, ih hnil hx]

@[elab_as_elim]
theorem lineInduction {motive : Text → Prop} (last : ∀ x, '\n' ∉ x → motive x)
    (line : ∀ x y, '\n' ∉ x → motive y → motive (x ++ '\n' :: y)) (t : Text) : motive t := by
  by_cases h : '\n' ∈ t
  · obtain ⟨x, y, rfl, hx⟩ := List.eq_append_cons_of_mem h
    exact line x y hx (lineInduction last line y)
  · exact last t h
termination_by t.length

theorem rawLines_append_of_lineFeed (x y : Text) :
    rawLines (x ++ '\n' :: y) = rawLines (x ++ ['\n']) ++ rawLines y := by
  induction x using lineInduction with
  | last x hx =>
    rw [rawLines_append_lineFeed hx, rawLines_append_lineFeed hx]
    rfl
  | line x z hx ih =>
    rw [List.append_assoc, List.cons_append, rawLines_append_lineFeed hx, ih, List.append_assoc,
      List.cons_append, rawLines_append_lineFeed hx, List.cons_append]

/-- Lines that are put together by writing each with its end keep their own lines. -/
theorem rawLines_unlines_append (ls : List Text) (y : Text) :
    rawLines (unlines ls ++ y) = rawLines (unlines ls) ++ rawLines y := by
  induction ls with
  | nil => rfl
  | cons l ls ih =>
    rw [unlines_cons, List.append_assoc, List.cons_append, rawLines_append_of_lineFeed, ih,
      rawLines_append_of_lineFeed l (unlines ls), List.append_assoc]

theorem getLast?_of_mem_rawLines {l x : Text} (h : l ∈ rawLines (x ++ ['\n'])) :
    l.getLast? = some '\n' := by
  induction x using lineInduction with
  | last x hx =>
    rw [rawLines_append_lineFeed hx, rawLines, List.mem_singleton] at h
    rw [h, List.getLast?_concat]
  | line x y hx ih =>
    rw [List.append_assoc, List.cons_append, rawLines_append_lineFeed hx, List.mem_cons] at h
    rcases h with rfl | h
    · rw [List.getLast?_concat]
    · exact ih h

theorem getLast?_of_mem_rawLines_unlines {l : Text} {ls : List Text} (h : l ∈ rawLines (unlines ls)) :
    l.getLast? = some '\n' := by
  induction ls with
  | nil => cases h
  | cons x ls ih =>
    rw [unlines_cons, rawLines_append_of_lineFeed, List.mem_append] at h
    exact h.elim getLast?_of_mem_rawLines ih

theorem getLast?_append_flatten {c : Char} {t : Text} {ls : List Text} (ht : t.getLast? = some c)
    (h : ∀ l ∈ ls, l.getLast? = some c) : (t ++ ls.flatten).getLast? = some c := by
  induction ls generalizing t with
  | nil => rwa [List.flatten_nil, List.append_nil]
  | cons l ls ih =>
    obtain ⟨hl, hls⟩ := List.forall_mem_cons.1 h
    rw [List.flatten_cons, ← List.append_assoc]
    exact ih (by rw [List.getLast?_append, hl]; rfl) hls

/-- Lines of a text: each ends with its only line feed, but the last may have none. -/
inductive AreLines : List Text → Prop where
  | nil : AreLines []
  | last {x : Text} : x ≠ [] → '\n' ∉ x → AreLines [x]
  | cons {x : Text} {ls : List Text} : '\n' ∉ x → AreLines ls → AreLines ((x ++ ['\n']) :: ls)

theorem areLines_rawLines (t : Text) : AreLines (rawLines t) := by
  induction t using lineInduction with
  | last x hx =>
    by_cases hnil : x = []
    · rw [hnil]
      exact .nil
    · rw [rawLines_of_notMem hnil hx]
      exact .last hnil hx
  | line x y hx ih =>
    rw [rawLines_append_lineFeed hx]
    exact .cons hx ih

namespace AreLines

variable {ls ls' : List Text}

theorem sublist (h : AreLines ls) (hsub : ls'.Sublist ls) : AreLines ls' := by
  induction h generalizing ls' with
  | nil =>
    rw [List.sublist_nil.1 hsub]
    exact .nil
  | last hne hx =>
    cases hsub with
    | cons _ hsub =>
      rw [List.sublist_nil.1 hsub]
      exact .nil
    | cons_cons _ hsub =>
      rw [List.sublist_nil.1 hsub]
      exact .last hne hx
  | cons hx _ ih =>
    cases hsub with
    | cons _ hsub => exact ih hsub
    | cons_cons _ hsub => exact .cons hx (ih hsub)

theorem map {f : Text → Text} (h : AreLines ls) (hnil : ∀ x, f x = [] → x = [])
    (hfeed : ∀ x, '\n' ∉ x → '\n' ∉ f x) (hconcat : ∀ x, f (x ++ ['\n']) = f x ++ ['\n']) :
    AreLines (ls.map f) := by
  induction h with
  | nil => exact .nil
  | last hne hx => exact .last (mt (hnil _) hne) (hfeed _ hx)
  | cons hx _ ih =>
    rw [List.map_cons, hconcat]
    exact .cons (hfeed _ hx) ih

theorem rawLines_flatten (h : AreLines ls) : rawLines ls.flatten = ls := by
  induction h with
  | nil => rfl
  | last hne hx => simp [rawLines_of_notMem hne hx]
  | cons hx _ ih => rw [List.flatten_cons, List.append_assoc, List.singleton_append,
      rawLines_append_lineFeed hx, ih]

end AreLines

section Ends

variable {l m : Text}

theorem chomp_append_return : chomp (m ++ ['\r', '\n']) = m := by simp [chomp]

theorem chomp_append_lineFeed (h : m.getLast? ≠ some '\r') : chomp (m ++ ['\n']) = m := by
  have hreverse : m.reverse.head? ≠ some '\r' := by simpa using h
  unfold chomp
  simp only [List.reverse_append, List.reverse_singleton, List.singleton_append]
  split <;> grind

theorem chomp_of_getLast? (h : l.getLast? ≠ some '\n') : chomp l = l := by
  have hreverse : l.reverse.head? ≠ some '\n' := by simpa using h
  unfold chomp
  split <;> simp_all

theorem chomp_cases (l : Text) :
    (∃ m, l = m ++ ['\r', '\n'] ∧ chomp l = m) ∨
      (∃ m, l = m ++ ['\n'] ∧ m.getLast? ≠ some '\r' ∧ chomp l = m) ∨
      l.getLast? ≠ some '\n' ∧ chomp l = l := by
  by_cases hfeed : l.getLast? = some '\n'
  · obtain ⟨m, rfl⟩ := List.getLast?_eq_some_iff.1 hfeed
    by_cases hreturn : m.getLast? = some '\r'
    · obtain ⟨m, rfl⟩ := List.getLast?_eq_some_iff.1 hreturn
      rw [List.append_assoc]
      exact .inl ⟨m, rfl, chomp_append_return⟩
    · exact .inr (.inl ⟨m, rfl, hreturn, chomp_append_lineFeed hreturn⟩)
  · exact .inr (.inr ⟨hfeed, chomp_of_getLast? hfeed⟩)

end Ends

section Joined

variable {sep : Text} {ls : List Text}

theorem head?_intercalate (h : ∀ l ∈ ls, l ≠ []) :
    (sep.intercalate ls).head? = ls.head?.bind List.head? := by
  match ls with
  | [] => rfl
  | [l] => simp
  | l :: l' :: ls =>
    rw [List.intercalate_cons_cons, List.append_assoc,
      List.head?_append_of_ne_nil _ (h l List.mem_cons_self)]
    rfl

theorem getLast?_intercalate (h : ∀ l ∈ ls, l ≠ []) :
    (sep.intercalate ls).getLast? = ls.getLast?.bind List.getLast? := by
  induction ls with
  | nil => rfl
  | cons l ls ih =>
    obtain ⟨-, hls⟩ := List.forall_mem_cons.1 h
    cases ls with
    | nil => simp
    | cons l' ls =>
      have hlast := List.getLast?_eq_some_getLast (List.cons_ne_nil l' ls)
      have hne := hls _ (List.getLast_mem (List.cons_ne_nil l' ls))
      rw [List.intercalate_cons_cons, List.getLast?_append, ih hls, List.getLast?_cons_cons, hlast,
        Option.bind_some, List.getLast?_eq_some_getLast hne, Option.some_or]

theorem lines_intercalate (h : ∀ l ∈ ls, l ≠ [] ∧ '\n' ∉ l ∧ l.getLast? ≠ some '\r') :
    lines (['\n'].intercalate ls) = ls := by
  induction ls with
  | nil => rfl
  | cons l ls ih =>
    obtain ⟨⟨hne, hfeed, hreturn⟩, hls⟩ := List.forall_mem_cons.1 h
    cases ls with
    | nil =>
      have hlast : l.getLast? ≠ some '\n' := fun hlast => hfeed (List.mem_of_getLast? hlast)
      rw [List.intercalate_singleton, lines, rawLines_of_notMem hne hfeed, List.map_singleton,
        chomp_of_getLast? hlast]
    | cons l' ls =>
      rw [List.intercalate_cons_cons, List.append_assoc, List.singleton_append, lines,
        rawLines_append_lineFeed hfeed, List.map_cons, chomp_append_lineFeed hreturn]
      exact congrArg (l :: ·) (ih hls)

end Joined

end CartPatch.Text
