import CartPatch.Proofs.Text.Numeral
import CartPatch.Text.Blank

/-!
Words and the blanks between them. Blanks part the words of a text (`words_append_gap_append`), so
that any text in which words stand with blanks between them (`Spaced`) has just these words. There is
no blank inside a word (`isSolid_of_mem_words`).
-/

namespace CartPatch.Text

/-- A word: characters that are not blank, at least one. -/
def IsSolid (w : Text) : Prop := w ≠ [] ∧ ∀ c ∈ w, isBlank c = false

instance : DecidablePred IsSolid := fun w =>
  haveI := List.decidableBAll (isBlank · = false) w
  inferInstanceAs (Decidable (_ ∧ _))

def IsGap (s : Text) : Prop := ∀ c ∈ s, isBlank c = true

instance : DecidablePred IsGap := fun s => List.decidableBAll (isBlank · = true) s

/-- A text in which words stand in order, with blanks between them and perhaps at its ends. -/
inductive Spaced : List Text → Text → Prop where
  | blanks {s : Text} : IsGap s → Spaced [] s
  | last {s w s' : Text} : IsGap s → IsGap s' → Spaced [w] (s ++ w ++ s')
  | word {s w gap t : Text} {ws : List Text} : IsGap s → IsGap gap → gap ≠ [] → Spaced ws t →
      Spaced (w :: ws) (s ++ w ++ gap ++ t)

variable {s w t gap : Text} {ws : List Text}

theorem isSolid_append (hs : IsSolid s) (ht : IsSolid t) : IsSolid (s ++ t) :=
  ⟨by simp [hs.1], fun c hc => (List.mem_append.1 hc).elim (hs.2 c) (ht.2 c)⟩

theorem isSolid_capitalHex (width n : ℕ) : IsSolid (Numeral.capitalHex width n) := by
  have hdigits : ∀ c ∈ Numeral.capitalDigits, isBlank c = false :=
    List.all_iff_forall_prop.1 (by decide)
  exact ⟨Numeral.capitalHex_ne_nil width n, fun c hc => hdigits c (Numeral.mem_capitalHex hc)⟩

theorem isBlank_of_mem_splitOnP : ∀ w ∈ t.splitOnP isBlank, ∀ c ∈ w, isBlank c = false := by
  induction t with
  | nil => simp
  | cons c t ih =>
    rw [List.splitOnP_cons_eq_if_modifyHead]
    split
    · exact List.forall_mem_cons.2 ⟨by simp, ih⟩
    · rename_i hc
      obtain ⟨w, ws, hsplit⟩ := List.exists_cons_of_ne_nil (List.splitOnP_ne_nil isBlank t)
      rw [hsplit] at ih ⊢
      obtain ⟨hw, hws⟩ := List.forall_mem_cons.1 ih
      exact List.forall_mem_cons.2 ⟨List.forall_mem_cons.2 ⟨Bool.eq_false_iff.2 hc, hw⟩, hws⟩

theorem isSolid_of_mem_words (h : w ∈ words t) : IsSolid w := by
  obtain ⟨hw, hne⟩ := List.mem_filter.1 h
  exact ⟨by simpa using hne, isBlank_of_mem_splitOnP w hw⟩

theorem words_append_cons {c : Char} (hc : isBlank c = true) (s t : Text) :
    words (s ++ c :: t) = words s ++ words t := by
  rw [words, List.splitOnP_append_cons s t hc, List.filter_append]
  rfl

theorem words_gap_append (h : IsGap s) (t : Text) : words (s ++ t) = words t := by
  induction s with
  | nil => rfl
  | cons c s ih =>
    obtain ⟨hc, hs⟩ := List.forall_mem_cons.1 h
    have hfirst := words_append_cons hc [] (s ++ t)
    rwa [words_nil, List.nil_append, List.nil_append, ih hs] at hfirst

theorem words_of_gap (h : IsGap s) : words s = [] := by
  simpa using words_gap_append h []

theorem words_of_isSolid (h : IsSolid w) : words w = [w] := by
  rw [words, List.splitOnP_eq_singleton h.2]
  simp [h.1]

theorem words_append_gap_append (h : IsGap gap) (hne : gap ≠ []) (s t : Text) :
    words (s ++ gap ++ t) = words s ++ words t := by
  obtain ⟨c, gap, rfl⟩ := List.exists_cons_of_ne_nil hne
  obtain ⟨hc, hgap⟩ := List.forall_mem_cons.1 h
  rw [List.append_assoc, List.cons_append, words_append_cons hc, words_gap_append hgap]

theorem words_append_gap (h : IsGap gap) (s : Text) : words (s ++ gap) = words s := by
  by_cases hne : gap = []
  · rw [hne, List.append_nil]
  · simpa using words_append_gap_append h hne s []

/-- A text has the words that stand in it, whatever blanks are between them. -/
theorem Spaced.words_eq (h : Spaced ws t) (hws : ∀ w ∈ ws, IsSolid w) : words t = ws := by
  induction h with
  | blanks hs => exact words_of_gap hs
  | last hs hs' =>
    rw [words_append_gap hs', words_gap_append hs, words_of_isSolid (hws _ List.mem_cons_self)]
  | word hs hgap hne _ ih =>
    obtain ⟨hw, hws⟩ := List.forall_mem_cons.1 hws
    rw [words_append_gap_append hgap hne, words_gap_append hs, words_of_isSolid hw, ih hws]
    rfl

end CartPatch.Text
