import CartPatch.Proofs.Text.Blank
import CartPatch.Proofs.Text.Lines
import CartPatch.Proofs.Text.Words

/-!
What a listing says: its lines without the blank ones and the remarks. Lines that have no end inside
are the lines of the text that they make (`lines_unlines`); so are those whose only blanks are spaces
(`lines_unlines_of_onlySpaces`).
-/

namespace CartPatch.Text

/-- The lines that say something. -/
def statements (ls : List Text) : List Text := ls.filter (!isRemark ·)

variable {l l' : Text} {ls ls' : List Text}

theorem statements_cons_of_remark (h : isRemark l = true) (ls : List Text) :
    statements (l :: ls) = statements ls := by simp [statements, h]

theorem statements_cons (h : isRemark l = false) (ls : List Text) :
    statements (l :: ls) = l :: statements ls := by simp [statements, h]

theorem statements_perm (h : ls'.Perm ls) : (statements ls').Perm (statements ls) := h.filter _

theorem statements_eq_self (h : ∀ l ∈ ls, isRemark l = false) : statements ls = ls :=
  List.filter_eq_self.2 fun l hl => by simp [h l hl]

theorem isRemark_cons {c : Char} (hc : isBlank c = false) (t : Text) :
    isRemark (c :: t) = (c == '#' || c == ';') := by
  obtain ⟨rest, hrest⟩ : ∃ rest, trim (c :: t) = c :: rest := by
    rw [trim, trimStart, List.dropWhile_cons_of_neg (by simp [hc]), trimEnd, List.reverse_cons,
      List.dropWhile_append]
    split
    · exact ⟨[], by simp [hc]⟩
    · exact ⟨_, List.reverse_append⟩
  rw [isRemark, hrest]

theorem isRemark_of_isAlphanum {c : Char} (hc : c.isAlphanum = true) (t : Text) :
    isRemark (c :: t) = false := by
  have hsign : c ≠ '#' := fun h => absurd (h ▸ hc) (by decide)
  have hsemicolon : c ≠ ';' := fun h => absurd (h ▸ hc) (by decide)
  rw [isRemark_cons (isBlank_of_isAlphanum hc)]
  simp [hsign, hsemicolon]

theorem lines_unlines (h : ∀ l ∈ ls, '\n' ∉ l ∧ l.getLast? ≠ some '\r') : lines (unlines ls) = ls := by
  induction ls with
  | nil => rfl
  | cons l ls ih =>
    obtain ⟨⟨hfeed, hreturn⟩, hls⟩ := List.forall_mem_cons.1 h
    rw [lines, unlines_cons, rawLines_append_lineFeed hfeed, List.map_cons,
      chomp_append_lineFeed hreturn]
    exact congrArg (l :: ·) (ih hls)

/-- A line whose only blanks are spaces. -/
def OnlySpaces (l : Text) : Prop := ∀ c ∈ l, isBlank c = true → c = ' '

theorem IsSolid.onlySpaces (h : IsSolid l) : OnlySpaces l :=
  fun c hc hblank => by simp [h.2 c hc] at hblank

theorem OnlySpaces.append_space (hl : OnlySpaces l) (hl' : OnlySpaces l') :
    OnlySpaces (l ++ ' ' :: l') := by
  intro c hc hblank
  rcases List.mem_append.1 hc with hc | hc
  · exact hl c hc hblank
  · exact (List.mem_cons.1 hc).elim id fun hc => hl' c hc hblank

theorem OnlySpaces.notMem_end (h : OnlySpaces l) : '\n' ∉ l ∧ l.getLast? ≠ some '\r' := by
  constructor
  · exact fun hfeed => absurd (h _ hfeed (by decide)) (by decide)
  · exact fun hreturn => absurd (h _ (List.mem_of_getLast? hreturn) (by decide)) (by decide)

theorem lines_unlines_of_onlySpaces (h : ∀ l ∈ ls, OnlySpaces l) : lines (unlines ls) = ls :=
  lines_unlines fun l hl => (h l hl).notMem_end

end CartPatch.Text
