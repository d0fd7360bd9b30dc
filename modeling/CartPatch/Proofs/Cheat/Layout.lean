import CartPatch.Proofs.Cheat.Routine

/-!
Where the lines of each code stand in a routine. The codes from a place on have their own routine at
the end of the whole one (`drop_firstLine`), every line belongs to one code (`exists_code_of_lt`), and
the branches are those of the comparisons, each to the line behind the code that it guards
(`branchTarget?_firstLine_add`). So a list can be cut anywhere but behind a comparison, and the routines
of its parts make up the routine of the list (`routineLines_append`).
-/

namespace CartPatch.Mips

/-- How far an instruction branches, counted from the one behind it. -/
def Instruction.branchOffset? : Instruction → Option Int16
  | branch _ _ _ offset => some offset
  | _ => none

namespace Assembler

def branchTarget? (lines : List Text) (n : ℕ) : Option ℤ := do
  let i ← (parse (← lines[n]?)).toOption
  let offset ← i.branchOffset?
  return n + 1 + offset.toInt

theorem branchTarget?_eq_some {lines : List Text} {line : Text} {n : ℕ} {i : Instruction} {m : ℤ}
    (hline : lines[n]? = some line) (hparse : parse line = .ok i) :
    branchTarget? lines n = some m ↔
      ∃ offset, i.branchOffset? = some offset ∧ n + 1 + offset.toInt = m := by
  simp [branchTarget?, hline, hparse, Except.toOption, Option.bind_eq_some_iff]

theorem lt_of_branchTarget? {lines : List Text} {n : ℕ} {m : ℤ}
    (h : branchTarget? lines n = some m) : n < lines.length := by
  obtain ⟨line, hline, -⟩ := Option.bind_eq_some_iff.1 h
  exact (List.getElem?_eq_some_iff.1 hline).1

end Assembler

end CartPatch.Mips

namespace CartPatch.Cheat

open Mips Assembler Numeral

/-- The number of the line at which the lines of a code begin. Behind the last code it is the number
of all lines. -/
def firstLine : List Code → ℕ → ℕ
  | c :: cs, i + 1 => (c.lines (nextSize cs)).length + firstLine cs i
  | _, _ => 0

def endsInGuard (codes : List Code) : Bool := codes.getLast?.any (·.opcode.isConditional)

section Sizes

theorem nextSize_eq_zero {codes : List Code} : nextSize codes = 0 ↔ codes = [] := by
  cases codes with
  | nil => simp [nextSize]
  | cons c cs =>
    simp only [nextSize, Code.size]
    split <;> simp

theorem routineSize_eq_sum (codes : List Code) : routineSize codes = (codes.map Code.size).sum := by
  induction codes with
  | nil => rfl
  | cons c cs ih => rw [routineSize, ih, List.map_cons, List.sum_cons]

end Sizes

section Places

variable {codes : List Code} {c : Code} {i n : ℕ}

@[simp] theorem firstLine_zero (codes : List Code) : firstLine codes 0 = 0 := by
  cases codes <;> rfl

@[simp] theorem firstLine_nil (i : ℕ) : firstLine [] i = 0 := by
  cases i <;> rfl

theorem firstLine_cons_succ (c : Code) (cs : List Code) (i : ℕ) :
    firstLine (c :: cs) (i + 1) = c.size + firstLine cs i := by
  rw [firstLine, Code.length_lines]

theorem firstLine_succ (codes : List Code) (i : ℕ) :
    firstLine codes (i + 1) = firstLine codes i + nextSize (codes.drop i) := by
  induction codes generalizing i with
  | nil => simp [nextSize]
  | cons c cs ih =>
    cases i with
    | zero => simp [firstLine_cons_succ, nextSize]
    | succ i => rw [firstLine_cons_succ, ih, firstLine_cons_succ, List.drop_succ_cons, Nat.add_assoc]

theorem firstLine_of_length_le (h : codes.length ≤ i) :
    firstLine codes i = (routineLines codes).length := by
  induction codes generalizing i with
  | nil => simp [routineLines]
  | cons c cs ih =>
    cases i with
    | zero => simp at h
    | succ i => rw [firstLine, ih (by simpa using h), routineLines, List.length_append]

/-- A routine from the first line of a code on is the routine of the codes from that code on. -/
theorem drop_firstLine (codes : List Code) (i : ℕ) :
    (routineLines codes).drop (firstLine codes i) = routineLines (codes.drop i) := by
  induction codes generalizing i with
  | nil => simp [routineLines]
  | cons c cs ih =>
    cases i with
    | zero => simp
    | succ i => rw [routineLines, firstLine, List.drop_length_add_append, ih, List.drop_succ_cons]

theorem exists_code_of_lt (h : n < routineSize codes) :
    ∃ i c k, codes[i]? = some c ∧ k < c.size ∧ n = firstLine codes i + k := by
  induction codes generalizing n with
  | nil => simp [routineSize] at h
  | cons c cs ih =>
    by_cases hfirst : n < c.size
    · exact ⟨0, c, n, rfl, hfirst, by simp⟩
    · rw [routineSize] at h
      obtain ⟨i, c', k, hc', hk, hn⟩ := ih (n := n - c.size) (by omega)
      refine ⟨i + 1, c', k, hc', hk, ?_⟩
      rw [firstLine_cons_succ]
      omega

theorem getElem?_routineLines (hc : codes[i]? = some c) {k : ℕ} (hk : k < c.size) :
    (routineLines codes)[firstLine codes i + k]? =
      (c.lines (nextSize (codes.drop (i + 1))))[k]? := by
  obtain ⟨hi, rfl⟩ := List.getElem?_eq_some_iff.1 hc
  rw [← List.getElem?_drop, drop_firstLine, List.drop_eq_getElem_cons hi, routineLines]
  exact List.getElem?_append_left (by rwa [Code.length_lines])

end Places

section Branches

variable {codes : List Code} {c : Code} {i k : ℕ}

theorem Code.lines_inj {m n : ℕ} (hconditional : c.opcode.isConditional) :
    c.lines m = c.lines n ↔ m = n := by
  simp [Code.lines, hconditional, decimal_inj]

theorem Code.branchOffset?_eq_some {skip : ℕ} {instruction : Instruction} {offset : Int16}
    (h : (c.instructions skip)[k]? = some instruction) :
    instruction.branchOffset? = some offset ↔
      c.opcode.isConditional ∧ k = 3 ∧ Int16.ofNat (skip + 1) = offset := by
  unfold instructions at h
  split at h
  · rename_i hconditional
    rcases k with _ | _ | _ | _ | _ | k
    -- The branch comes fourth, behind the instructions that load what is compared.
    case succ.succ.succ.zero =>
      cases h
      simp [branchInstruction, Instruction.branchOffset?, hconditional]
    case succ.succ.succ.succ.succ => simp [compareInstructions] at h
    all_goals
      cases h
      simp [Instruction.branchOffset?]
  · rename_i hconditional
    rcases k with _ | _ | _ | k
    case succ.succ.succ => simp [writeInstructions] at h
    all_goals
      cases h
      simp [Instruction.branchOffset?, hconditional]

/-- The branch of a comparison goes to the line behind the code that it guards. -/
theorem branchTarget?_firstLine_add (hc : codes[i]? = some c) (hk : k < c.size) {m : ℤ} :
    branchTarget? (routineLines codes) (firstLine codes i + k) = some m ↔
      c.opcode.isConditional ∧ k = 3 ∧ m = firstLine codes (i + 2) := by
  set skip := nextSize (codes.drop (i + 1))
  have hle : skip ≤ 5 := nextSize_le _
  obtain ⟨line, instruction, hline, hinstruction, hparse⟩ :=
    (c.assembles_lines hle).exists_instruction (by rwa [c.length_lines])
  rw [← getElem?_routineLines hc hk] at hline
  rw [branchTarget?_eq_some hline hparse]
  simp only [Code.branchOffset?_eq_some hinstruction]
  have hreach : c.opcode.isConditional →
      ((firstLine codes i + 3 : ℕ) : ℤ) + 1 + (Int16.ofNat (skip + 1)).toInt =
        firstLine codes (i + 2) := by
    intro hconditional
    obtain ⟨hi, rfl⟩ := List.getElem?_eq_some_iff.1 hc
    rw [firstLine_succ, firstLine_succ, List.drop_eq_getElem_cons hi, nextSize,
      Code.size_of_isConditional hconditional, Int16.toInt_ofNat_of_lt (by omega)]
    omega
  constructor
  · rintro ⟨offset, ⟨hconditional, rfl, rfl⟩, rfl⟩
    exact ⟨hconditional, rfl, hreach hconditional⟩
  · rintro ⟨hconditional, rfl, rfl⟩
    exact ⟨_, ⟨hconditional, rfl, rfl⟩, hreach hconditional⟩

theorem branchTarget?_routineLines {n : ℕ} {m : ℤ} :
    branchTarget? (routineLines codes) n = some m ↔
      ∃ i c, codes[i]? = some c ∧ c.opcode.isConditional ∧ n = firstLine codes i + 3 ∧
        m = firstLine codes (i + 2) := by
  constructor
  · intro h
    have hn := lt_of_branchTarget? h
    rw [length_routineLines] at hn
    obtain ⟨i, c, k, hc, hk, rfl⟩ := exists_code_of_lt hn
    obtain ⟨hconditional, rfl, hm⟩ := (branchTarget?_firstLine_add hc hk).1 h
    exact ⟨i, c, hc, hconditional, rfl, hm⟩
  · rintro ⟨i, c, hc, hconditional, rfl, hm⟩
    have hsize := Code.size_of_isConditional hconditional
    exact (branchTarget?_firstLine_add hc (by omega)).2 ⟨hconditional, rfl, hm⟩

end Branches

section Cuts

theorem routineLines_append {a b : List Code} :
    routineLines (a ++ b) = routineLines a ++ routineLines b ↔ endsInGuard a = false ∨ b = [] := by
  induction a with
  | nil => simp [routineLines, endsInGuard]
  | cons c cs ih =>
    rw [List.cons_append, routineLines, routineLines]
    cases cs with
    | nil =>
      -- The code at the seam is compiled for what comes behind it.
      rw [List.nil_append, nextSize, routineLines, List.append_nil, List.append_left_inj]
      by_cases hconditional : c.opcode.isConditional
      · simp [endsInGuard, hconditional, Code.lines_inj hconditional, nextSize_eq_zero]
      · simp [endsInGuard, hconditional, Code.lines]
    | cons c' cs =>
      have hnext : nextSize (c' :: cs ++ b) = nextSize (c' :: cs) := rfl
      have hends : endsInGuard (c :: c' :: cs) = endsInGuard (c' :: cs) := by simp [endsInGuard]
      rw [hnext, hends, List.append_assoc, List.append_right_inj, ih]

/-- A list of codes can be cut just where no comparison guards a code across the cut, each code has
the lines that its size says, and a branch goes from the comparison at a place to the first line of the
code two places on, or to the end where there is none. -/
theorem routineLines_boundaries :
    (∀ a b : List Code,
      routineLines (a ++ b) = routineLines a ++ routineLines b ↔ endsInGuard a = false ∨ b = []) ∧
    ∀ codes : List Code,
      (routineLines codes).length = (codes.map Code.size).sum ∧
      (∀ i, (routineLines codes).drop (firstLine codes i) = routineLines (codes.drop i)) ∧
      ∀ (n : ℕ) (m : ℤ), branchTarget? (routineLines codes) n = some m ↔
        ∃ i c, codes[i]? = some c ∧ c.opcode.isConditional ∧ n = firstLine codes i + 3 ∧
          m = if i + 2 < codes.length then firstLine codes (i + 2)
            else (routineLines codes).length := by
  refine ⟨fun a b => routineLines_append, fun codes => ⟨?_, drop_firstLine codes, fun n m => ?_⟩⟩
  · rw [length_routineLines, routineSize_eq_sum]
  · have htarget (i : ℕ) : (firstLine codes (i + 2) : ℤ) =
        if i + 2 < codes.length then firstLine codes (i + 2) else (routineLines codes).length := by
      split
      · rfl
      · rw [firstLine_of_length_le (by omega)]
    rw [branchTarget?_routineLines]
    simp only [htarget]

/-- A comparison that guards a write, and one that guards nothing. -/
example :
    let codes : List Code :=
      [⟨.if8, 0x800F93AA, 1⟩, ⟨.write16, 0x800F93AC, 0x63⟩, ⟨.ifNot16, 0x800F93AA, 2⟩]
    [3, 7, 11].map (branchTarget? (routineLines codes)) = [some 8, none, some 13] := by rfl

end Cuts

end CartPatch.Cheat
