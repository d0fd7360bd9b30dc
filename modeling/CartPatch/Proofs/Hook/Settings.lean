import CartPatch.Hook.Descriptor
import CartPatch.Proofs.Lookup
import CartPatch.Proofs.Mips.Immediate
import CartPatch.Proofs.Text.Remarks
import Mathlib.Logic.Function.Basic

/-!
The settings of a descriptor file. A line sets a field to a number (`Sets`), and lines settle fields when
each of these is set by just one of them (`Settles`). The reader goes from line to line and stops at the
first that sets no field or one that is set already (`readLines_eq_ok`, `readLines_eq_error`).
-/

namespace CartPatch.Hook

open Text Numeral Outcome
open Mips.Assembler (Radix exists_radix splitBase_mark)

namespace Descriptor

/-- A word that says a number of 32 bits: decimal digits, or hexadecimal ones behind their mark, with
at most one plus sign in front of the digits. -/
structure SaysWord (w : Text) (n : ℕ) : Prop where
  lt : n < 2 ^ 32
  number : ∃ (r : Radix) (digits : Text), w = r.mark ++ digits ∧ Unsigned r.base digits n

/-- A line that sets a field: its key, in capital or small letters, and a number. -/
def Sets (line : Text) (f : Field) (n : ℕ) : Prop :=
  ∃ key number, words line = [key, number] ∧ sameName f.name key ∧ SaysWord number n

/-- Lines that set these fields, each once, to the numbers given. -/
structure Settles (ls : List Text) (fields : List Field) (number : Field → ℕ) : Prop where
  nodup : fields.Nodup
  sets : List.Forall₂ (fun line f => Sets line f (number f)) ls fields

/-- What is wrong with a line behind others that set these fields: it sets none, or one of them. -/
inductive LineFault (fields : List Field) (line : Text) (n : ℕ) : DescriptorError → Prop where
  | malformed (h : ∀ f m, ¬Sets line f m) : LineFault fields line n (.malformed n (trim line))
  | repeated {f : Field} {m : ℕ} (h : Sets line f m) (hf : f ∈ fields) :
      LineFault fields line n (.duplicateField f)

/-- The fault of the first line that has one. Lines are numbered from one, remarks included. -/
def FirstFault (ls : List Text) (e : DescriptorError) : Prop :=
  ∃ before line behind fields number, ls = before ++ line :: behind ∧ isRemark line = false ∧
    Settles (statements before) fields number ∧ LineFault fields line (before.length + 1) e

section Lines

variable {w line : Text} {f : Field} {n : ℕ} {word : UInt32}

theorem readAnyWord_eq_ok : readAnyWord w = .ok word ↔ SaysWord w word.toNat := by
  rw [readAnyWord, readWord_eq_ok]
  constructor
  · intro h
    obtain ⟨r, digits, rfl, hsplit⟩ := exists_radix w
    rw [hsplit] at h
    exact ⟨word.toNat_lt, r, digits, rfl, h⟩
  · rintro ⟨-, r, digits, rfl, h⟩
    have hsigned : Signed r.base digits word.toNat := .inl ⟨_, h, rfl⟩
    rwa [splitBase_mark hsigned]

theorem ofText?_eq_some {t : Text} : Field.ofText? t = some f ↔ sameName f.name t := by
  rw [Field.ofText?, Lookup.find?_sameName_eq_some (by decide +kernel), and_iff_right f.mem_all]

theorem readSetting_eq_some : readSetting line = some (f, word) ↔ Sets line f word.toNat := by
  rw [readSetting, Sets]
  split
  · rename_i key number hwords
    simp [hwords, Option.bind_eq_some_iff, ofText?_eq_some, toOption_eq_some, readAnyWord_eq_ok]
  · rename_i hwords
    refine iff_of_false (by simp) ?_
    rintro ⟨key, number, h, -⟩
    exact hwords key number h

theorem Sets.lt (h : Sets line f n) : n < 2 ^ 32 := by
  obtain ⟨_, _, -, -, hnumber⟩ := h
  exact hnumber.lt

theorem Sets.readSetting_eq (h : Sets line f n) : readSetting line = some (f, UInt32.ofNat n) := by
  rw [readSetting_eq_some, UInt32.toNat_ofNat_of_lt' h.lt]
  exact h

theorem readSetting_eq_none : readSetting line = none ↔ ∀ f n, ¬Sets line f n := by
  constructor
  · intro hnone f n h
    rw [h.readSetting_eq] at hnone
    cases hnone
  · intro h
    rw [Option.eq_none_iff_forall_ne_some]
    rintro ⟨f, word⟩ hsome
    exact h f _ (readSetting_eq_some.1 hsome)

end Lines

section Reading

variable {line : Text} {ls : List Text} {fields : List Field} {n : ℕ} {e : DescriptorError}
  {s s' : Settings}

def readLine (s : Settings) (line : Text) (n : ℕ) : Except DescriptorError Settings :=
  match readSetting line with
  | none => .error (.malformed n (trim line))
  | some (f, word) =>
    if (s f).isSome then .error (.duplicateField f) else .ok (Function.update s f (some word))

def numbers (s : Settings) (f : Field) : ℕ := ((s f).getD 0).toNat

theorem readLines_cons (s : Settings) (line : Text) (ls : List Text) (n : ℕ) :
    readLines s ((line :: ls).zipIdx n) =
      if isRemark line then readLines s (ls.zipIdx (n + 1))
      else readLine s line n >>= fun s' => readLines s' (ls.zipIdx (n + 1)) := by
  rw [List.zipIdx_cons, readLines, readLine]
  split
  · rfl
  · cases readSetting line with
    | none => rfl
    | some setting =>
      obtain ⟨f, word⟩ := setting
      dsimp only
      split
      · rfl
      · congr
        funext g
        rw [Function.update_apply]

theorem readLine_eq_ok : readLine s line n = .ok s' ↔
    ∃ f word, Sets line f word.toNat ∧ s f = none ∧ s' = Function.update s f (some word) := by
  simp only [← readSetting_eq_some, readLine]
  cases readSetting line with
  | none => simp
  | some setting =>
    obtain ⟨f, word⟩ := setting
    cases hf : s f with
    | none => simp [hf, eq_comm]
    | some old => simp [hf]

theorem readLine_eq_error (hs : ∀ f, s f ≠ none ↔ f ∈ fields) :
    readLine s line n = .error e ↔ LineFault fields line n e := by
  rw [readLine]
  cases hset : readSetting line with
  | none =>
    have hnone := readSetting_eq_none.1 hset
    constructor
    · intro h
      cases h
      exact .malformed hnone
    · intro h
      cases h with
      | malformed => rfl
      | repeated h => exact absurd h (hnone _ _)
  | some setting =>
    obtain ⟨f, word⟩ := setting
    have hsets := readSetting_eq_some.1 hset
    have htaken : (s f).isSome = true ↔ f ∈ fields := by rw [Option.isSome_iff_ne_none, hs]
    dsimp only
    constructor
    · intro h
      split at h
      · cases h
        exact .repeated hsets (htaken.1 ‹_›)
      · cases h
    · intro h
      cases h with
      | malformed h => exact absurd hsets (h _ _)
      | repeated h hf =>
        rw [h.readSetting_eq] at hset
        cases hset
        exact if_pos (htaken.2 hf)

theorem readLines_eq_ok : readLines s (ls.zipIdx n) = .ok s' ↔
    ∃ fields, Settles (statements ls) fields (numbers s') ∧
      (∀ f ∈ fields, s f = none ∧ s' f ≠ none) ∧ ∀ f ∉ fields, s' f = s f := by
  induction ls generalizing s n with
  | nil =>
    constructor
    · intro h
      cases h
      exact ⟨[], ⟨List.nodup_nil, .nil⟩, by simp, fun _ _ => rfl⟩
    · rintro ⟨_, ⟨-, ⟨⟩⟩, -, hold⟩
      exact congrArg Except.ok (funext fun f => (hold f List.not_mem_nil).symm)
  | cons line ls ih =>
    rw [readLines_cons]
    split
    · rename_i hremark
      rw [ih, statements_cons_of_remark hremark]
    · rename_i hline
      rw [statements_cons (Bool.eq_false_iff.2 hline), bind_eq_ok]
      simp only [readLine_eq_ok, ih]
      constructor
      · rintro ⟨_, ⟨f, word, hset, hfree, rfl⟩, fields, ⟨hnodup, hsets⟩, hnew, hold⟩
        have hf : f ∉ fields := fun hf => by simpa using (hnew f hf).1
        have hword : s' f = some word := by rw [hold f hf, Function.update_self]
        refine ⟨f :: fields, ⟨List.nodup_cons.2 ⟨hf, hnodup⟩, .cons ?_ hsets⟩,
          List.forall_mem_cons.2 ⟨⟨hfree, by simp [hword]⟩, fun g hg => ?_⟩, fun g hg => ?_⟩
        · simpa [numbers, hword] using hset
        · have hne : g ≠ f := ne_of_mem_of_not_mem hg hf
          simpa [hne] using hnew g hg
        · obtain ⟨hne, hg⟩ : g ≠ f ∧ g ∉ fields := by simpa using hg
          rw [hold g hg, Function.update_of_ne hne]
      · rintro ⟨_, ⟨hnodup, hsets⟩, hnew, hold⟩
        obtain ⟨f, fields, hset, hrest, rfl⟩ := List.forall₂_cons_left_iff.1 hsets
        obtain ⟨hf, hnodup⟩ := List.nodup_cons.1 hnodup
        obtain ⟨⟨hfree, hsome⟩, hnew⟩ := List.forall_mem_cons.1 hnew
        obtain ⟨word, hword⟩ := Option.ne_none_iff_exists'.1 hsome
        refine ⟨_, ⟨f, word, by simpa [numbers, hword] using hset, hfree, rfl⟩, fields,
          ⟨hnodup, hrest⟩, fun g hg => ?_, fun g hg => ?_⟩
        · have hne : g ≠ f := ne_of_mem_of_not_mem hg hf
          simpa [hne] using hnew g hg
        · by_cases hne : g = f
          · rw [hne, hword, Function.update_self]
          · rw [hold g (by simp [hne, hg]), Function.update_of_ne hne]

/-- Reads one numbered line. A remark leaves the settings as they are. -/
def readNumbered (s : Settings) (line : Text × ℕ) : Except DescriptorError Settings :=
  if isRemark line.1 then .ok s else readLine s line.1 line.2

theorem readNumbered_eq_error :
    readNumbered s (line, n) = .error e ↔ isRemark line = false ∧ readLine s line n = .error e := by
  rw [readNumbered]
  split
  · rename_i hremark
    simp [hremark]
  · rename_i hline
    rw [and_iff_right (Bool.eq_false_iff.2 hline)]

theorem readLines_eq_foldlM (s : Settings) (ls : List Text) (n : ℕ) :
    readLines s (ls.zipIdx n) = (ls.zipIdx n).foldlM readNumbered s := by
  induction ls generalizing s n with
  | nil => rfl
  | cons line ls ih =>
    rw [readLines_cons, List.zipIdx_cons, List.foldlM_cons, readNumbered]
    split
    · exact ih s (n + 1)
    · simp only [ih]

theorem readLines_eq_error : readLines s (ls.zipIdx n) = .error e ↔
    ∃ before line behind s', ls = before ++ line :: behind ∧
      readLines s (before.zipIdx n) = .ok s' ∧
      isRemark line = false ∧ readLine s' line (n + before.length) = .error e := by
  simp only [readLines_eq_foldlM, foldlM_zipIdx_eq_error, readNumbered_eq_error]

theorem readLines_none_eq_ok : readLines (fun _ => none) (ls.zipIdx n) = .ok s ↔
    ∃ fields, Settles (statements ls) fields (numbers s) ∧ ∀ f, s f ≠ none ↔ f ∈ fields := by
  rw [readLines_eq_ok]
  refine exists_congr fun fields => and_congr_right fun _ => ?_
  constructor
  · rintro ⟨hnew, hold⟩ f
    exact ⟨not_imp_comm.1 (hold f), fun hf => (hnew f hf).2⟩
  · intro h
    exact ⟨fun f hf => ⟨rfl, (h f).2 hf⟩, fun f hf => by_contra fun hne => hf ((h f).1 hne)⟩

theorem Settles.lt {number : Field → ℕ} (h : Settles ls fields number) :
    ∀ f ∈ fields, number f < 2 ^ 32 := by
  obtain ⟨-, hsets⟩ := h
  induction hsets with
  | nil => simp
  | cons hset _ ih => exact List.forall_mem_cons.2 ⟨hset.lt, ih⟩

theorem Settles.congr {number number' : Field → ℕ} (h : Settles ls fields number)
    (hnumber : ∀ f ∈ fields, number' f = number f) : Settles ls fields number' := by
  obtain ⟨hnodup, hsets⟩ := h
  refine ⟨hnodup, ?_⟩
  clear hnodup
  induction hsets with
  | nil => exact .nil
  | cons hset _ ih =>
    obtain ⟨hfirst, hrest⟩ := List.forall_mem_cons.1 hnumber
    exact .cons (hfirst ▸ hset) (ih hrest)

theorem Settles.exists_readLines {number : Field → ℕ} (h : Settles (statements ls) fields number)
    (n : ℕ) : ∃ s, readLines (fun _ => none) (ls.zipIdx n) = .ok s ∧
      (∀ f ∈ fields, numbers s f = number f) ∧ ∀ f, s f ≠ none ↔ f ∈ fields := by
  let s : Settings := fun f => if f ∈ fields then some (UInt32.ofNat (number f)) else none
  have hs : ∀ f, s f ≠ none ↔ f ∈ fields := fun f => by simp [s]
  have hnumber : ∀ f ∈ fields, numbers s f = number f := fun f hf => by
    simp only [numbers, s, if_pos hf, Option.getD_some]
    exact UInt32.toNat_ofNat_of_lt' (h.lt f hf)
  exact ⟨s, readLines_none_eq_ok.2 ⟨fields, h.congr hnumber, hs⟩, hnumber, hs⟩

theorem numberedLines_eq_error {t : Text} :
    readLines (fun _ => none) (numberedLines t) = .error e ↔ FirstFault (lines t) e := by
  rw [numberedLines, readLines_eq_error]
  constructor
  · rintro ⟨before, line, behind, s', hls, hread, hline, hfault⟩
    obtain ⟨fields, hsettles, hs⟩ := readLines_none_eq_ok.1 hread
    rw [Nat.add_comm] at hfault
    exact ⟨before, line, behind, fields, _, hls, hline, hsettles, (readLine_eq_error hs).1 hfault⟩
  · rintro ⟨before, line, behind, fields, number, hls, hline, hsettles, hfault⟩
    obtain ⟨s', hread, -, hs⟩ := hsettles.exists_readLines 1
    refine ⟨before, line, behind, s', hls, hread, hline, ?_⟩
    rwa [Nat.add_comm, readLine_eq_error hs]

end Reading

end Descriptor

end CartPatch.Hook
