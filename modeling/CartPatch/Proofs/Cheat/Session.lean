import CartPatch.Proofs.Cheat.Routine

/-!
The routines of a session, joined. Each ends behind its last word, whatever its last code is, so
that joined routines run one after the other (`exec_routines`).
-/

namespace CartPatch.Cheat

open Mips Machine Outcome

def joinedInstructions (lists : List (List Code)) : List Instruction :=
  lists.flatMap routineInstructions

theorem exec_routines {p : Program} {base : UInt32} {d : Data} {lists : List (List Code)}
    (halign : ∀ codes ∈ lists, ∀ c ∈ codes, c.IsAligned)
    (hwords : p.Holds base ((joinedInstructions lists).map Instruction.word)) :
    ∃ n d', Exec p (before base d) n (before (place base (joinedInstructions lists).length) d') ∧
      d'.memory = interpretAll lists d.memory ∧
      ∀ r, r ∉ [Register.t0, .t1, .t2] → d'.reg r = d.reg r := by
  induction lists generalizing base d with
  | nil => exact ⟨0, d, by simpa [joinedInstructions] using Exec.refl _, rfl, fun _ _ => rfl⟩
  | cons codes lists ih =>
    rw [joinedInstructions, List.flatMap_cons, List.map_append] at hwords
    obtain ⟨hfirst, hrest⟩ := Program.holds_append.1 hwords
    rw [List.length_map, length_routineInstructions] at hrest
    obtain ⟨n₁, d₁, -, h₁, hmemory₁, hreg₁⟩ :=
      exec_routine (d := d) (halign codes List.mem_cons_self) false hfirst
    obtain ⟨n₂, d₂, h₂, hmemory₂, hreg₂⟩ :=
      ih (d := d₁) (fun l hl => halign l (List.mem_cons_of_mem codes hl)) hrest
    refine ⟨n₁ + n₂, d₂, ?_, ?_, fun r hr => (hreg₂ r hr).trans (hreg₁ r hr)⟩
    · have hlength : (joinedInstructions (codes :: lists)).length =
          routineSize codes + (joinedInstructions lists).length := by
        simp [joinedInstructions, length_routineInstructions]
      rw [place_place] at h₂
      rw [hlength]
      simpa [skippedSize] using h₁.trans h₂
    · rw [hmemory₂, hmemory₁]
      rfl

namespace Session

/-- The session with texts added in order, when all of them are cheat lists. -/
def addTexts (s : Session) : List Text → Except CheatError Session
  | [] => .ok s
  | t :: ts => do
    let (_, s) ← s.addText t
    addTexts s ts

theorem addText_eq_ok {s s' : Session} {t : Text} {size : ℕ} (h : s.addText t = .ok (size, s')) :
    ∃ codes, Listing.parse t = .ok codes ∧
      s' = s.push (Bytes.ofWords ((routineInstructions codes).map Instruction.word)) := by
  obtain ⟨routine, hroutine, hpush⟩ := map_eq_ok.1 h
  obtain ⟨codes, hparse, hcompile⟩ := bind_eq_ok.1 hroutine
  rw [mapError_eq_ok] at hparse hcompile
  rw [compile_eq] at hcompile
  cases hcompile
  exact ⟨codes, hparse, (congrArg Prod.snd hpush).symm⟩

theorem joined_addTexts {s s' : Session} {texts : List Text} (h : s.addTexts texts = .ok s') :
    ∃ lists, List.Forall₂ (fun t codes => Listing.parse t = .ok codes) texts lists ∧
      s'.joined = s.joined ++ Bytes.ofWords ((joinedInstructions lists).map Instruction.word) := by
  induction texts generalizing s with
  | nil =>
    cases h
    exact ⟨[], .nil, by simp [joinedInstructions]⟩
  | cons t texts ih =>
    obtain ⟨⟨size, s₁⟩, hadd, h⟩ := bind_eq_ok.1 h
    obtain ⟨codes, hparse, rfl⟩ := addText_eq_ok hadd
    obtain ⟨lists, hlists, hjoined⟩ := ih h
    refine ⟨codes :: lists, .cons hparse hlists, ?_⟩
    rw [hjoined, joined_push]
    simp [joinedInstructions]

end Session

end CartPatch.Cheat
