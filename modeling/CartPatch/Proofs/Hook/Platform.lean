import CartPatch.Mips.Register
import CartPatch.Proofs.Mips.Machine

/-!
Routines of the platform, which are outside the program. Of such a routine only what it was called
with and what it left behind count; it returns to the address in `ra`. A run lists its calls.
-/

namespace CartPatch.Hook

open Mips Machine

/-- A routine of the platform: its address, and registers and memory as it leaves them. -/
structure Primitive where
  entry : UInt32
  result : Data → Data

/-- A run of the program, with what every call of the primitive was given. The machine is in the
primitive only where the program has no word, so no state has two ways to go on. -/
inductive Run (p : Program) (prim : Primitive) : Machine → List Data → Machine → Prop
  | refl (s : Machine) : Run p prim s [] s
  | step {s s' t : Machine} {calls : List Data} :
      step p s = some s' → Run p prim s' calls t → Run p prim s calls t
  | call {given : Data} {t : Machine} {calls : List Data} : p prim.entry = none →
      Run p prim (before (given.reg .ra) (prim.result given)) calls t →
      Run p prim (before prim.entry given) (given :: calls) t

variable {p : Program} {prim : Primitive}

theorem Run.trans {s t u : Machine} {calls calls' : List Data} (h : Run p prim s calls t)
    (h' : Run p prim t calls' u) : Run p prim s (calls ++ calls') u := by
  induction h with
  | refl => exact h'
  | step hstep _ ih => exact .step hstep (ih h')
  | call hentry _ ih => exact .call hentry (ih h')

theorem Run.of_exec {s t : Machine} {n : ℕ} (h : Exec p s n t) : Run p prim s [] t := by
  induction h with
  | refl => exact .refl _
  | succ hstep _ ih => exact .step hstep ih

theorem step_eq_none {s : Machine} (h : p s.pc = none) : step p s = none := by simp [step, h]

/-- Of two runs from one state, one goes on where the other stops. -/
theorem Run.linear {s t t' : Machine} {calls calls' : List Data} (h : Run p prim s calls t)
    (h' : Run p prim s calls' t') :
    (∃ more, Run p prim t more t' ∧ calls' = calls ++ more) ∨
      ∃ more, Run p prim t' more t ∧ calls = calls' ++ more := by
  induction h generalizing calls' t' with
  | refl => exact Or.inl ⟨calls', h', rfl⟩
  | step hstep hrest ih =>
    cases h' with
    | refl => exact Or.inr ⟨_, .step hstep hrest, rfl⟩
    | step hstep' hrest' =>
      obtain rfl := Option.some.inj (hstep.symm.trans hstep')
      exact ih hrest'
    | call hentry _ =>
      exact absurd (hstep.symm.trans (step_eq_none hentry)) (by simp)
  | call hentry hrest ih =>
    generalize hs : before prim.entry _ = s at h'
    cases h' with
    | refl =>
      subst hs
      exact Or.inr ⟨_, .call hentry hrest, rfl⟩
    | step hstep' _ =>
      subst hs
      exact absurd (hstep'.symm.trans (step_eq_none hentry)) (by simp)
    | call _ hrest' =>
      obtain rfl := congrArg Machine.data hs
      rcases ih hrest' with ⟨more, hmore, rfl⟩ | ⟨more, hmore, rfl⟩
      · exact Or.inl ⟨more, hmore, rfl⟩
      · exact Or.inr ⟨more, hmore, rfl⟩

/-- What the trampoline relies on when it calls the primitive: a pointer that is not the sentinel,
the registers that the calling convention keeps, the caller's stack, and the cache cell. -/
structure Primitive.Returns (prim : Primitive) (cell sentinel : UInt32) (given : Data) : Prop where
  pointer : (prim.result given).reg .v0 ≠ sentinel
  registers : ∀ r, r ∉ [Register.ra, .v0, .v1, .a0, .a1, .a2, .a3, .t8, .t9] →
    (prim.result given).reg r = given.reg r
  stack : ∀ x, (given.reg .sp).toNat ≤ x.toNat → (prim.result given).memory x = given.memory x
  cell : ∀ x, Within cell 4 x → (prim.result given).memory x = given.memory x

end CartPatch.Hook
