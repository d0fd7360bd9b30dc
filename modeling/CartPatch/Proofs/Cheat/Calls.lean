import CartPatch.Proofs.Cheat.Routine
import CartPatch.Proofs.Lookup

/-!
Sessions over any run of calls. A session has the routines of the calls since it was last emptied, in
the order of the calls (`routines_ofCalls`). A text that is no cheat list adds nothing, and one that is
adds the machine code of its codes, whose size depends only on what kinds of codes they are.
-/

namespace CartPatch.Cheat

open Lookup Mips Outcome MonadExcept

/-- The size of codes in bytes: three words for a write and five for a comparison. -/
def codesSize (codes : List Code) : ℕ :=
  12 * codes.countP (fun c => !c.opcode.isConditional) +
    20 * codes.countP fun c => c.opcode.isConditional

theorem codesSize_eq (codes : List Code) : codesSize codes = 4 * routineSize codes := by
  induction codes with
  | nil => rfl
  | cons c cs ih =>
    rw [codesSize] at ih ⊢
    rw [routineSize, Code.size, List.countP_cons, List.countP_cons]
    cases c.opcode.isConditional <;> simp <;> omega

theorem exists_compile (codes : List Code) :
    ∃ routine, compile codes = .ok routine ∧ routine.length = codesSize codes := by
  refine ⟨_, compile_eq codes, ?_⟩
  rw [Bytes.length_ofWords, List.length_map, length_routineInstructions, codesSize_eq]

namespace Session

inductive Call where
  | push (routine : Bytes)
  | addText (t : Text)
  | reset
  deriving DecidableEq, Repr

def afterCall (s : Session) : Call → Session
  | .push routine => s.push routine
  | .addText t =>
    match s.addText t with
    | .ok (_, s') => s'
    | .error _ => s
  | .reset => empty

/-- The session that comes of an empty one by calls from first to last. -/
def ofCalls (calls : List Call) : Session := calls.foldl afterCall empty

/-- The calls behind the last one that empties the session. -/
inductive SinceReset : List Call → List Call → Prop where
  | never {calls : List Call} (h : .reset ∉ calls) : SinceReset calls calls
  | behind {before recent : List Call} (h : .reset ∉ recent) :
      SinceReset (before ++ .reset :: recent) recent

/-- A call that adds a routine: one that pushes it, or one that adds a text of which it is made. -/
inductive Adds : Call → Bytes → Prop where
  | push (routine : Bytes) : Adds (.push routine) routine
  | text {t : Text} {codes : List Code} {routine : Bytes} (hparse : Listing.parse t = .ok codes)
      (hcompile : compile codes = .ok routine) : Adds (.addText t) routine

section Calls

variable {s s' : Session} {t : Text} {e : CheatError} {routine : Bytes} {call : Call}
  {calls recent : List Call}

theorem compileText_eq_ok :
    compileText t = .ok routine ↔ ∃ codes, Listing.parse t = .ok codes ∧ compile codes = .ok routine := by
  rw [compileText, bind_eq_ok]
  simp only [mapError_eq_ok]

/-- Only a text that is no list fails; there are no codes without machine code. -/
theorem compileText_eq_error :
    compileText t = .error e ↔ ∃ cause, e = .format cause ∧ Listing.parse t = .error cause := by
  rw [compileText]
  cases hparse : Listing.parse t with
  | error cause => simp [Except.mapError, bind, Except.bind, eq_comm]
  | ok codes => simp [compile_eq, Except.mapError, bind, Except.bind]

/-- Adds a text in place: the session grows when the routine is there. -/
def addTextInPlace (t : Text) : EStateM CheatError Session ℕ := do
  let codes ← ofExcept ((Listing.parse t).mapError .format)
  let routine ← ofExcept ((compile codes).mapError .assembly)
  let s ← get
  set (s.push routine)
  return routine.length

theorem run_addTextInPlace (s : Session) (t : Text) :
    (addTextInPlace t).run s = settle s (s.addText t) := by
  rw [addTextInPlace, addText, compileText]
  cases Listing.parse t with
  | error cause => exact run_bind_error (run_ofExcept _ _)
  | ok codes =>
    rw [run_bind_ok (run_ofExcept _ _), compile_eq, run_bind_ok (run_ofExcept _ _)]
    simp only [Except.mapError, bind, Except.bind, compile_eq]
    rfl

def routine? : Call → Option Bytes
  | .push routine => some routine
  | .addText t => (compileText t).toOption
  | .reset => none

theorem routine?_eq_some : routine? call = some routine ↔ Adds call routine := by
  constructor
  · intro h
    cases call with
    | push routine =>
      cases h
      exact .push routine
    | addText t =>
      obtain ⟨codes, hparse, hcompile⟩ := compileText_eq_ok.1 (toOption_eq_some.1 h)
      exact .text hparse hcompile
    | reset => cases h
  · rintro (_ | ⟨hparse, hcompile⟩)
    · rfl
    · exact toOption_eq_some.2 (compileText_eq_ok.2 ⟨_, hparse, hcompile⟩)

theorem routines_afterCall (h : call ≠ .reset) :
    (s.afterCall call).routines = s.routines ++ (routine? call).toList := by
  cases call with
  | push routine => rfl
  | addText t =>
    rw [afterCall, addText, routine?]
    cases compileText t with
    | ok routine => rfl
    | error e => exact (List.append_nil _).symm
  | reset => exact absurd rfl h

theorem routines_foldl_afterCall (h : .reset ∉ calls) :
    (calls.foldl afterCall s).routines = s.routines ++ calls.filterMap routine? := by
  induction calls generalizing s with
  | nil => simp
  | cons call calls ih =>
    rw [List.mem_cons, not_or] at h
    rw [List.foldl_cons, ih h.2, routines_afterCall (Ne.symm h.1), List.append_assoc]
    simp only [List.filterMap_eq_flatMap_toList, List.flatMap_cons]

theorem SinceReset.routines_eq (h : SinceReset calls recent) :
    (ofCalls calls).routines = recent.filterMap routine? := by
  cases h with
  | never h => exact routines_foldl_afterCall h
  | behind h =>
    rw [ofCalls, List.foldl_append, List.foldl_cons]
    exact routines_foldl_afterCall h

theorem exists_sinceReset (calls : List Call) : ∃ recent, SinceReset calls recent := by
  induction calls with
  | nil => exact ⟨[], .never List.not_mem_nil⟩
  | cons call calls ih =>
    obtain ⟨recent, h⟩ := ih
    cases h with
    | behind h =>
      rw [← List.cons_append]
      exact ⟨recent, .behind h⟩
    | never h =>
      by_cases hcall : call = .reset
      · subst hcall
        have hreset : SinceReset ([] ++ .reset :: calls) calls := .behind h
        exact ⟨calls, hreset⟩
      · exact ⟨call :: calls, .never (by simp [h, Ne.symm hcall])⟩

theorem routines_ofCalls (calls : List Call) :
    ∃ recent, SinceReset calls recent ∧ Gathers Adds recent (ofCalls calls).routines := by
  obtain ⟨recent, h⟩ := exists_sinceReset calls
  exact ⟨recent, h, (gathers_iff fun _ _ => routine?_eq_some).2 h.routines_eq⟩

theorem isEmpty_iff : s.isEmpty ↔ s.joined = [] := by
  rw [isEmpty, beq_iff_eq, ← length_joined, List.length_eq_zero_iff]

theorem addText_eq_error :
    s.addText t = .error e ↔ ∃ cause, e = .format cause ∧ Listing.parse t = .error cause := by
  rw [addText, map_eq_error, compileText_eq_error]

theorem ofCalls_concat (calls : List Call) (call : Call) :
    ofCalls (calls ++ [call]) = (ofCalls calls).afterCall call := List.foldl_concat ..

theorem ofCalls_concat_of_error (h : (ofCalls calls).addText t = .error e) :
    ofCalls (calls ++ [.addText t]) = ofCalls calls := by
  rw [ofCalls_concat, afterCall, h]

theorem addText_eq_ok_iff {size : ℕ} : (ofCalls calls).addText t = .ok (size, s') ↔
    s' = ofCalls (calls ++ [.addText t]) ∧
      ∃ codes, Listing.parse t = .ok codes ∧ size = codesSize codes := by
  rw [addText, map_eq_ok]
  constructor
  · rintro ⟨routine, hroutine, hpair⟩
    obtain ⟨codes, hparse, hcompile⟩ := compileText_eq_ok.1 hroutine
    obtain ⟨routine', hcompile', hsize⟩ := exists_compile codes
    rw [hcompile] at hcompile'
    cases hcompile'
    cases hpair
    refine ⟨?_, codes, hparse, hsize⟩
    rw [ofCalls_concat, afterCall, addText, hroutine]
    rfl
  · rintro ⟨rfl, codes, hparse, rfl⟩
    obtain ⟨routine, hcompile, hsize⟩ := exists_compile codes
    have hroutine := compileText_eq_ok.2 ⟨codes, hparse, hcompile⟩
    refine ⟨routine, hroutine, ?_⟩
    rw [ofCalls_concat, afterCall, addText, hroutine, hsize]
    rfl

theorem length_joined_of_addText {size : ℕ} (h : s.addText t = .ok (size, s')) :
    s'.joined.length = s.joined.length + size := by
  obtain ⟨routine, -, hpair⟩ := map_eq_ok.1 h
  cases hpair
  rw [joined_push, List.length_append]

/-- What a session is after any calls: the routines that calls since the last reset added, in order.
A text fails to be added only if it is no cheat list, and it changes nothing then, also where the
session is changed in place. Otherwise it is reported by how many bytes the session grew, which are 12
for each write and 20 for each comparison. -/
theorem ofCalls_keeps_added (calls : List Call) :
    (∃ recent routines, SinceReset calls recent ∧ Gathers Adds recent routines ∧
      (ofCalls calls).joined = routines.flatten ∧ (ofCalls calls).count = routines.length) ∧
    (ofCalls calls).size = (ofCalls calls).joined.length ∧
    ((ofCalls calls).isEmpty ↔ (ofCalls calls).joined = []) ∧
    (∀ t e, (ofCalls calls).addText t = .error e ↔
      ∃ cause, e = .format cause ∧ Listing.parse t = .error cause) ∧
    (∀ t e, (ofCalls calls).addText t = .error e →
      ofCalls (calls ++ [.addText t]) = ofCalls calls) ∧
    (∀ t size s', (ofCalls calls).addText t = .ok (size, s') ↔
      s' = ofCalls (calls ++ [.addText t]) ∧
        ∃ codes, Listing.parse t = .ok codes ∧ size = codesSize codes) ∧
    (∀ t size s', (ofCalls calls).addText t = .ok (size, s') →
      s'.joined.length = (ofCalls calls).joined.length + size) ∧
    ∀ t, (addTextInPlace t).run (ofCalls calls) =
      settle (ofCalls calls) ((ofCalls calls).addText t) := by
  obtain ⟨recent, hrecent, hadded⟩ := routines_ofCalls calls
  exact ⟨⟨recent, _, hrecent, hadded, rfl, rfl⟩, (length_joined _).symm, isEmpty_iff,
    fun t e => addText_eq_error, fun t e => ofCalls_concat_of_error,
    fun t size s' => addText_eq_ok_iff, fun t size s' => length_joined_of_addText,
    run_addTextInPlace _⟩

end Calls

end Session

end CartPatch.Cheat
