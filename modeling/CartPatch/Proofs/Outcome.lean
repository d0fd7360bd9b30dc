import Mathlib.Data.List.Forall2

/-!
Outcomes that may be errors: when a computation in steps, or one whose error is renamed, ends well,
and how steps that change a state go on from one to the next. Steps along a list fail where the first
of them does (`foldlM_zipIdx_eq_error`). Steps that change a state in place may keep to an outcome that
leaves the state as it was in case of an error (`settle`).
-/

namespace CartPatch.Outcome

variable {ε ε' σ α β : Type}

theorem bind_eq_ok {x : Except ε α} {f : α → Except ε β} {b : β} :
    x >>= f = .ok b ↔ ∃ a, x = .ok a ∧ f a = .ok b := by
  cases x with
  | error e => simp [bind, Except.bind]
  | ok a => simp [bind, Except.bind]

theorem bind_eq_error {x : Except ε α} {f : α → Except ε β} {e : ε} :
    x >>= f = .error e ↔ x = .error e ∨ ∃ a, x = .ok a ∧ f a = .error e := by
  cases x with
  | error e' => simp [bind, Except.bind]
  | ok a => simp [bind, Except.bind]

theorem bind_of_ok {x : Except ε α} {a : α} (h : x = .ok a) (f : α → Except ε β) :
    x >>= f = f a := by
  rw [h]
  rfl

theorem bind_of_error {x : Except ε α} {e : ε} (h : x = .error e) (f : α → Except ε β) :
    x >>= f = .error e := by
  rw [h]
  rfl

theorem mapError_of_error {x : Except ε α} {e : ε} (h : x = .error e) (f : ε → ε') :
    x.mapError f = .error (f e) := by
  rw [h]
  rfl

theorem map_eq_ok {x : Except ε α} {f : α → β} {b : β} :
    x.map f = .ok b ↔ ∃ a, x = .ok a ∧ f a = b := by
  cases x with
  | error e => simp [Except.map]
  | ok a => simp [Except.map]

theorem map_eq_error {x : Except ε α} {f : α → β} {e : ε} :
    x.map f = .error e ↔ x = .error e := by
  cases x with
  | error e' => simp [Except.map]
  | ok a => simp [Except.map]

theorem mapError_eq_ok {x : Except ε α} {f : ε → ε'} {a : α} :
    x.mapError f = .ok a ↔ x = .ok a := by
  cases x with
  | error e =>
    constructor <;>
    · intro h
      cases h
  | ok a =>
    constructor <;>
    · intro h
      cases h
      rfl

theorem toOption_eq_some {x : Except ε α} {a : α} : x.toOption = some a ↔ x = .ok a := by
  cases x with
  | error e => simp [Except.toOption]
  | ok b => simp [Except.toOption]

theorem run_bind_ok {x : EStateM ε σ α} {f : α → EStateM ε σ β} {s s' : σ} {a : α}
    (h : x.run s = .ok a s') : (x >>= f).run s = (f a).run s' := by
  rw [EStateM.run_bind, h]

theorem run_bind_error {x : EStateM ε σ α} {f : α → EStateM ε σ β} {s s' : σ} {e : ε}
    (h : x.run s = .error e s') : (x >>= f).run s = .error e s' := by
  rw [EStateM.run_bind, h]

theorem run_ofExcept (x : Except ε α) (s : σ) :
    (MonadExcept.ofExcept x : EStateM ε σ α).run s =
      match x with
      | .ok a => .ok a s
      | .error e => .error e s := by
  cases x <;> rfl

/-- Where steps in place end that come to an outcome with a new state: an error leaves the state as it
was before the first of them. -/
def settle (s : σ) : Except ε (α × σ) → EStateM.Result ε σ α
  | .ok (a, s') => .ok a s'
  | .error e => .error e s

theorem mapM_eq_some {f : α → Option β} {l : List α} {bs : List β} :
    l.mapM f = some bs ↔ List.Forall₂ (fun a b => f a = some b) l bs := by
  induction l generalizing bs with
  | nil => simp [List.forall₂_nil_left_iff, eq_comm]
  | cons a l ih =>
    rw [List.mapM_cons, List.forall₂_cons_left_iff]
    simp only [Option.bind_eq_bind, Option.bind_eq_some_iff, ih, Option.pure_def, Option.some.injEq]
    constructor
    · rintro ⟨b, hb, bs, hbs, rfl⟩
      exact ⟨b, bs, hb, hbs, rfl⟩
    · rintro ⟨b, bs, hb, hbs, rfl⟩
      exact ⟨b, hb, bs, hbs, rfl⟩

theorem mapM_eq_none {f : α → Option β} {l : List α} :
    l.mapM f = none ↔ ∃ a ∈ l, f a = none := by
  induction l with
  | nil => simp
  | cons a l ih =>
    rw [List.mapM_cons]
    cases hfirst : f a with
    | none => simp [hfirst]
    | some b =>
      simp only [List.mem_cons, exists_eq_or_imp, hfirst, reduceCtorEq, false_or, ← ih]
      cases l.mapM f <;> simp

/-- Steps along a numbered list fail at the first element whose step fails. -/
theorem foldlM_zipIdx_eq_error {f : σ → α × ℕ → Except ε σ} {l : List α} {s : σ} {n : ℕ} {e : ε} :
    (l.zipIdx n).foldlM f s = .error e ↔
      ∃ before a behind s', l = before ++ a :: behind ∧ (before.zipIdx n).foldlM f s = .ok s' ∧
        f s' (a, n + before.length) = .error e := by
  constructor
  · intro h
    induction l generalizing s n with
    | nil => cases h
    | cons a l ih =>
      rw [List.zipIdx_cons, List.foldlM_cons] at h
      rcases bind_eq_error.1 h with h | ⟨s₁, hone, h⟩
      · exact ⟨[], a, l, s, rfl, rfl, h⟩
      · obtain ⟨before, b, behind, s', rfl, hbefore, hb⟩ := ih h
        refine ⟨a :: before, b, behind, s', rfl, ?_, ?_⟩
        · rw [List.zipIdx_cons, List.foldlM_cons, bind_of_ok hone, hbefore]
        · rwa [List.length_cons, ← Nat.add_assoc, Nat.add_right_comm]
  · rintro ⟨before, a, behind, s', rfl, hbefore, ha⟩
    rw [List.zipIdx_append, List.foldlM_append, bind_of_ok hbefore, List.zipIdx_cons,
      List.foldlM_cons]
    exact bind_of_error ha _

end CartPatch.Outcome
