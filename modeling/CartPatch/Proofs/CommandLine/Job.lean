import CartPatch.CommandLine.Run
import CartPatch.Proofs.Storage.Tree

/-!
Running a job on a file tree, step by step. What holds whenever a job fails is put together from its
steps (`Job.Fails.bind`), and a step that only reads adds nothing where an unchanged tree is fine
(`Job.ReadOnly.fails_bind`).
-/

namespace CartPatch.CommandLine

open Storage Outcome

namespace Job

variable {α β : Type} {x : Job α} {f : α → Job β} {printed printed' : Printed} {t t' : Tree}
  {P : String → Tree → Prop} {path : Text}

/-- Runs a job on a file tree, behind what was printed before. -/
def on (x : Job α) (printed : Printed) (t : Tree) : (Except String α × Printed) × Tree :=
  Access.run (x.run.run printed) t

theorem on_bind (x : Job α) (f : α → Job β) (printed : Printed) (t : Tree) :
    (x >>= f).on printed t =
      match x.on printed t with
      | ((.error e, printed), t) => ((.error e, printed), t)
      | ((.ok a, printed), t) => (f a).on printed t := by
  show Access.run (Access.bind (x.run.run printed) fun r => ExceptT.bindCont f r.1 r.2) t = _
  rw [Access.run_bind, ← on]
  obtain ⟨⟨result, printed⟩, t⟩ := x.on printed t
  cases result <;> rfl

theorem on_note (text : Text) :
    (note text).on printed t = ((.ok (), { printed with notes := printed.notes ++ text }), t) := rfl

theorem on_request (x : Access α) :
    (request x).on printed t = ((.ok (x.run t).1, printed), (x.run t).2) := by
  show Access.run (Access.bind (Access.bind x _) _) t = _
  rw [Access.run_bind, Access.run_bind]
  rfl

theorem on_attempt {ε : Type} (doing : String) (words : ε → String) (result : Except ε α) :
    (attempt doing words result).on printed t =
      ((result.mapError fun e => doing ++ ": " ++ words e, printed), t) := by
  cases result <;> rfl

/-- Whenever the job fails on the tree, `P` holds of its message and of the tree afterwards. -/
def Fails (x : Job α) (t : Tree) (P : String → Tree → Prop) : Prop :=
  ∀ printed e printed' t', x.on printed t = ((.error e, printed'), t') → P e t'

theorem Fails.bind (hx : x.Fails t P)
    (hf : ∀ printed a printed' t', x.on printed t = ((.ok a, printed'), t') → (f a).Fails t' P) :
    (x >>= f).Fails t P := by
  intro printed e printed' t' h
  rw [on_bind] at h
  split at h
  · rename_i hrun
    cases h
    exact hx _ _ _ _ hrun
  · rename_i hrun
    exact hf _ _ _ _ hrun _ _ _ _ h

/-- What is asked of the files is done, and an error is an answer like any other. -/
theorem Fails.request_bind {x : Access α} (hf : (f (x.run t).1).Fails (x.run t).2 P) :
    (request x >>= f).Fails t P := by
  refine Fails.bind (fun _ _ _ _ h => ?_) fun _ _ _ _ h => ?_
  · rw [on_request] at h
    cases h
  · rw [on_request] at h
    cases h
    exact hf

theorem Fails.attempt_bind {ε : Type} {doing : String} {words : ε → String} {result : Except ε α}
    (herror : ∀ e, result = .error e → P (doing ++ ": " ++ words e) t)
    (hf : ∀ a, result = .ok a → (f a).Fails t P) : (attempt doing words result >>= f).Fails t P := by
  cases result with
  | error e =>
    refine Fails.bind (fun _ _ _ _ h => ?_) fun _ _ _ _ h => ?_
    · rw [on_attempt] at h
      cases h
      exact herror e rfl
    · rw [on_attempt] at h
      cases h
  | ok a =>
    refine Fails.bind (fun _ _ _ _ h => ?_) fun _ _ _ _ h => ?_
    · rw [on_attempt] at h
      cases h
    · rw [on_attempt] at h
      cases h
      exact hf a rfl

def ReadOnly (x : Job α) : Prop := ∀ printed t, (x.on printed t).2 = t

theorem ReadOnly.bind (hx : x.ReadOnly) (hf : ∀ a, (f a).ReadOnly) : (x >>= f).ReadOnly := by
  intro printed t
  have htree := hx printed t
  rw [on_bind]
  split
  · rename_i hrun
    rwa [hrun] at htree
  · rename_i hrun
    rw [hrun] at htree
    exact (hf _ _ _).trans htree

/-- Failures of a step that only reads are of no interest where an unchanged tree is fine. -/
theorem ReadOnly.fails_bind (hx : x.ReadOnly) (hsame : ∀ e, P e t)
    (hf : ∀ printed a printed', x.on printed t = ((.ok a, printed'), t) → (f a).Fails t P) :
    (x >>= f).Fails t P := by
  refine Fails.bind (fun printed e printed' t' hrun => ?_) fun printed a printed' t' hrun => ?_
  · have htree := hx printed t
    rw [hrun] at htree
    subst htree
    exact hsame e
  · have htree := hx printed t
    rw [hrun] at htree
    subst htree
    exact hf _ _ _ hrun

theorem readOnly_attempt {ε : Type} (doing : String) (words : ε → String) (result : Except ε α) :
    (attempt doing words result).ReadOnly := fun printed t => by rw [on_attempt]

theorem readOnly_readBytes (path : Text) : (readBytes path).ReadOnly :=
  ReadOnly.bind (fun printed t => by rw [on_request, Access.run_readFile]) fun _ =>
    readOnly_attempt _ _ _

theorem readOnly_readText (path : Text) : (readText path).ReadOnly := by
  refine (readOnly_readBytes path).bind fun data => ?_
  cases decode? data with
  | none => exact readOnly_attempt _ _ _
  | some t => exact fun _ _ => rfl

theorem readOnly_readSlot (folder : Text) (slot : Slot) :
    (request (FolderStore.readSlot folder slot)).ReadOnly := by
  intro printed t
  rw [on_request, FolderStore.readSlot, Access.run_then, Access.run_readFile]
  rcases t.read (FolderStore.slotPath folder slot) with ⟨_ | _⟩ | _ <;> rfl

theorem on_request_ok {x : Access α} {a : α}
    (h : (request x).on printed t = ((.ok a, printed'), t')) : (x.run t).1 = a := by
  rw [on_request] at h
  exact Except.ok.inj (Prod.mk.inj (Prod.mk.inj h).1).1

theorem on_attempt_ok {ε : Type} {doing : String} {words : ε → String} {result : Except ε α} {a : α}
    (h : (attempt doing words result).on printed t = ((.ok a, printed'), t')) : result = .ok a := by
  rw [on_attempt] at h
  exact mapError_eq_ok.1 (Prod.mk.inj (Prod.mk.inj h).1).1

theorem on_readBytes_ok {data : Bytes} (h : (readBytes path).on printed t = ((.ok data, printed'), t')) :
    t.read path = .ok data := by
  rw [readBytes, on_bind, on_request, Access.run_readFile] at h
  exact on_attempt_ok h

theorem on_readText_ok {text : Text} (h : (readText path).on printed t = ((.ok text, printed'), t')) :
    ∃ data, t.read path = .ok data ∧ decode? data = some text := by
  rw [readText, on_bind] at h
  split at h
  · cases h
  · rename_i data _ _ hrun
    refine ⟨data, ?_⟩
    have htree := readOnly_readBytes path printed t
    rw [hrun] at htree
    subst htree
    refine ⟨on_readBytes_ok hrun, ?_⟩
    cases htext : decode? data with
    | none =>
      rw [htext] at h
      cases on_attempt_ok h
    | some text =>
      rw [htext] at h
      cases h
      rfl

end Job

end CartPatch.CommandLine
