import CartPatch.Cheat.Listing
import CartPatch.Cheat.Routine

/-!
Sessions: the routines of one run of patching, in the order in which they were added. What a hook
stores is all of them joined.
-/

namespace CartPatch.Cheat

inductive CheatError where
  | format (cause : FormatError)
  | assembly (cause : Mips.AssemblyError)
  deriving DecidableEq, Repr

namespace CheatError

def message : CheatError → String
  | format cause => "Cheat format error: " ++ cause.message
  | assembly cause => "Cheat compile error: " ++ cause.message

end CheatError

def compileText (t : Text) : Except CheatError Bytes := do
  let codes ← (Listing.parse t).mapError .format
  (compile codes).mapError .assembly

structure Session where
  routines : List Bytes
  deriving DecidableEq, Repr

namespace Session

def empty : Session := ⟨[]⟩

def push (s : Session) (routine : Bytes) : Session := ⟨s.routines ++ [routine]⟩

/-- Compiles a cheat list and adds its routine. Also gives the size of the routine in bytes. -/
def addText (s : Session) (t : Text) : Except CheatError (Nat × Session) :=
  (compileText t).map fun routine => (routine.length, s.push routine)

def count (s : Session) : Nat := s.routines.length

def joined (s : Session) : Bytes := s.routines.flatten

def totalSize : List Bytes → Nat
  | [] => 0
  | routine :: routines => routine.length + totalSize routines

def size (s : Session) : Nat := totalSize s.routines

def isEmpty (s : Session) : Bool := s.size == 0

@[simp] theorem joined_empty : empty.joined = [] := rfl

@[simp] theorem joined_push (s : Session) (routine : Bytes) :
    (s.push routine).joined = s.joined ++ routine := by simp [push, joined]

theorem length_joined (s : Session) : s.joined.length = s.size := by
  unfold joined size
  induction s.routines with
  | nil => rfl
  | cons routine routines ih => simp [totalSize, ih]

end Session

end CartPatch.Cheat
