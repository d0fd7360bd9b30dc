import CartPatch.Storage.Tree

/-!
Access to files: a computation that asks for files and goes on with the answers. It runs on a file
tree, where what it does can be reasoned about, or on the files of the machine.
-/

namespace CartPatch.Storage

inductive Access (α : Type) where
  | done (result : α)
  | read (path : Text) (next : Except Cause Bytes → Access α)
  | write (path : Text) (data : Bytes) (next : Except Cause Unit → Access α)
  | makeFolders (path : Text) (next : Except Cause Unit → Access α)

namespace Access

def bind {α β : Type} (x : Access α) (f : α → Access β) : Access β :=
  match x with
  | done a => f a
  | read path next => read path fun r => (next r).bind f
  | write path data next => write path data fun r => (next r).bind f
  | makeFolders path next => makeFolders path fun r => (next r).bind f

instance : Monad Access where
  pure := done
  bind := bind

def readFile (path : Text) : Access (Except Cause Bytes) := read path done

def writeFile (path : Text) (data : Bytes) : Access (Except Cause Unit) := write path data done

def makeFolder (path : Text) : Access (Except Cause Unit) := makeFolders path done

/-- Runs on a file tree. A write that fails leaves the tree as it was. -/
def run {α : Type} : Access α → Tree → α × Tree
  | done a, t => (a, t)
  | read path next, t => (next (t.read path)).run t
  | write path data next, t =>
    match t.write path data with
    | .ok written => (next (.ok ())).run written
    | .error cause => (next (.error cause)).run t
  | makeFolders path next, t => (next (t.makeFolders path).1).run (t.makeFolders path).2

theorem run_bind {α β : Type} (x : Access α) (f : α → Access β) (t : Tree) :
    (x.bind f).run t = (f (x.run t).1).run (x.run t).2 := by
  induction x generalizing t with
  | done a => rfl
  | read path next ih => exact ih _ t
  | write path data next ih =>
    simp only [bind, run]
    split <;> exact ih _ _
  | makeFolders path next ih => exact ih _ _

end Access

end CartPatch.Storage
