import CartPatch.Bytes
import CartPatch.Text.Basic

/-!
File trees: the files and folders below the working folder, and what the operating system answers
when a path is read, written or made a folder.

A path is walked step by step. Every step but the last must be a folder; one dot stays in a folder
and two dots go back to the folder above. A path may lead out of the working folder. The folders
above it are there, but nothing is known to lie in them until it is written.
-/

namespace CartPatch.Storage

inductive Cause where
  | notFound
  | alreadyExists
  | notFolder
  | isFolder
  | nameTooLong
  | nulInName
  | notText
  | other (reason : String)
  deriving DecidableEq, Repr

namespace Cause

def message : Cause → String
  | notFound => "No such file or directory (os error 2)"
  | alreadyExists => "File exists (os error 17)"
  | notFolder => "Not a directory (os error 20)"
  | isFolder => "Is a directory (os error 21)"
  | nameTooLong => "File name too long (os error 36)"
  | nulInName => "file name contained an unexpected NUL byte"
  | notText => "stream did not contain valid UTF-8"
  | other reason => reason

end Cause

/-- The names on the way from the working folder to a file or folder. A place outside begins with
two dots for each folder above the working folder, or with a slash for the outermost folder. -/
abbrev Place := List Text

/-- Files and folders by place. The working folder itself is not listed. -/
structure Tree where
  files : List (Place × Bytes)
  folders : List Place
  deriving DecidableEq, Repr

/-- The list with `value` for `key`, in the place of the old value if there is one. -/
def put {α β : Type} [DecidableEq α] (key : α) (value : β) : List (α × β) → List (α × β)
  | [] => [(key, value)]
  | (k, v) :: rest => if k = key then (key, value) :: rest else (k, v) :: put key value rest

theorem lookup_put {α β : Type} [DecidableEq α] (key k : α) (value : β) (l : List (α × β)) :
    (put key value l).lookup k = if k = key then some value else l.lookup k := by
  induction l with
  | nil =>
    by_cases h : k = key
    · simp [put, h]
    · simp [put, List.lookup_cons, h, beq_false_of_ne h]
  | cons p rest ih =>
    obtain ⟨j, v⟩ := p
    by_cases hj : j = key
    · subst hj
      by_cases h : k = j
      · simp [put, h]
      · simp [put, List.lookup_cons, h, beq_false_of_ne h]
    · by_cases h : k = j
      · subst h
        simp [put, hj]
      · simp [put, List.lookup_cons, hj, beq_false_of_ne h, ih]

namespace Tree

def empty : Tree := ⟨[], []⟩

/-- The folder that has all others. -/
def outermost : Place := [['/']]

def isUpward (p : Place) : Bool := p.all (· == ['.', '.'])

def isInside (p : Place) : Bool := p.head? != some ['.', '.'] && p.head? != some ['/']

/-- The folder above a folder. The outermost folder is above itself. -/
def above (p : Place) : Place :=
  if isUpward p then p ++ [['.', '.']]
  else if p = outermost then p
  else p.dropLast

def isFolder (t : Tree) (p : Place) : Bool :=
  isUpward p || p == outermost || t.folders.contains p

def file? (t : Tree) (p : Place) : Option Bytes := t.files.lookup p

def byteSize (t : Text) : Nat := (String.ofList t).utf8ByteSize

def maxNameSize : Nat := 255

def maxPathSize : Nat := 4095

/-- Checks a path before anything is looked up. -/
def checkPath (path : Text) : Except Cause Unit :=
  if path.contains '\x00' then .error .nulInName
  else if maxPathSize < byteSize path then .error .nameTooLong
  else .ok ()

def checkName (name : Text) : Except Cause Unit :=
  if maxNameSize < byteSize name then .error .nameTooLong else .ok ()

def steps (path : Text) : List Text := (path.splitOn '/').filter (!·.isEmpty)

/-- The folder that the steps of a path begin in. -/
def start (path : Text) : Place := if path.head? = some '/' then outermost else []

/-- Whether a step goes to a folder whatever is there: to the same folder or to the one above. -/
def isDots (step : Text) : Bool := step == ['.'] || step == ['.', '.']

def enter (t : Tree) (p : Place) (step : Text) : Except Cause Place := do
  checkName step
  if step = ['.'] then return p
  else if step = ['.', '.'] then return above p
  else if t.isFolder (p ++ [step]) then return p ++ [step]
  else if (t.file? (p ++ [step])).isSome then .error .notFolder
  else .error .notFound

def walk (t : Tree) (p : Place) (steps : List Text) : Except Cause Place := steps.foldlM t.enter p

/-- The steps of a path before the last one, and the last one. The outermost folder is a step from
itself to itself; an empty path leads nowhere. -/
def lastStep (path : Text) : Except Cause (List Text × Text) :=
  match (steps path).getLast? with
  | some step => .ok ((steps path).dropLast, step)
  | none => if path.isEmpty then .error .notFound else .ok ([], ['.'])

def read (t : Tree) (path : Text) : Except Cause Bytes := do
  checkPath path
  let (before, step) ← lastStep path
  let p ← t.walk (start path) before
  checkName step
  if isDots step || path.getLast? == some '/' then
    let _ ← t.enter p step
    .error .isFolder
  else if t.isFolder (p ++ [step]) then .error .isFolder
  else match t.file? (p ++ [step]) with
    | some data => .ok data
    | none => .error .notFound

def write (t : Tree) (path : Text) (data : Bytes) : Except Cause Tree := do
  checkPath path
  let (before, step) ← lastStep path
  let p ← t.walk (start path) before
  if isDots step || path.getLast? == some '/' then .error .isFolder
  else do
    checkName step
    if t.isFolder (p ++ [step]) then .error .isFolder
    else return { t with files := put (p ++ [step]) data t.files }

/-- Makes one folder, named by the last step. -/
def makeFolder (t : Tree) (p : Place) (before : List Text) (step : Text) : Except Cause Tree := do
  let p ← t.walk p before
  checkName step
  if isDots step || t.isFolder (p ++ [step]) || (t.file? (p ++ [step])).isSome then
    .error .alreadyExists
  else return { t with folders := t.folders ++ [p ++ [step]] }

def leadsToFolder (t : Tree) (p : Place) (steps : List Text) : Bool := (t.walk p steps).isOk

/-- Makes a folder and every missing folder on the way from `p`, where the steps are listed from the
last to the first. Folders made before an error stay. -/
def makeFoldersUp (t : Tree) (p : Place) : List Text → Except Cause Unit × Tree
  | [] => (.ok (), t)
  | step :: before =>
    match t.makeFolder p before.reverse step with
    | .ok made => (.ok (), made)
    | .error .notFound =>
      match t.makeFoldersUp p before with
      | (.error cause, made) => (.error cause, made)
      | (.ok (), made) =>
        match made.makeFolder p before.reverse step with
        | .ok all => (.ok (), all)
        | .error cause =>
          if made.leadsToFolder p (before.reverse ++ [step]) then (.ok (), made)
          else (.error cause, made)
    | .error cause =>
      if t.leadsToFolder p (before.reverse ++ [step]) then (.ok (), t) else (.error cause, t)

def makeFolders (t : Tree) (path : Text) : Except Cause Unit × Tree :=
  match checkPath path with
  | .error cause => (.error cause, t)
  | .ok () => t.makeFoldersUp (start path) (steps path).reverse

def path (p : Place) : Text := List.intercalate ['/'] p

/-- Adds a file and the folders that it lies in. -/
def addFile (t : Tree) (place : Place) (data : Bytes) : Tree where
  files := put place data t.files
  folders := distinct (t.folders ++ (List.range place.length).tail.map place.take)

/-- The files of the working folder that differ from those of an earlier tree. -/
def changesSince (t earlier : Tree) : List (Place × Bytes) :=
  t.files.filter fun (p, data) => isInside p && earlier.file? p ≠ some data

end Tree

end CartPatch.Storage
