import CartPatch.CommandLine.Run

/-!
The program: reads its command line, performs the command on the files of the machine, and prints.
-/

namespace CartPatch.Console

open CommandLine Storage

/-- The number of an error of the machine, which some actions report with the opposite sign. -/
def errorNumber (code : UInt32) : UInt32 := if code < 0x80000000 then code else 0 - code

def causeOf (e : IO.Error) : Cause :=
  match e with
  | .noFileOrDirectory .. => .notFound
  | .alreadyExists .. => .alreadyExists
  | .inappropriateType _ code _ => if errorNumber code = 20 then .notFolder else .isFolder
  | .invalidArgument _ code details =>
    if errorNumber code = 36 then .nameTooLong else .other details
  | .permissionDenied .. => .other "Permission denied (os error 13)"
  | e => .other (toString e)

def caught {α : Type} (path : Text) (action : String → IO α) : IO (Except Cause α) := do
  match Tree.checkPath path with
  | .error cause => return .error cause
  | .ok () =>
    try return .ok (← action (String.ofList path))
    catch e => return .error (causeOf e)

/-- Makes a folder and every missing folder above it. Unless a folder above it is missing, the error
of making the folder itself is the one that is reported. -/
def makeFolders (path : String) : IO Unit := do
  try IO.FS.createDir path
  catch e =>
    match causeOf e with
    | .notFound => IO.FS.createDirAll path
    | _ => try IO.FS.createDirAll path catch _ => throw e

def perform {α : Type} : Access α → IO α
  | .done a => pure a
  | .read path next => do
    let data ← caught path fun p => IO.FS.readBinFile p
    perform (next (data.map (·.toList)))
  | .write path data next => do
    let written ← caught path fun p => IO.FS.writeBinFile p ⟨data.toArray⟩
    perform (next written)
  | .makeFolders path next => do
    let made ← caught path makeFolders
    perform (next made)

def usageText (e : UsageError) : String :=
  match e with
  | .valueValidation message => "error: " ++ message
  | .missingRequiredArgument => "error: a required argument is missing"
  | .missingValue => "error: an option is without its value"
  | .surplusValue => "error: an option takes no value"
  | .repeatedArgument => "error: an option is given twice"
  | .unknownArgument => "error: unexpected argument"
  | .versionRequested => "0.1.0"
  | .invalidSubcommand | .missingSubcommand | .helpRequested =>
    "usage: scope | cheats | events | symbols | custom | embed"

def isRequest (e : UsageError) : Bool := e == .helpRequested || e == .versionRequested

end CartPatch.Console

open CartPatch Console CommandLine in
def main (args : List String) : IO UInt32 := do
  match Command.parse (args.map String.toList) with
  | .error e =>
    if isRequest e then
      IO.println (usageText e)
      return 0
    else
      IO.eprintln (usageText e)
      return 2
  | .ok command =>
    let (outcome, printed) ← perform (command.job.run.run ⟨[], []⟩)
    IO.print (String.ofList printed.output)
    IO.eprint (String.ofList printed.notes)
    match outcome with
    | .ok () => return 0
    | .error message =>
      IO.eprintln ("Error: " ++ message)
      return 1
