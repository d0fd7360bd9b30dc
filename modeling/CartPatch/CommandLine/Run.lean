import CartPatch.CommandLine.Command
import CartPatch.CommandLine.Report
import CartPatch.Event.Custom
import CartPatch.Event.Table
import CartPatch.HexDump

/-!
What each command does.
-/

namespace CartPatch.CommandLine

open Storage

def readSignedNumber (t : Text) : Except String Int :=
  match Text.trim t with
  | '-' :: digits => (readNumber digits).map fun n => -(n.toNat : Int)
  | digits => (readNumber digits).map fun n => (n.toNat : Int)

def readSpaceValue (t : Text) : Except String UInt16 := do
  let n ← readSignedNumber t
  if n < 0 then .error NumeralFault.tooSmall.message
  else if 0x10000 ≤ n then .error NumeralFault.tooLarge.message
  else .ok (UInt16.ofNat n.toNat)

def readValue (type : Event.ParameterType) (t : Text) : Except String Event.Value :=
  match type with
  | .boolean => .ok (.boolean (t == "1" || t == "true"))
  | .number | .positiveNumber => (readSignedNumber t).map .number
  | .space => (readSpaceValue t).map .space
  | .numberArray => ((t.splitOn ',').mapM readSignedNumber).map .numberArray
  | .other _ => .ok (.text t)

/-- Reads `NAME=VALUE` for a parameter of an event. -/
def readAssignment (e : Event.CustomEvent) (t : Text) : Except String (Text × Event.Value) :=
  match Text.cut? (· == '=') t with
  | none => .error ("Expected NAME=VALUE, found '" ++ String.ofList t ++ "'")
  | some (name, value) =>
    match e.parameters.find? (·.name == name) with
    | none => .error (String.ofList e.name ++ " has no parameter '" ++ String.ofList name ++ "'")
    | some p => (readValue p.type value).map fun v => (name, v)

/-- Reads assignments in order; of two for one name the last counts. -/
def readAssignments (e : Event.CustomEvent) (values : Event.Values) :
    List Text → Except String Event.Values
  | [] => .ok values
  | t :: ts => do readAssignments e ((← readAssignment e t) :: values) ts

def runScope (input : Text) (keepMarkers : Bool) : Job Unit := do
  let t ← Job.readText input
  Job.print (← Job.attempt ("Unable to scope " ++ String.ofList input)
    Assembly.ScopeError.message (Assembly.scopeLabels keepMarkers t))

def runCheats (input : Text) (asInstructions : Bool) : Job Unit := do
  let codes ← Job.attempt "Invalid cheat list" Cheat.FormatError.message
    (Cheat.Listing.parse (← Job.readText input))
  Job.print (Text.unlines (codes.map Cheat.Code.text ++ [[]]))
  if asInstructions then
    Job.print (Text.unlines ((Cheat.routineLines codes).map fun line => ' ' :: ' ' :: line))
  else
    let routine ← Job.attempt "Compilation failed" Mips.AssemblyError.message (Cheat.compile codes)
    Job.print (Text.unlines [HexDump.dump routine 0 4])

def runEvents (image : Text) (offset : UInt32) : Job Unit := do
  let table ← Job.attempt
    ("No event table at 0x" ++ String.ofList (Numeral.hex 0 offset.toNat))
    Event.TableError.message (Event.Table.parse (← Job.readBytes image) offset.toNat)
  Job.print table.text
  Job.print (Numeral.decimal table.length ++ " entries, " ++
    Numeral.decimal (Event.Table.byteLength table.length) ++ " bytes\n")

def loadSymbols (input : Text) (build : Build) : Job SymbolTable := do
  let (_, table) ← Job.attempt ("Unable to load " ++ String.ofList input) SymbolError.message
    (SymbolTable.empty.load build (← Job.readText input))
  return table

def runSymbols (input : Text) (build : Build) (kind : Option SymbolKind) : Job Unit := do
  let table ← loadSymbols input build
  Job.print (Text.unlines ((table.listing build kind).map Symbol.text))

def runCustom (input : Text) (build : Build) (space : UInt16) (values : List Text) :
    Job Unit := do
  let e ← Job.attempt ("Invalid event header in " ++ String.ofList input)
    Event.EventError.message (Event.CustomEvent.parse (← Job.readText input))
  let values ← ExceptT.mk (pure (readAssignments e [] values))
  let ctx : Event.Context := ⟨build, 0, none, e.parameters, values, none⟩
  Job.print (← ExceptT.mk (pure ((e.snippet ctx space).mapError Event.EventError.message)))

def addCheats (session : Cheat.Session) : List Text → Job Cheat.Session
  | [] => pure session
  | path :: paths => do
    let (size, session) ← Job.attempt ("Unable to compile " ++ String.ofList path)
      (fun e => chain (cheatErrorWords e)) (session.addText (← Job.readText path))
    Job.note (path ++ ": " ++ Numeral.decimal size ++ " bytes\n")
    addCheats session paths

/-- All files are read, and the patch is worked out, before the first file is written. -/
def runEmbed (image : Text) (build : Build) (symbols folder descriptor : Text)
    (cheats : List Text) (output : Option Text) : Job Unit := do
  let failed {α : Type} : Except Hook.HookError α → Job α :=
    Job.attempt "Embedding cheats failed" fun e => chain (hookErrorWords e)
  let table ← loadSymbols symbols build
  let d ← Job.attempt ("Unable to load " ++ String.ofList descriptor)
    Hook.DescriptorError.message (Hook.Descriptor.parse (← Job.readText descriptor))
  let session ← addCheats Cheat.Session.empty cheats
  let bytes ← Job.readBytes image
  let stored ← Job.request (FolderStore.readSlot folder d.slot)
  let (patch, patched) ← failed (Hook.planCheats bytes d build table session stored)
  let result ← Job.request (FolderStore.writeSlot folder d.slot patch.stored)
  failed (result.mapError .store)
  let output := output.getD image
  Job.attempt "Unable to write file" Cause.message
    (← Job.request (Access.writeFile output patched))
  Job.note ("Wrote " ++ output ++ " (" ++ Numeral.decimal patch.stored.length ++
    " bytes of cheat code stored)\n")

def Command.job : Command → Job Unit
  | scope input keepMarkers => runScope input keepMarkers
  | cheats input asInstructions => runCheats input asInstructions
  | events image offset => runEvents image offset
  | symbols input build kind => runSymbols input build kind
  | custom input build space values => runCustom input build space values
  | embed image build listing folder descriptor lists output =>
    runEmbed image build listing folder descriptor lists output

/-- Runs a command on a file tree: whether it failed, what it printed, and the tree afterwards. -/
def Command.run (c : Command) (tree : Tree) : (Except String Unit × Printed) × Tree :=
  Access.run (c.job.run.run ⟨[], []⟩) tree

end CartPatch.CommandLine
