import CartPatch.CommandLine.Arguments

/-!
The commands of the program and their arguments.
-/

namespace CartPatch.CommandLine

inductive Command where
  /-- Makes the labels of an assembly file local. -/
  | scope (input : Text) (keepMarkers : Bool)
  /-- Shows a cheat list and its routine, as words or as instructions. -/
  | cheats (input : Text) (asInstructions : Bool)
  /-- Shows the event table at an offset of an image. -/
  | events (image : Text) (offset : UInt32)
  /-- Lists the symbols of a symbol file. -/
  | symbols (input : Text) (build : Build) (kind : Option SymbolKind)
  /-- Generates the snippet of a custom event on a space. -/
  | custom (input : Text) (build : Build) (space : UInt16) (values : List Text)
  /-- Embeds cheat lists into an image. -/
  | embed (image : Text) (build : Build) (symbols folder descriptor : Text) (cheats : List Text)
      (output : Option Text)
  deriving DecidableEq, Repr

namespace Command

inductive Name where
  | scope | cheats | events | symbols | custom | embed
  deriving DecidableEq, Repr

def names : List (Text × Name) :=
  [("scope", .scope), ("s", .scope), ("cheats", .cheats), ("c", .cheats), ("events", .events),
   ("e", .events), ("symbols", .symbols), ("sym", .symbols), ("custom", .custom),
   ("cu", .custom), ("embed", .embed)]

def positionals : Name → List Positional
  | .scope | .cheats => [⟨"input", .path, false⟩]
  | .events => [⟨"image", .path, false⟩, ⟨"offset", .offset, false⟩]
  | .symbols => [⟨"input", .path, false⟩, ⟨"build", .build, false⟩]
  | .custom => [⟨"input", .path, false⟩, ⟨"build", .build, false⟩, ⟨"space", .space, false⟩]
  | .embed =>
    [⟨"image", .path, false⟩, ⟨"build", .build, false⟩, ⟨"symbols", .path, false⟩,
     ⟨"folder", .path, false⟩, ⟨"cheats", .path, true⟩]

def named : Name → List Named
  | .scope => [⟨"keep-markers", none, none, false⟩]
  | .cheats => [⟨"asm", none, none, false⟩]
  | .events => []
  | .symbols => [⟨"kind", none, some .symbolKind, false⟩]
  | .custom => [⟨"value", none, some .text, true⟩]
  | .embed => [⟨"hook", none, some .path, false⟩, ⟨"output", some 'o', some .path, false⟩]

section Lookup

variable (given : Given)

def all (name : String) : List Value := given.flatMap fun (n, vs) => if n = name then vs else []

def isSet (name : String) : Bool := (given.lookup name).isSome

def paths (name : String) : List Text :=
  (all given name).filterMap fun
    | .path p => some p
    | _ => none

def path? (name : String) : Option Text := (paths given name).head?

def build? : Option Build :=
  (all given "build").findSome? fun
    | .build b => some b
    | _ => none

def kind? : Option SymbolKind :=
  (all given "kind").findSome? fun
    | .symbolKind k => some k
    | _ => none

def offset? : Option UInt32 :=
  (all given "offset").findSome? fun
    | .offset n => some n
    | _ => none

def space? : Option UInt16 :=
  (all given "space").findSome? fun
    | .space n => some n
    | _ => none

def texts (name : String) : List Text :=
  (all given name).filterMap fun
    | .text t => some t
    | _ => none

/-- The command with given arguments; none when an argument that it needs is missing. -/
def ofGiven? (name : Name) : Option Command := do
  match name with
  | .scope => return scope (← path? given "input") (isSet given "keep-markers")
  | .cheats => return cheats (← path? given "input") (isSet given "asm")
  | .events => return events (← path? given "image") (← offset? given)
  | .symbols => return symbols (← path? given "input") (← build? given) (kind? given)
  | .custom =>
    return custom (← path? given "input") (← build? given) (← space? given) (texts given "value")
  | .embed =>
    let cheats := paths given "cheats"
    if cheats.isEmpty then none
    else
      return embed (← path? given "image") (← build? given) (← path? given "symbols")
        (← path? given "folder") (← path? given "hook") cheats (path? given "output")

end Lookup

def ofArguments (name : Name) (words : List Text) : Except UsageError Command := do
  let given ← Reader.takeAll (positionals name) (named name) words
  match ofGiven? given name with
  | some command => .ok command
  | none => .error .missingRequiredArgument

def helpName : Text := "help"

def isCommandName (word : Text) : Bool := word == helpName || (names.lookup word).isSome

/-- What comes of asking for help on topics. The only topics are the commands, which have no
commands of their own, so that there is at most one topic. -/
def helpOn : List Text → UsageError
  | [] => .helpRequested
  | [topic] => if isCommandName topic then .helpRequested else .invalidSubcommand
  | _ => .invalidSubcommand

/-- Why a command line is refused that begins with two dashes alone: no name of a command may
stand behind them, and anything else is taken for one. -/
def refusalBehindDashes : List Text → UsageError
  | [] => .missingSubcommand
  | word :: _ => if isCommandName word then .unknownArgument else .invalidSubcommand

/-- Why a command line is refused whose first word is none of the names in the list. -/
def refusal (word : Text) (words : List Text) : UsageError :=
  match word with
  | ['-', '-'] => refusalBehindDashes words
  | '-' :: '-' :: rest =>
    match requestNamed? (splitNamed rest).1, (splitNamed rest).2 with
    | some _, some _ => .surplusValue
    | some request, none => request
    | none, _ => .unknownArgument
  | '-' :: letter :: _ => (requestLettered? letter).getD .unknownArgument
  | word => if word = helpName then helpOn words else .invalidSubcommand

def parse : List Text → Except UsageError Command
  | [] => .error .missingSubcommand
  | word :: words =>
    match names.lookup word with
    | some name => ofArguments name words
    | none => .error (refusal word words)

end Command

end CartPatch.CommandLine
