import CartPatch.SymbolTable

/-!
The arguments of a command: values that are told apart by their place, and options that stand
anywhere between them.

Words are taken from left to right. The value of an option stands behind an equals sign or in the
next word. A value is checked when the next argument begins, so a word that is no argument at all
is reported before a wrong value right in front of it.
-/

namespace CartPatch.CommandLine

inductive UsageError where
  | unknownArgument
  | missingRequiredArgument
  | invalidSubcommand
  | missingSubcommand
  | valueValidation (message : String)
  | missingValue
  | surplusValue
  | repeatedArgument
  | helpRequested
  | versionRequested
  deriving DecidableEq, Repr

/-- The switches that every command line knows, told by name: they ask and do not set anything. -/
def requestNamed? (name : Text) : Option UsageError :=
  if name = "help" then some .helpRequested
  else if name = "version" then some .versionRequested
  else none

def requestLettered? (letter : Char) : Option UsageError :=
  if letter = 'h' then some .helpRequested
  else if letter = 'V' then some .versionRequested
  else none

/-- What a word behind two dashes says: a name, and what stands behind the first equals sign. -/
def splitNamed (word : Text) : Text × Option Text :=
  match Text.cut? (· == '=') word with
  | some (name, value) => (name, some value)
  | none => (word, none)

inductive ValueType where
  | path
  | build
  | symbolKind
  | offset
  | space
  | text
  deriving DecidableEq, Repr

inductive Value where
  | path (p : Text)
  | build (b : Build)
  | symbolKind (k : SymbolKind)
  | offset (n : UInt32)
  | space (n : UInt16)
  | text (t : Text)
  deriving DecidableEq, Repr

/-- Reads a 32-bit number in the base that it announces. -/
def readNumber (t : Text) : Except String UInt32 :=
  (Numeral.readAnyWord t).mapError fun fault =>
    "invalid number '" ++ String.ofList t ++ "': " ++ fault.message

/-- Reads the number of a space, which is decimal and takes sixteen bits. -/
def readSpace (t : Text) : Except String UInt16 :=
  match Numeral.readInt 10 0x8000000000000000 t with
  | .error fault => .error fault.message
  | .ok n =>
    if 0 ≤ n ∧ n < 0x10000 then .ok (UInt16.ofNat n.toNat)
    else .error (String.ofList (Numeral.signedDecimal n) ++ " is not in 0..=65535")

def ValueType.read (type : ValueType) (t : Text) : Except UsageError Value :=
  match type with
  | path => if t.isEmpty then .error .missingValue else .ok (.path t)
  | build =>
    match Build.ofText? t with
    | some b => .ok (.build b)
    | none => .error (.valueValidation Text.noSuchName)
  | symbolKind =>
    match SymbolKind.ofText? t with
    | some k => .ok (.symbolKind k)
    | none => .error (.valueValidation Text.noSuchName)
  | offset => ((readNumber t).mapError .valueValidation).map .offset
  | space => ((readSpace t).mapError .valueValidation).map .space
  | text => .ok (.text t)

/-- A value told by its place. The last one of a command may take many words. -/
structure Positional where
  name : String
  type : ValueType
  isMany : Bool

/-- An argument told by its name: behind two dashes, or by a letter behind one. Without a type of
value it is a switch. -/
structure Named where
  name : String
  letter : Option Char
  type : Option ValueType
  isRepeatable : Bool

/-- An argument that words are being taken for. A named one has no word at first. -/
structure Pending where
  name : String
  type : ValueType
  isRepeatable : Bool
  words : List Text

/-- The arguments taken so far, by name. A switch has no values. -/
abbrev Given := List (String × List Value)

/-- The state of taking arguments. Behind two dashes alone, every word is told by its place. -/
structure Reader where
  positionals : List Positional
  given : Given
  pending : Option Pending
  isLiteral : Bool

namespace Reader

/-- Adds a pending argument to those taken, if its values are right. -/
def settle (given : Given) : Option Pending → Except UsageError Given
  | none => .ok given
  | some p => do
    if p.words.isEmpty then .error .missingValue
    else if !p.isRepeatable && (given.lookup p.name).isSome then .error .repeatedArgument
    else return given ++ [(p.name, ← p.words.mapM p.type.read)]

/-- Takes a named argument, where `attached` is what stands behind the equals sign. -/
def takeNamed (r : Reader) (n : Named) (attached : Option Text) : Except UsageError Reader :=
  match n.type, attached with
  | none, some _ => .error .surplusValue
  | none, none => do
    let given ← settle r.given r.pending
    if (given.lookup n.name).isSome then .error .repeatedArgument
    else return { r with given := given ++ [(n.name, [])], pending := none }
  | some type, some word => do
    let given ← settle r.given r.pending
    let given ← settle given (some ⟨n.name, type, n.isRepeatable, [word]⟩)
    return { r with given, pending := none }
  | some type, none => do
    let given ← settle r.given r.pending
    return { r with given, pending := some ⟨n.name, type, n.isRepeatable, []⟩ }

/-- Asks for help or for the version, which ends the reading. Like any switch, it takes no value. -/
def ask (r : Reader) (request : UsageError) (attached : Option Text) :
    Except UsageError Reader := do
  if attached.isSome then .error .surplusValue
  else
    let _ ← settle r.given r.pending
    .error request

def takeLong (r : Reader) (named : List Named) (word : Text) : Except UsageError Reader :=
  let (name, attached) := splitNamed word
  match named.find? fun n => (n.name : Text) == name with
  | some n => r.takeNamed n attached
  | none =>
    match requestNamed? name with
    | some request => r.ask request attached
    | none => .error .unknownArgument

/-- Takes a letter behind one dash, and the value behind it if there is one. -/
def takeShort (r : Reader) (named : List Named) (letter : Char) (rest : Text) :
    Except UsageError Reader :=
  match named.find? (·.letter == some letter) with
  | some n =>
    match rest with
    | [] => r.takeNamed n none
    | '=' :: value => r.takeNamed n (some value)
    | value => r.takeNamed n (some value)
  | none =>
    match requestLettered? letter with
    | some request => r.ask request none
    | none => .error .unknownArgument

def takePlaced (r : Reader) (word : Text) : Except UsageError Reader :=
  match r.positionals with
  | [] => .error .unknownArgument
  | p :: rest => do
    let fresh : Pending := ⟨p.name, p.type, true, [word]⟩
    if p.isMany then
      match r.pending with
      | some q =>
        if q.name = p.name then
          return { r with pending := some { q with words := q.words ++ [word] } }
        else return { r with given := ← settle r.given r.pending, pending := some fresh }
      | none => return { r with pending := some fresh }
    else
      return { r with
        positionals := rest
        given := ← settle r.given r.pending
        pending := some fresh }

def take (named : List Named) (r : Reader) (word : Text) : Except UsageError Reader :=
  if r.isLiteral then r.takePlaced word
  else match word with
    | ['-', '-'] => .ok { r with isLiteral := true }
    | '-' :: '-' :: rest => r.takeLong named rest
    | '-' :: letter :: rest => r.takeShort named letter rest
    | word =>
      match r.pending with
      | some p =>
        if p.words.isEmpty then .ok { r with pending := some { p with words := [word] } }
        else r.takePlaced word
      | none => r.takePlaced word

def takeAll (positionals : List Positional) (named : List Named) (words : List Text) :
    Except UsageError Given := do
  let r ← words.foldlM (take named) ⟨positionals, [], none, false⟩
  settle r.given r.pending

end Reader

end CartPatch.CommandLine
