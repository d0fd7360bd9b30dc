import CartPatch.Build
import CartPatch.Assembly.Directive
import CartPatch.Text.Blank

/-!
Symbols: the named addresses of each build of the game, read from listings with one symbol a line.

A table holds the symbols of each build that a listing was loaded for. A listing that has an error
leaves the table as it was; a new listing takes the place of the old one.
-/

namespace CartPatch

inductive SymbolKind where
  | function
  | data
  deriving DecidableEq, Repr

namespace SymbolKind

def letter : SymbolKind → Text
  | function => "F"
  | data => "D"

/-- The names of the kinds: a letter or a word each. -/
def names : List (Text × SymbolKind) :=
  [("F", function), ("function", function), ("D", data), ("data", data)]

def ofText? (t : Text) : Option SymbolKind :=
  (names.find? fun (name, _) => Text.sameName name t).map (·.2)

theorem ofText?_letter (k : SymbolKind) : ofText? k.letter = some k := by cases k <;> decide

end SymbolKind

structure Symbol where
  name : Text
  build : Build
  address : UInt32
  kind : SymbolKind
  deriving DecidableEq, Repr

namespace Symbol

/-- Whether a symbol is left out of listings: its name begins with two underscores. -/
def isInternal (s : Symbol) : Bool := (Text.after? "__" s.name).isSome

def text (s : Symbol) : Text :=
  Numeral.capitalHex 8 s.address.toNat ++ ' ' :: s.kind.letter ++ ' ' :: s.name

/-- The directive that makes a symbol known to assembly text. -/
def directive (s : Symbol) : Text :=
  Assembly.Directive.define s.name ("0x" ++ Numeral.capitalHex 8 s.address.toNat)

/-- Reads a line of a listing: an address in hexadecimal, a kind and a name. -/
def ofLine? (build : Build) (line : Text) : Option Symbol :=
  match Text.words line with
  | [address, kind, name] => do
    let digits := match address with
      | '0' :: 'x' :: digits => digits
      | '0' :: 'X' :: digits => digits
      | digits => digits
    let address ← (Numeral.readWord 16 digits).toOption
    let kind ← SymbolKind.ofText? kind
    return ⟨name, build, address, kind⟩
  | _ => none

end Symbol

inductive SymbolError where
  | unknownBuild (build : Build)
  | notFound (build : Build) (name : Text)
  | alreadyDefined (name : Text)
  | malformed (line : Nat) (text : Text)
  deriving DecidableEq, Repr

namespace SymbolError

def message : SymbolError → String
  | unknownBuild build => "No symbol table loaded for " ++ build.id
  | notFound build name => "Symbol not found: " ++ String.ofList name ++ " (" ++ build.id ++ ")"
  | alreadyDefined name => "Symbol already defined: " ++ String.ofList name
  | malformed line text => s!"Malformed symbol on line {line}: '" ++ String.ofList text ++ "'"

end SymbolError

namespace SymbolTable

/-- Reads the lines of a listing behind symbols that were read already. Names are unique. -/
def readLines (build : Build) (read : List Symbol) :
    List (Text × Nat) → Except SymbolError (List Symbol)
  | [] => .ok read
  | (line, n) :: rest =>
    if Text.isRemark line then readLines build read rest
    else match Symbol.ofLine? build line with
      | none => .error (.malformed n (Text.trim line))
      | some s =>
        if read.any (·.name == s.name) then .error (.alreadyDefined s.name)
        else readLines build (read ++ [s]) rest

def readListing (build : Build) (t : Text) : Except SymbolError (List Symbol) :=
  readLines build [] (Text.numberedLines t)

end SymbolTable

/-- The symbols of each build that a listing was loaded for, in the order of the listing. -/
structure SymbolTable where
  symbols? : Build → Option (List Symbol)

namespace SymbolTable

def empty : SymbolTable := ⟨fun _ => none⟩

/-- Loads a listing for a build. Also gives the number of its symbols. -/
def load (table : SymbolTable) (build : Build) (t : Text) :
    Except SymbolError (Nat × SymbolTable) :=
  (readListing build t).map fun symbols =>
    (symbols.length, ⟨fun b => if b = build then some symbols else table.symbols? b⟩)

def hasBuild (table : SymbolTable) (build : Build) : Bool := (table.symbols? build).isSome

def address (table : SymbolTable) (build : Build) (name : Text) : Except SymbolError UInt32 :=
  match table.symbols? build with
  | none => .error (.unknownBuild build)
  | some symbols =>
    match symbols.find? (·.name == name) with
    | some s => .ok s.address
    | none => .error (.notFound build name)

/-- The symbols of a build that are not internal, of one kind or of both. -/
def listing (table : SymbolTable) (build : Build) (kind : Option SymbolKind) : List Symbol :=
  ((table.symbols? build).getD []).filter fun s =>
    !s.isInternal && kind.all (s.kind == ·)

def directives (table : SymbolTable) (build : Build) : List Text :=
  (table.listing build none).map Symbol.directive

end SymbolTable

end CartPatch
