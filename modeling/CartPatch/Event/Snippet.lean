import CartPatch.Assembly.Scope
import CartPatch.Event.Parameter
import CartPatch.SymbolTable

/-!
Snippets: the assembly text generated for an event, for a background choice, or for code that has
an address range to itself.

Snippets of events and choices are joined into one text, so each is a block behind an entry label
of its own, and the labels that it declares are local.
-/

namespace CartPatch.Event

/-- What is known of a snippet that is being generated. The ordinal tells apart several snippets
for one space. -/
structure Context where
  build : Build
  address : UInt32
  chains : Option Chains
  parameters : List Parameter
  values : Values
  ordinal : Option Nat

namespace Context

def directives (ctx : Context) : List Text :=
  parameterDirectives ctx.parameters ctx.values ctx.chains

end Context

/-- A name as part of a label: what is no Latin letter and no digit becomes an underscore. -/
def labelSafe (name : Text) : Text := name.map fun c => if c.isAlphanum then c else '_'

def entryLabel (id : Text) (space : UInt16) (ordinal : Option Nat) : Text :=
  Assembly.reservedStart ++ "EVENT_" ++ labelSafe id ++ '_' :: Numeral.decimal space.toNat ++
    match ordinal with
    | some n => '_' :: Numeral.decimal n
    | none => []

def choiceLabel (index : Nat) : Text :=
  Assembly.reservedStart ++ "BG_CHOICE_" ++ Numeral.decimal index

namespace Snippet

open Assembly

/-- A snippet that has its address range to itself, and so sees all symbols and keeps its labels. -/
def fixed (ctx : Context) (table : SymbolTable) (body : Text) : Text :=
  Text.unlines <|
    Directive.origin ctx.address :: table.directives ctx.build ++ ctx.directives ++
      [Text.trimEnd body, Directive.align]

/-- A block behind an entry label: directives and then the body. -/
def block (label : Text) (directives : List Text) (body : Text) : Text :=
  Text.unlines <|
    Directive.beginBlock :: Directive.label label :: directives ++
      [Text.trimEnd body, Directive.endBlock]

def event (ctx : Context) (id : Text) (space : UInt16) (body : Text) : Except ScopeError Text :=
  scopeLabels false (block (entryLabel id space ctx.ordinal) ctx.directives body)

/-- The snippet of a background choice, whose body can read the number of the choice. -/
def choice (ctx : Context) (index : Nat) (body : Text) : Except ScopeError Text :=
  let number := Directive.define "BG_CHOICE_INDEX" (Numeral.decimal index)
  scopeLabels false (block (choiceLabel index) (number :: ctx.directives) body)

end Snippet

end CartPatch.Event
