import CartPatch.Assembly.Directive
import CartPatch.Text.Blank

/-!
Parameters of events: what a space of the board may set, of what type, and the directives that
hand the values to the code of the event.

A parameter that is a space also tells where on the board's chains of spaces it is: the chain and
the place in the chain where the space first stands, or -1 for both.
-/

namespace CartPatch.Event

/-- The types of parameters. A type that is not known passes its values on as they are. -/
inductive ParameterType where
  | boolean
  | number
  | positiveNumber
  | numberArray
  | space
  | other (name : Text)
  deriving DecidableEq, Repr

namespace ParameterType

def known : List (Text × ParameterType) :=
  [("Boolean", boolean), ("Number", number), ("PositiveNumber", positiveNumber),
   ("NumberArray", numberArray), ("Space", space)]

def ofText (t : Text) : ParameterType :=
  let name := Text.trim t
  (known.lookup name).getD (other name)

def name : ParameterType → Text
  | boolean => "Boolean"
  | number => "Number"
  | positiveNumber => "PositiveNumber"
  | numberArray => "NumberArray"
  | space => "Space"
  | other name => name

end ParameterType

structure Parameter where
  name : Text
  type : ParameterType
  deriving DecidableEq, Repr

/-- The value of a parameter. A space is given by its number on the board. -/
inductive Value where
  | boolean (set : Bool)
  | number (n : Int)
  | numberArray (ns : List Int)
  | space (index : UInt16)
  | text (t : Text)
  deriving DecidableEq, Repr

namespace Value

def render : Value → Text
  | boolean set => if set then "1" else "0"
  | number n => Numeral.signedDecimal n
  | numberArray ns => '[' :: List.intercalate [','] (ns.map Numeral.signedDecimal) ++ [']']
  | space index => Numeral.decimal index.toNat
  | text t => t

/-- The space that a value means, where a number of at most sixteen bits is a space too. -/
def space? : Value → Option UInt16
  | space index => some index
  | number n => if 0 ≤ n ∧ n < 0x10000 then some (UInt16.ofNat n.toNat) else none
  | _ => none

end Value

/-- Values by the name of their parameter. Of two values for one name the first counts. -/
abbrev Values := List (Text × Value)

/-- The spaces of a board, in chains that a player walks along. -/
abbrev Chains := List (List UInt16)

/-- The first chain that has a space, and the first place of the space in it. -/
def findSpace? (chains : Chains) (space : UInt16) : Option (Nat × Nat) :=
  chains.zipIdx.findSome? fun (chain, c) => (chain.idxOf? space).map fun s => (c, s)

namespace Parameter

open Assembly

def placeDirectives (name : Text) (place : Option (Nat × Nat)) : List Text :=
  let (c, s) := match place with
    | some (c, s) => (Numeral.decimal c, Numeral.decimal s)
    | none => ("-1", "-1")
  [Directive.define (name ++ "_chain_index") c, Directive.define (name ++ "_chain_space_index") s]

def spaceDirectives (name : Text) (space : Option UInt16) (chains : Option Chains) : List Text :=
  let place := do findSpace? (← chains) (← space)
  (space.map fun s => Directive.define name (Numeral.decimal s.toNat)).toList ++
    placeDirectives name place

/-- The directives for one parameter. An array has none, for it has no place in a directive. -/
def directives (p : Parameter) (values : Values) (chains : Option Chains) : List Text :=
  let value := values.lookup p.name
  match p.type with
  | .boolean =>
    [Directive.define p.name (Value.boolean (value = some (.boolean true))).render]
  | .numberArray => []
  | .space => spaceDirectives p.name (value.bind Value.space?) chains
  | .number | .positiveNumber | .other _ =>
    (value.map fun v => Directive.define p.name v.render).toList

end Parameter

def parameterDirectives (parameters : List Parameter) (values : Values)
    (chains : Option Chains) : List Text :=
  parameters.flatMap (·.directives values chains)

end CartPatch.Event
