import CartPatch.Bytes
import CartPatch.Event.Kind
import CartPatch.Event.Snippet

/-!
Events: whatever can generate code for a space of the board. Some events write bytes into a buffer,
others give assembly text.
-/

namespace CartPatch

namespace Event

inductive EventError where
  | unsupportedBuild (event : Text) (build : Build)
  | duplicateId (id : Text)
  | labelCollision (id existing : Text)
  | missingHeader (key : String)
  | invalidHeader (line : Nat) (text : Text)
  | bufferTooSmall (needed available : Nat)
  | scope (cause : Assembly.ScopeError)
  deriving DecidableEq, Repr

namespace EventError

def message : EventError → String
  | unsupportedBuild event build =>
    "Event " ++ String.ofList event ++ " does not support " ++ build.id
  | duplicateId id => "Event already registered: " ++ String.ofList id
  | labelCollision id existing =>
    "Event " ++ String.ofList id ++ " would share entry labels with " ++ String.ofList existing
  | missingHeader key => "Missing '" ++ key ++ "' header"
  | invalidHeader line text => s!"Invalid header on line {line}: '" ++ String.ofList text ++ "'"
  | bufferTooSmall needed available =>
    s!"Event buffer too small: need {needed} bytes, have {available}"
  | scope cause => cause.message

end EventError

/-- What an event generated for a space: a range of the buffer, or assembly text. -/
inductive Output where
  | bytes (offset size : Nat)
  | assembly (text : Text)
  deriving DecidableEq, Repr

end Event

open Event

/-- An event that can be put on a space of the board. Writing it also gives the buffer as it is
afterwards. -/
structure Event where
  id : Text
  name : Text
  activation : Activation
  execution : Execution
  parameters : List Parameter
  builds : List Build
  write : Bytes → Context → UInt16 → Except EventError Output × Bytes

namespace Event

def supports (e : Event) (build : Build) : Bool := e.builds.contains build

end Event

end CartPatch
