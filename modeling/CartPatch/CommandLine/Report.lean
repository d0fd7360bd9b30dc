import CartPatch.Hook.Patch
import CartPatch.Text.Numeral

/-!
Running a command: it asks for files, prints, and may fail with a message at any point. What was
printed before a failure stays printed.

The message of a failure names what was being done, the error, and the causes of the error one
after the other, although an error that has a cause already tells it in its own words.
-/

namespace CartPatch.CommandLine

open Storage

structure Printed where
  output : Text
  notes : Text
  deriving DecidableEq, Repr

abbrev Job := ExceptT String (StateT Printed Access)

namespace Job

def print (t : Text) : Job Unit := modify fun p => { p with output := p.output ++ t }

def note (t : Text) : Job Unit := modify fun p => { p with notes := p.notes ++ t }

def request {α : Type} (x : Access α) : Job α := ExceptT.lift (StateT.lift x)

/-- What was being done, and behind it the words for an error. -/
def attempt {ε α : Type} (doing : String) (words : ε → String) : Except ε α → Job α
  | .ok a => pure a
  | .error e => throw (doing ++ ": " ++ words e)

/-- The text of a byte string, which must be UTF-8. -/
def decode? (data : Bytes) : Option Text := (String.fromUTF8? ⟨data.toArray⟩).map String.toList

def encode (t : Text) : Bytes := (String.ofList t).toUTF8.toList

def readBytes (path : Text) : Job Bytes := do
  attempt ("Unable to read " ++ String.ofList path) Cause.message (← request (Access.readFile path))

def readText (path : Text) : Job Text := do
  match decode? (← readBytes path) with
  | some t => return t
  | none => attempt ("Unable to read " ++ String.ofList path) Cause.message (.error .notText)

end Job

/-- An error and its causes, each in its own words. -/
def chain (words : List String) : String := ": ".intercalate words

def storeErrorWords (e : StoreError) : List String :=
  match e with
  | .notFound _ => [e.message]
  | .io _ cause => [e.message, cause.message]

def hookErrorWords (e : Hook.HookError) : List String :=
  match e with
  | .missingPrimitive cause => [e.message, cause.message]
  | .assembly cause => [e.message, cause.message]
  | .store cause => e.message :: storeErrorWords cause
  | .imageTooSmall _ _ _ | .missingDisplacedCode _ => [e.message]

def cheatErrorWords (e : Cheat.CheatError) : List String :=
  match e with
  | .format cause => [e.message, cause.message]
  | .assembly cause => [e.message, cause.message]

end CartPatch.CommandLine
