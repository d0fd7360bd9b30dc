import CartPatch.Event.Basic

/-!
Custom events: a file of assembly text whose comments at the top describe the event.

The header is every line up to the first that is neither blank nor a comment behind a semicolon.
A header line has a key, a colon and a value: `NAME` and `EXECUTION`, of which the last line counts,
and `GAMES` and `PARAM`, which add up. Other comments are no concern of the header.
-/

namespace CartPatch.Event

structure Header where
  name : Option Text
  builds : List Build
  execution : Execution
  parameters : List Parameter
  deriving DecidableEq, Repr

namespace Header

def blank : Header := ⟨none, [], .direct, []⟩

/-- Takes in one header line; none when its value is not valid for its key. -/
def set? (h : Header) (key value : Text) : Option Header :=
  if Text.sameName key "NAME" then
    if value.isEmpty then none else some { h with name := some value }
  else if Text.sameName key "GAMES" then do
    let builds ← (value.splitOn ',').mapM fun b => Build.ofText? (Text.trim b)
    return { h with builds := h.builds ++ builds }
  else if Text.sameName key "EXECUTION" then do
    return { h with execution := ← Execution.ofText? value }
  else if Text.sameName key "PARAM" then do
    let (type, name) ← Text.cut? (· == '|') value
    return { h with parameters := h.parameters ++ [⟨Text.trim name, .ofText type⟩] }
  else some h

/-- Reads numbered lines up to the end of the header. -/
def readLines (h : Header) : List (Text × Nat) → Except EventError Header
  | [] => .ok h
  | (line, n) :: rest =>
    match Text.trim line with
    | [] => readLines h rest
    | ';' :: comment =>
      match Text.cut? (· == ':') comment with
      | none => readLines h rest
      | some (key, value) =>
        match h.set? (Text.trim key) (Text.trim value) with
        | some h => readLines h rest
        | none => .error (.invalidHeader n (Text.trim line))
    | _ => .ok h

end Header

structure CustomEvent where
  name : Text
  builds : List Build
  execution : Execution
  parameters : List Parameter
  body : Text
  deriving DecidableEq, Repr

namespace CustomEvent

/-- The id is the name as part of a label. It is told by the name, so it is no field of its own that
could differ from it. -/
def id (e : CustomEvent) : Text := labelSafe e.name

/-- Reads a custom event. A file must name the event and at least one game build. -/
def parse (t : Text) : Except EventError CustomEvent := do
  let h ← Header.blank.readLines (Text.numberedLines t)
  let some name := h.name | .error (.missingHeader "NAME")
  if h.builds.isEmpty then .error (.missingHeader "GAMES")
  else return ⟨name, h.builds, h.execution, h.parameters, t⟩

/-- The snippet of the event on a space; the parameters are those of the header. -/
def snippet (e : CustomEvent) (ctx : Context) (space : UInt16) : Except EventError Text :=
  if e.builds.contains ctx.build then
    (Snippet.event { ctx with parameters := e.parameters } e.id space e.body).mapError .scope
  else .error (.unsupportedBuild e.id ctx.build)

/-- A custom event leaves the buffer alone. -/
def toEvent (e : CustomEvent) : Event where
  id := e.id
  name := e.name
  activation := .landedOn
  execution := e.execution
  parameters := e.parameters
  builds := e.builds
  write buffer ctx space := ((e.snippet ctx space).map .assembly, buffer)

end CustomEvent

end CartPatch.Event
