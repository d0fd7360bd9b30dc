import CartPatch.Text.Basic

/-!
When and how the event of a board space runs. Both are named in headers and listings and numbered
in event tables, and the numbers begin at one.
-/

namespace CartPatch.Event

inductive Activation where
  | walkOver | landedOn | beginTurn | endTurn | perTurn | beforeDiceRoll
  deriving DecidableEq, Repr

namespace Activation

def all : List Activation := [walkOver, landedOn, beginTurn, endTurn, perTurn, beforeDiceRoll]

def name : Activation → String
  | walkOver => "WalkOver"
  | landedOn => "LandedOn"
  | beginTurn => "BeginTurn"
  | endTurn => "EndTurn"
  | perTurn => "PerTurn"
  | beforeDiceRoll => "BeforeDiceRoll"

def number : Activation → UInt16
  | walkOver => 1
  | landedOn => 2
  | beginTurn => 3
  | endTurn => 4
  | perTurn => 5
  | beforeDiceRoll => 6

def ofNumber? (n : UInt16) : Option Activation := all.find? (·.number == n)

theorem ofNumber?_number (a : Activation) : ofNumber? a.number = some a := by cases a <;> decide

end Activation

/-- How an event runs: as a call from the loop of the board, or as a process of its own. -/
inductive Execution where
  | direct | process
  deriving DecidableEq, Repr

namespace Execution

def all : List Execution := [direct, process]

def name : Execution → String
  | direct => "Direct"
  | process => "Process"

def number : Execution → UInt16
  | direct => 1
  | process => 2

def ofNumber? (n : UInt16) : Option Execution := all.find? (·.number == n)

def ofText? (t : Text) : Option Execution := all.find? fun e => (e.name : Text) == t

theorem ofNumber?_number (e : Execution) : ofNumber? e.number = some e := by cases e <;> decide

theorem ofText?_name (e : Execution) : ofText? e.name = some e := by cases e <;> decide

end Execution

end CartPatch.Event
