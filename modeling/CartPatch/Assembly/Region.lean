import CartPatch.Assembly.Piece
import CartPatch.Text.Blank

/-!
Global regions: the lines of assembly text between `.beginglobal` and `.endglobal`, where labels
keep names that other texts can see. The two markers stand alone on their lines, comments apart,
and regions do not nest.
-/

namespace CartPatch.Assembly

inductive Marker where
  | opening
  | closing
  deriving DecidableEq, Repr

/-- Why the markers of a text do not pair up; lines are numbered from one. -/
inductive ScopeError where
  | nestedRegion (line : Nat)
  | unbalancedRegion (line : Nat)
  deriving DecidableEq, Repr

namespace ScopeError

def message : ScopeError → String
  | nestedRegion line => s!"Line {line}: .beginglobal inside another .beginglobal region"
  | unbalancedRegion line => s!"Line {line}: unbalanced .beginglobal/.endglobal"

end ScopeError

namespace Marker

/-- The code of a line: its pieces without the comments and without blanks at either end. -/
def code (line : Text) : Text :=
  Text.trim (((Piece.scan line).filter (·.kind ≠ .comment)).flatMap Piece.slice)

/-- The marker that a line consists of, if any; case does not count. -/
def ofLine? (line : Text) : Option Marker :=
  if Text.sameName (code line) ".beginglobal" then some opening
  else if Text.sameName (code line) ".endglobal" then some closing
  else none

end Marker

/-- The lines of a text that are not markers, and those of them outside every region. -/
structure Regions where
  unmarked : List Text
  outside : List Text
  deriving DecidableEq, Repr

namespace Regions

/-- Adds a line in front; `inside` tells whether it lies in a region. -/
def addLine (r : Regions) (line : Text) (inside : Bool) : Regions where
  unmarked := line :: r.unmarked
  outside := if inside then r.outside else line :: r.outside

/-- Walks over numbered lines; `opened` is the line that opened the present region, if any. A
region that is never closed is reported at the line that opened it. -/
def ofLines (opened : Option Nat) : List (Text × Nat) → Except ScopeError Regions
  | [] =>
    match opened with
    | some line => .error (.unbalancedRegion line)
    | none => .ok ⟨[], []⟩
  | (line, n) :: rest =>
    match Marker.ofLine? line, opened with
    | some .opening, some _ => .error (.nestedRegion n)
    | some .opening, none => ofLines (some n) rest
    | some .closing, some _ => ofLines none rest
    | some .closing, none => .error (.unbalancedRegion n)
    | none, opened => (ofLines opened rest).map (·.addLine line opened.isSome)

def ofText (t : Text) : Except ScopeError Regions := ofLines none ((Text.rawLines t).zipIdx 1)

end Regions

end CartPatch.Assembly
