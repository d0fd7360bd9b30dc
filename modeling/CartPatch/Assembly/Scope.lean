import CartPatch.Assembly.Region

/-!
Scoping: the labels that a text declares become local to the text, so that texts written without
knowledge of each other can be joined. A label is local when an at sign stands before its name.

Only declarations outside global regions count. Every standing of such a name as a whole
identifier is renamed, in comments and strings none.
-/

namespace CartPatch.Assembly

/-- What the names of generated labels begin with; such labels are never renamed. -/
def reservedStart : Text := "__INTERNAL_"

/-- Whether a declared name may be made local: it is not local yet, not reserved, no directive and
no number. -/
def isScopable (name : Text) : Bool :=
  match name with
  | [] => false
  | c :: _ => c ≠ '@' && c ≠ '.' && !c.isDigit && (Text.after? reservedStart name).isNone

/-- The pieces of a line that count for a declaration: all but text of blanks only. -/
def solidPieces (line : Text) : List Piece :=
  (Piece.scan line).filter fun p => !(p.kind = .text && (Text.trim p.slice).isEmpty)

/-- The name that a line declares, either as `NAME:` or as `.definelabel NAME` and a value. No
blank may stand before the colon, and the colon is looked for where the line first has the name. -/
def declaredName? (line : Text) : Option Text :=
  match solidPieces line with
  | ⟨.identifier, directive⟩ :: ⟨.identifier, name⟩ :: _ =>
    if Text.sameName directive ".definelabel" then some name else none
  | ⟨.identifier, label⟩ :: ⟨.text, text⟩ :: _ =>
    if (Text.trimStart text).head? = some ':' ∧
        ((Text.afterFirst? label line).bind List.head?) = some ':' then some label
    else none
  | _ => none

/-- The names declared in a text that may be made local, each once, in the order of declaration. -/
def declaredNames (t : Text) : List Text :=
  distinct (((Text.lines t).filterMap declaredName?).filter isScopable)

def candidates (t : Text) : Except ScopeError (List Text) :=
  (Regions.ofText t).map fun r => declaredNames r.outside.flatten

def Piece.makeLocal (names : List Text) (p : Piece) : Text :=
  if p.kind = .identifier ∧ p.slice ∈ names then '@' :: p.slice else p.slice

/-- Puts an at sign before every identifier that is one of the names. -/
def makeLocal (names : List Text) (t : Text) : Text :=
  (Piece.scan t).flatMap (·.makeLocal names)

/-- Makes the labels that a text declares local. The marker lines of global regions stay in the
text or are left out. -/
def scopeLabels (keepMarkers : Bool) (t : Text) : Except ScopeError Text :=
  (Regions.ofText t).map fun r =>
    makeLocal (declaredNames r.outside.flatten) (if keepMarkers then t else r.unmarked.flatten)

end CartPatch.Assembly
