/-!
Text as a list of characters, with the few ways of cutting it that every reader of this library
shares: behind a known beginning, at a chosen character, and at the ends of lines.

The lines of a text, each with its end, put together again give the text (`flatten_rawLines`).
-/

namespace CartPatch

/-- Text is its list of characters, so that every reader of text is a recursion on a list. -/
abbrev Text := List Char

instance : Coe String Text := ⟨String.toList⟩

namespace Text

def after? : Text → Text → Option Text
  | [], t => some t
  | _ :: _, [] => none
  | a :: p, c :: t => if a = c then after? p t else none

@[simp] theorem after?_nil (t : Text) : after? [] t = some t := by cases t <;> rfl

/-- The rest of a text behind the first place where `p` stands in it. -/
def afterFirst? (p : Text) : Text → Option Text
  | [] => after? p []
  | c :: t => (after? p (c :: t)).or (afterFirst? p t)

/-- Cuts a text at the first character that satisfies `p` and drops that character. -/
def cut? (p : Char → Bool) : Text → Option (Text × Text)
  | [] => none
  | c :: t => if p c then some ([], t) else (cut? p t).map fun (a, b) => (c :: a, b)

/-- Letters of the Latin alphabet in lower case; every other character stays as it is. -/
def lower (t : Text) : Text := t.map Char.toLower

/-- Equality up to the case of Latin letters. -/
def sameName (a b : Text) : Bool := lower a == lower b

/-- The lines of a text, each with its line feed; only the last line may be without one. -/
def rawLines : Text → List Text
  | [] => []
  | c :: t =>
    if c = '\n' then [c] :: rawLines t
    else match rawLines t with
      | [] => [[c]]
      | l :: ls => (c :: l) :: ls

theorem flatten_rawLines (t : Text) : (rawLines t).flatten = t := by
  induction t with
  | nil => rfl
  | cons c t ih =>
    by_cases h : c = '\n'
    · simp [rawLines, h, ih]
    · cases hr : rawLines t with
      | nil =>
        rw [hr] at ih
        simpa [rawLines, h, hr] using ih
      | cons l ls =>
        rw [hr] at ih
        simpa [rawLines, h, hr] using ih

/-- A line without its end, which is a line feed and at most one carriage return before it. A
carriage return that no line feed follows belongs to the line. -/
def chomp (line : Text) : Text :=
  match line.reverse with
  | '\n' :: '\r' :: r => r.reverse
  | '\n' :: r => r.reverse
  | _ => line

def lines (t : Text) : List Text := (rawLines t).map chomp

/-- The lines of a text without their ends, numbered from one. -/
def numberedLines (t : Text) : List (Text × Nat) := (lines t).zipIdx 1

def unlines (ls : List Text) : Text := ls.flatMap (· ++ ['\n'])

@[simp] theorem unlines_nil : unlines [] = [] := rfl

@[simp] theorem unlines_cons (l : Text) (ls : List Text) :
    unlines (l :: ls) = l ++ '\n' :: unlines ls := by simp [unlines]

@[simp] theorem unlines_append (a b : List Text) : unlines (a ++ b) = unlines a ++ unlines b := by
  simp [unlines]

/-- A text filled up with `c` on the right to at least `width` characters. -/
def padRight (width : Nat) (c : Char) (t : Text) : Text :=
  t ++ List.replicate (width - t.length) c

def padLeft (width : Nat) (c : Char) (t : Text) : Text :=
  List.replicate (width - t.length) c ++ t

/-- What is said of a name that is none of the names on offer. -/
def noSuchName : String := "Matching variant not found"

end Text

/-- Keeps the first of equal elements, in the order of the list. -/
def distinct {α : Type} [DecidableEq α] : List α → List α
  | [] => []
  | a :: l => a :: (distinct l).filter (· ≠ a)

theorem mem_distinct {α : Type} [DecidableEq α] {a : α} {l : List α} :
    a ∈ distinct l ↔ a ∈ l := by
  induction l with
  | nil => simp [distinct]
  | cons b l ih => by_cases h : a = b <;> simp [distinct, ih, h]

end CartPatch
