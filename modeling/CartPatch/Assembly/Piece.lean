import CartPatch.Text.Alphanumeric

/-!
Assembly text in pieces: identifiers, comments, strings, and the text between them. The pieces
are just fine enough to rename an identifier without touching a comment or a string.

Put together again, the pieces of a text give the text (`flatMap_slice_scan`).
-/

namespace CartPatch.Assembly

def isIdentifierChar (c : Char) : Bool :=
  Text.isAlphanumeric c || c == '_' || c == '@' || c == '.'

/-- The kinds of pieces. A string piece has its quotes; a line comment ends before the line does. -/
inductive Piece.Kind where
  | identifier
  | comment
  | string
  | text
  deriving DecidableEq, Repr

structure Piece where
  kind : Piece.Kind
  slice : Text
  deriving DecidableEq, Repr

namespace Piece

/-- Where a comment begins that ends with its line: at a semicolon and at two slashes. -/
def opensLineComment : Text → Bool
  | ';' :: _ => true
  | '/' :: '/' :: _ => true
  | _ => false

def opensBlockComment : Text → Bool
  | '/' :: '*' :: _ => true
  | _ => false

def opensComment (t : Text) : Bool := opensLineComment t || opensBlockComment t

/-- Splits a text behind the first asterisk and slash, or at its end. -/
def blockCommentRest : Text → Text × Text
  | [] => ([], [])
  | '*' :: '/' :: t => (['*', '/'], t)
  | c :: t => (c :: (blockCommentRest t).1, (blockCommentRest t).2)

def lineCommentRest (t : Text) : Text × Text :=
  (t.takeWhile (· ≠ '\n'), t.dropWhile (· ≠ '\n'))

/-- Splits a text behind the quote that closes a string, or before a line feed. A backslash takes
the meaning of the quote or backslash behind it, but never that of a line feed. -/
def stringRest (escaped : Bool) : Text → Text × Text
  | [] => ([], [])
  | c :: t =>
    if c = '"' ∧ !escaped then (['"'], t)
    else if c = '\n' then ([], c :: t)
    else
      let rest := stringRest (c == '\\' && !escaped) t
      (c :: rest.1, rest.2)

def identifierRest (t : Text) : Text × Text :=
  (t.takeWhile isIdentifierChar, t.dropWhile isIdentifierChar)

def textRest : Text → Text × Text
  | [] => ([], [])
  | c :: t =>
    if isIdentifierChar c || c == '"' || opensComment (c :: t) then ([], c :: t)
    else (c :: (textRest t).1, (textRest t).2)

/-- The kind of the piece that begins with `c`, where `t` is the text behind `c`. -/
def kindAt (c : Char) (t : Text) : Kind :=
  if opensComment (c :: t) then .comment
  else if c = '"' then .string
  else if isIdentifierChar c then .identifier
  else .text

def split (c : Char) (t : Text) : Text × Text :=
  match kindAt c t with
  | .comment => if opensBlockComment (c :: t) then blockCommentRest t else lineCommentRest t
  | .string => stringRest false t
  | .identifier => identifierRest t
  | .text => textRest t

theorem append_blockCommentRest (t : Text) :
    (blockCommentRest t).1 ++ (blockCommentRest t).2 = t := by
  fun_induction blockCommentRest t <;> simp_all

theorem append_stringRest (escaped : Bool) (t : Text) :
    (stringRest escaped t).1 ++ (stringRest escaped t).2 = t := by
  induction t generalizing escaped with
  | nil => rfl
  | cons c t ih => grind [stringRest]

theorem append_textRest (t : Text) : (textRest t).1 ++ (textRest t).2 = t := by
  induction t with
  | nil => rfl
  | cons c t ih => grind [textRest]

theorem append_split (c : Char) (t : Text) : (split c t).1 ++ (split c t).2 = t := by
  unfold split
  split
  · split
    · exact append_blockCommentRest t
    · exact List.takeWhile_append_dropWhile
  · exact append_stringRest false t
  · exact List.takeWhile_append_dropWhile
  · exact append_textRest t

theorem length_split_le (c : Char) (t : Text) : (split c t).2.length ≤ t.length := by
  have h := congrArg List.length (append_split c t)
  simp only [List.length_append] at h
  omega

def scan : Text → List Piece
  | [] => []
  | c :: t => ⟨kindAt c t, c :: (split c t).1⟩ :: scan (split c t).2
termination_by t => t.length
decreasing_by
  have := length_split_le c t
  simp only [List.length_cons]
  omega

theorem flatMap_slice_scan (t : Text) : (scan t).flatMap slice = t := by
  fun_induction scan t with
  | case1 => rfl
  | case2 c t ih => rw [List.flatMap_cons, ih, List.cons_append, append_split]

end Piece

end CartPatch.Assembly
