import CartPatch.Proofs.Assembly.Lines
import CartPatch.Proofs.Text.Positions

/-!
Pieces found by their positions in a text. A cursor stands at a byte of the text, searches for the
end of the piece that begins there and moves on by as many bytes. It finds the end where the piece
ends (`pieceSize_eq`), so that it comes upon the pieces of the text one after the other and never
stands within a character (`finds_scan`).
-/

namespace CartPatch.Assembly

open Text Piece

namespace Cursor

/-- The position of the character that a string ends with or in front of, and this character. -/
def stringEnd? (escaped : Bool) : Text → Option (ℕ × Char)
  | [] => none
  | c :: t =>
    if c = '"' ∧ !escaped ∨ c = '\n' then some (0, c)
    else (stringEnd? (c == '\\' && !escaped) t).map fun e => (c.utf8Size + e.1, e.2)

def textEnd : Text → ℕ
  | [] => 0
  | c :: t =>
    if isIdentifierChar c || c == '"' || opensComment (c :: t) then 0 else c.utf8Size + textEnd t

/-- The number of bytes of the piece that begins with `c`, where `t` is the text behind `c`. A piece
whose end is not found goes on to the end of the text. -/
def pieceSize (c : Char) (t : Text) : ℕ :=
  match kindAt c t with
  | .comment =>
    if opensBlockComment (c :: t) then (positionOf? ['*', '/'] (c :: t)).elim (size (c :: t)) (· + 2)
    else (position? (· == '\n') (c :: t)).getD (size (c :: t))
  | .string =>
    (stringEnd? false t).elim (size (c :: t)) fun e => 1 + if e.2 = '"' then e.1 + 1 else e.1
  | .identifier => (position? (!isIdentifierChar ·) (c :: t)).getD (size (c :: t))
  | .text => textEnd (c :: t)

/-- What the cursor comes upon: the end of the text, a position that no text can be cut at, or a
piece, with the position behind it. -/
inductive Outcome where
  | ended
  | astray
  | found (p : Piece) (position : ℕ)

def next (t : Text) (position : ℕ) : Outcome :=
  match cutAt? position t with
  | none => .astray
  | some (_, []) => .ended
  | some (_, c :: rest) =>
    match cutAt? (pieceSize c rest) (c :: rest) with
    | none => .astray
    | some (slice, _) => .found ⟨kindAt c rest, slice⟩ (position + pieceSize c rest)

/-- The pieces that are found from a position on, until the text has ended. -/
inductive Finds (t : Text) : ℕ → List Piece → Prop where
  | ended {n : ℕ} : next t n = .ended → Finds t n []
  | found {n n' : ℕ} {p : Piece} {ps : List Piece} :
    next t n = .found p n' → Finds t n' ps → Finds t n (p :: ps)

section Sizes

variable {c : Char} {t : Text}

theorem size_blockCommentRest (t : Text) :
    (positionOf? ['*', '/'] t).elim (size t) (· + 2) = size (blockCommentRest t).1 := by
  fun_induction blockCommentRest t with
  | case1 => rfl
  | case2 t => rfl
  | case3 c t hopen ih =>
    have hprefix : ['*', '/'].isPrefixOf (c :: t) = false := by
      rw [← Bool.not_eq_true, List.isPrefixOf_iff_prefix]
      rintro ⟨u, hu⟩
      obtain ⟨rfl, rfl⟩ := List.cons.inj hu
      exact hopen u rfl rfl
    rw [positionOf?, hprefix, size_cons, size_cons, ← ih]
    cases positionOf? ['*', '/'] t with
    | none => rfl
    | some n => exact Nat.add_assoc ..

theorem size_stringRest (escaped : Bool) (t : Text) :
    ((stringEnd? escaped t).elim (size t) fun e => if e.2 = '"' then e.1 + 1 else e.1) =
      size (stringRest escaped t).1 := by
  induction t generalizing escaped with
  | nil => rfl
  | cons c t ih =>
    rw [stringEnd?, stringRest]
    by_cases hquote : c = '"' ∧ !escaped
    · rw [if_pos (.inl hquote), if_pos hquote, Option.elim_some, if_pos hquote.1]
      rfl
    · by_cases hline : c = '\n'
      · rw [if_pos (.inr hline), if_neg hquote, if_pos hline, Option.elim_some, hline]
        rfl
      · rw [if_neg (not_or.2 ⟨hquote, hline⟩), if_neg hquote, if_neg hline, size_cons, size_cons,
          ← ih]
        rcases stringEnd? (c == '\\' && !escaped) t with _ | ⟨n, d⟩
        · rfl
        · simp only [Option.map_some, Option.elim_some]
          split <;> omega

theorem textEnd_eq (t : Text) : textEnd t = size (textRest t).1 := by
  induction t with
  | nil => rfl
  | cons c t ih =>
    rw [textEnd, textRest]
    split
    · rfl
    · rw [size_cons, ih]

theorem pieceSize_eq (c : Char) (t : Text) : pieceSize c t = size (c :: (split c t).1) := by
  rw [pieceSize, split]
  cases hkind : kindAt c t with
  | comment =>
    dsimp only
    split
    · rename_i hblock
      have hstar : c ≠ '*' := by
        rintro rfl
        simp [opensBlockComment_cons] at hblock
      rw [size_blockCommentRest, blockCommentRest_cons fun h => hstar h.1]
    · have hc : c ≠ '\n' := by
        rintro rfl
        simp [kindAt_lineFeed] at hkind
      have hline (d : Char) : (!d == '\n') = decide (d ≠ '\n') := by
        by_cases hd : d = '\n' <;> simp [hd]
      rw [position?_getD, List.takeWhile_cons_of_pos (by simpa using hc)]
      simp only [hline, lineCommentRest]
  | string =>
    obtain rfl : c = '"' := by grind [kindAt]
    have hsize := size_stringRest false t
    dsimp only
    rw [size_cons (t := (stringRest false t).1), ← hsize]
    rcases stringEnd? false t with _ | e
    · exact size_cons
    · rfl
  | identifier =>
    have hc := isIdentifierChar_of_kindAt hkind
    dsimp only
    rw [position?_getD, List.takeWhile_cons_of_pos (by simpa using hc)]
    simp [identifierRest]
  | text =>
    have hstop : ¬(isIdentifierChar c || c == '"' || opensComment (c :: t)) = true := by
      grind [kindAt]
    dsimp only
    rw [textEnd_eq, textRest, if_neg hstop]

end Sizes

theorem next_append (a b : Text) : next (a ++ b) (size a) =
    match b with
    | [] => .ended
    | c :: t => .found ⟨kindAt c t, c :: (split c t).1⟩ (size (a ++ (c :: (split c t).1))) := by
  rw [next, cutAt?_append]
  cases b with
  | nil => rfl
  | cons c t =>
    have hslice : cutAt? (size (c :: (split c t).1)) (c :: t) =
        some (c :: (split c t).1, (split c t).2) :=
      cutAt?_eq_some.2 ⟨(cons_append_split c t).symm, rfl⟩
    simp only [pieceSize_eq, hslice, size_append]

theorem finds_scan (a b : Text) : Finds (a ++ b) (size a) (scan b) := by
  fun_induction Piece.scan b generalizing a with
  | case1 => exact .ended (next_append a [])
  | case2 c t ih =>
    refine .found (next_append a (c :: t)) ?_
    have hrest := ih (a ++ (c :: (split c t).1))
    rwa [List.append_assoc, cons_append_split] at hrest

theorem Finds.unique {t : Text} {n : ℕ} {ps qs : List Piece} (h : Finds t n ps)
    (h' : Finds t n qs) : ps = qs := by
  induction h generalizing qs with
  | ended hnext =>
    cases h' with
    | ended => rfl
    | found hnext' => cases hnext.symm.trans hnext'
  | found hnext _ ih =>
    cases h' with
    | ended hnext' => cases hnext.symm.trans hnext'
    | found hnext' hrest =>
      cases hnext.symm.trans hnext'
      rw [ih hrest]

end Cursor

end CartPatch.Assembly
