import CartPatch.Assembly.Scope
import CartPatch.Proofs.Assembly.Piece

/-!
Renaming identifiers. An at sign put before an identifier makes it a longer identifier and joins no
other piece, so that a text is renamed piece by piece: the renamed text consists of the renamed
pieces (`scan_makeLocal`). What renaming does to a text is thereby settled for each identifier on
its own, however often and with whatever names it is done (`makeLocal_pieces`).
-/

namespace CartPatch.Assembly

open Piece

def Piece.renamed (names : List Text) (p : Piece) : Piece := ⟨p.kind, p.makeLocal names⟩

variable {names : List Text}

@[simp] theorem kind_renamed (p : Piece) : (p.renamed names).kind = p.kind := rfl

@[simp] theorem slice_renamed (p : Piece) : (p.renamed names).slice = p.makeLocal names := rfl

theorem renamed_of_ne {p : Piece} (h : p.kind ≠ .identifier) : p.renamed names = p := by
  simp [Piece.renamed, Piece.makeLocal, h]

theorem makeLocal_nil : makeLocal names [] = [] := by simp [makeLocal, scan]

theorem makeLocal_cons (c : Char) (t : Text) :
    makeLocal names (c :: t) =
      Piece.makeLocal names ⟨kindAt c t, c :: (split c t).1⟩ ++ makeLocal names (split c t).2 := by
  simp [makeLocal, scan]

theorem makeLocal_noNames (t : Text) : makeLocal [] t = t := by
  simp [makeLocal, Piece.makeLocal, flatMap_slice_scan]

/-- A renamed text begins like the text: renaming changes no piece in front of it. -/
theorem alike_makeLocal (names : List Text) (t : Text) : Alike t (makeLocal names t) := by
  fun_induction Piece.scan t with
  | case1 =>
    rw [makeLocal_nil]
    exact .nil
  | case2 c t ih =>
    rw [makeLocal_cons, Piece.makeLocal]
    split
    · rename_i h
      exact .identifier (isIdentifierChar_of_kindAt h.1) (by decide)
    · have hrest := (ih.append_left (split c t).1).opensComment_cons (c := c)
      rw [append_split] at hrest
      exact .same hrest

theorem split_at {c : Char} {t : Text} (h : kindAt c t = .identifier) :
    split '@' (c :: t) = (c :: (split c t).1, (split c t).2) := by
  have hat : kindAt '@' (c :: t) = .identifier := kindAt_of_isIdentifierChar (by decide)
  have hc := isIdentifierChar_of_kindAt h
  simp [split, h, hat, identifierRest, hc]

theorem scan_makeLocal (names : List Text) (t : Text) :
    scan (makeLocal names t) = (scan t).map (·.renamed names) := by
  fun_induction Piece.scan t with
  | case1 =>
    rw [makeLocal_nil, scan]
    rfl
  | case2 c t ih =>
    have hbehind := append_split c t
    have hsplit : split c ((split c t).1 ++ makeLocal names (split c t).2) =
        ((split c t).1, makeLocal names (split c t).2) :=
      split_append (by rw [hbehind]) (alike_makeLocal names _)
    have hkind : kindAt c ((split c t).1 ++ makeLocal names (split c t).2) = kindAt c t := by
      rw [← ((alike_makeLocal names _).append_left _).kindAt_eq, hbehind]
    rw [makeLocal_cons, List.map_cons, ← ih, Piece.renamed, Piece.makeLocal]
    split
    · rename_i h
      have hidentifier := hkind.trans h.1
      rw [List.cons_append, List.cons_append, scan, split_at hidentifier, hsplit,
        kindAt_of_isIdentifierChar (by decide)]
      rw [h.1]
    · rw [List.cons_append, scan_cons_append hsplit, hkind]

/-- Only which names there are matters, not their order or number. -/
theorem makeLocal_congr {names' : List Text} (h : ∀ name, name ∈ names ↔ name ∈ names') (t : Text) :
    makeLocal names t = makeLocal names' t := by
  simp [makeLocal, Piece.makeLocal, h]

/-- What was renamed is none of the names any more, so a second renaming adds its own names. -/
theorem makeLocal_makeLocal {first second : List Text}
    (h : ∀ name ∈ second, name.head? ≠ some '@') (t : Text) :
    makeLocal second (makeLocal first t) = makeLocal (first ++ second) t := by
  have hpiece (p : Piece) :
      (p.renamed first).makeLocal second = p.makeLocal (first ++ second) := by
    by_cases hfirst : p.kind = .identifier ∧ p.slice ∈ first
    · have hat : '@' :: p.slice ∉ second := fun hmem => h _ hmem rfl
      simp [Piece.renamed, Piece.makeLocal, hfirst, hat]
    · have hor : (p.kind = .identifier ∧ p.slice ∈ first ++ second) ↔
          (p.kind = .identifier ∧ p.slice ∈ second) := by grind
      simp only [Piece.renamed, Piece.makeLocal, if_neg hfirst, hor]
  rw [makeLocal, scan_makeLocal, List.flatMap_map]
  simp only [hpiece]
  rfl

/-- A renamed text consists of the same pieces, one by one: only an identifier that is one of the
names has an at sign more. Hence names that do not begin with an at sign can be made local in parts,
more than once and in any order. -/
theorem makeLocal_pieces (t : Text) :
    (∀ names, scan (makeLocal names t) = (scan t).map fun p =>
      ⟨p.kind, if p.kind = .identifier ∧ p.slice ∈ names then '@' :: p.slice else p.slice⟩) ∧
    ∀ first second : List Text, (∀ name ∈ first ++ second, name.head? ≠ some '@') →
      makeLocal second (makeLocal first t) = makeLocal (first ++ second) t ∧
        makeLocal first (makeLocal first t) = makeLocal first t ∧
        makeLocal second (makeLocal first t) = makeLocal first (makeLocal second t) := by
  refine ⟨fun names => scan_makeLocal names t, fun first second h => ?_⟩
  obtain ⟨hfirst, hsecond⟩ := List.forall_mem_append.1 h
  rw [makeLocal_makeLocal hsecond, makeLocal_makeLocal hfirst, makeLocal_makeLocal hfirst]
  refine ⟨rfl, makeLocal_congr (fun name => ?_) t, makeLocal_congr (fun name => ?_) t⟩
  · simp
  · simp [or_comm]

/-- Two names in turn, which also stand in a comment, in a string and in other identifiers. -/
theorem makeLocal_pieces_twice :
    makeLocal ["b"] (makeLocal ["a"] "a: lw \"b\"b, a_(@a) /* a */ ; b") =
      "@a: lw \"b\"@b, a_(@a) /* a */ ; b" := by
  obtain ⟨-, htwice⟩ := makeLocal_pieces "a: lw \"b\"b, a_(@a) /* a */ ; b"
  rw [(htwice ["a"] ["b"] (by decide)).1]
  decide +kernel

end CartPatch.Assembly
