import CartPatch.Proofs.Assembly.Draft
import Mathlib.Data.List.Forall2

/-!
Comments and strings read character by character. A reader that knows the next character only goes
through the modes of a text: code, the two kinds of comments, and strings. The pieces of a text are what
such a reader finds (`Mode.parts_scan`), but for one thing. A block comment is closed by the first
asterisk and slash behind the slash that opens it, so that slash, asterisk and slash are a comment, where
the asterisk both opens and closes.

A reader that does not let an asterisk do both finds the same comments and strings up to the first such
comment (`scan_eq_parts`), and from there it is in a comment that the pieces have ended.
-/

namespace CartPatch.Assembly

open Piece

inductive Part where
  | code
  | comment
  | string
  deriving DecidableEq, Repr

/-- Where in a text a reader of characters is. -/
inductive Mode where
  | code
  | lineComment
  /-- Between the slash and the asterisk of an opening mark. -/
  | opening
  /-- In a block comment; `starred` tells whether a slash closes it here. -/
  | blockComment (starred : Bool)
  /-- In a string; `escaped` tells whether a quote does not close it here. -/
  | string (escaped : Bool)
  deriving DecidableEq, Repr

namespace Mode

/-- Reads the character `c`, behind which `ahead` stands: what it belongs to, and the mode behind it.
`shared` tells whether the asterisk that opens a block comment may also close it. -/
def read (shared : Bool) (c : Char) (ahead : Option Char) : Mode → Part × Mode
  | code =>
    if c = ';' ∨ c = '/' ∧ ahead = some '/' then (.comment, lineComment)
    else if c = '/' ∧ ahead = some '*' then (.comment, opening)
    else if c = '"' then (.string, string false)
    else (.code, code)
  | lineComment => if c = '\n' then (.code, code) else (.comment, lineComment)
  | opening => (.comment, blockComment shared)
  | blockComment starred => (.comment, if starred ∧ c = '/' then code else blockComment (c == '*'))
  | string escaped =>
    if c = '\n' then (.code, code)
    else if c = '"' ∧ !escaped then (.string, code)
    else (.string, string (c == '\\' && !escaped))

def parts (shared : Bool) (m : Mode) : Text → List Part
  | [] => []
  | c :: t => (m.read shared c t.head?).1 :: parts shared (m.read shared c t.head?).2 t

end Mode

def Piece.Kind.part : Piece.Kind → Part
  | .comment => .comment
  | .string => .string
  | .identifier | .text => .code

/-- The piece that is a comment whose asterisk both opens and closes it. -/
def sharedStar : Piece := ⟨.comment, ['/', '*', '/']⟩

def Piece.parts (p : Piece) : List Part := p.slice.map fun _ => p.kind.part

def scanParts (t : Text) : List Part := (scan t).flatMap Piece.parts

namespace Mode

variable {shared : Bool} {c : Char} {t : Text}

theorem read_code (shared : Bool) (c : Char) (t : Text) :
    code.read shared c t.head? = ((kindAt c t).part,
      match kindAt c t with
      | .comment => if opensBlockComment (c :: t) then opening else lineComment
      | .string => string false
      | .identifier | .text => code) := by
  simp only [read, kindAt, opensComment, opensLineComment_cons, opensBlockComment_cons]
  by_cases hsemicolon : c = ';'
  · simp [hsemicolon, Kind.part]
  by_cases hquote : c = '"'
  · simp [hquote, Kind.part]
  by_cases hslash : c = '/'
  · have hword : isIdentifierChar '/' = false := by decide
    by_cases hline : t.head? = some '/'
    · simp [hslash, hline, Kind.part]
    · by_cases hblock : t.head? = some '*' <;> simp [hslash, hline, hblock, hword, Kind.part]
  · cases isIdentifierChar c <;> simp [hsemicolon, hslash, hquote, Kind.part]

theorem parts_cons (m : Mode) : parts shared m (c :: t) =
    (m.read shared c t.head?).1 :: parts shared (m.read shared c t.head?).2 t := rfl

theorem parts_code_cons (h : (kindAt c t).part = .code) :
    parts shared code (c :: t) = .code :: parts shared code t := by
  rw [parts_cons, read_code, h]
  cases hkind : kindAt c t <;> simp_all [Kind.part]

theorem parts_lineComment (t : Text) : parts shared lineComment t =
    (lineCommentRest t).1.map (fun _ => .comment) ++ parts shared code (lineCommentRest t).2 := by
  induction t with
  | nil => rfl
  | cons c t ih =>
    by_cases hc : c = '\n'
    · have hrest : lineCommentRest ('\n' :: t) = ([], '\n' :: t) := by simp [lineCommentRest]
      rw [hc, hrest, parts_code_cons (by rw [kindAt_lineFeed]; rfl), parts_cons]
      rfl
    · have hrest : lineCommentRest (c :: t) = (c :: (lineCommentRest t).1, (lineCommentRest t).2) := by
        simp [lineCommentRest, hc]
      rw [hrest, parts_cons, read, if_neg hc, ih]
      rfl

/-- Where no slash follows, it does not matter that an asterisk was read. -/
theorem parts_starred (h : t.head? ≠ some '/') (starred : Bool) :
    parts shared (blockComment starred) t = parts shared (blockComment false) t := by
  cases t with
  | nil => rfl
  | cons c t =>
    have hc : c ≠ '/' := by simpa using h
    simp [parts_cons, read, hc]

theorem parts_blockComment (t : Text) : parts shared (blockComment false) t =
    (blockCommentRest t).1.map (fun _ => .comment) ++ parts shared code (blockCommentRest t).2 := by
  fun_induction blockCommentRest t with
  | case1 => rfl
  | case2 t => rfl
  | case3 c t hopen ih =>
    have hrest : parts shared (blockComment (c == '*')) t = parts shared (blockComment false) t := by
      by_cases hc : c = '*'
      · refine parts_starred (fun hhead => ?_) _
        obtain ⟨u, rfl⟩ := List.head?_eq_some_iff.1 hhead
        exact hopen u hc rfl
      · rw [beq_false_of_ne hc]
    rw [parts_cons, List.map_cons, List.cons_append, ← ih, ← hrest]
    simp [read]

theorem parts_string (escaped : Bool) (t : Text) : parts shared (string escaped) t =
    (stringRest escaped t).1.map (fun _ => .string) ++ parts shared code (stringRest escaped t).2 := by
  induction t generalizing escaped with
  | nil => rfl
  | cons c t ih =>
    rw [parts_cons, read, stringRest]
    by_cases hline : c = '\n'
    · subst hline
      rw [if_pos rfl, if_neg (by simp), if_pos rfl]
      exact (parts_code_cons (by rw [kindAt_lineFeed]; rfl)).symm
    · by_cases hquote : c = '"' ∧ !escaped
      · rw [if_neg hline, if_pos hquote, if_pos hquote]
        rfl
      · rw [if_neg hline, if_neg hquote, if_neg hquote, if_neg hline, ih]
        rfl

theorem parts_identifier (t : Text) : parts shared code t =
    (identifierRest t).1.map (fun _ => .code) ++ parts shared code (identifierRest t).2 := by
  induction t with
  | nil => rfl
  | cons c t ih =>
    by_cases hc : isIdentifierChar c = true
    · have hrest : identifierRest (c :: t) = (c :: (identifierRest t).1, (identifierRest t).2) := by
        simp [identifierRest, hc]
      rw [parts_code_cons (by rw [kindAt_of_isIdentifierChar hc]; rfl), ih, hrest]
      rfl
    · have hrest : identifierRest (c :: t) = ([], c :: t) := by simp [identifierRest, hc]
      rw [hrest]
      rfl

theorem parts_text (t : Text) : parts shared code t =
    (textRest t).1.map (fun _ => .code) ++ parts shared code (textRest t).2 := by
  induction t with
  | nil => rfl
  | cons c t ih =>
    rw [textRest]
    split
    · rfl
    · rename_i hstop
      have hkind : kindAt c t = .text := by grind [kindAt]
      rw [parts_code_cons (by rw [hkind]; rfl), ih]
      rfl

/-- A reader in code reads a piece and is in code again, unless the piece is the comment that only a
reader with a shared asterisk finds ended. -/
theorem parts_piece (h : shared = true ∨ ⟨kindAt c t, c :: (split c t).1⟩ ≠ sharedStar) :
    parts shared code (c :: t) =
      Piece.parts ⟨kindAt c t, c :: (split c t).1⟩ ++ parts shared code (split c t).2 := by
  rw [parts_cons, read_code, Piece.parts, List.map_cons, List.cons_append]
  congr 1
  cases hkind : kindAt c t with
  | text =>
    simp only [split, hkind, Kind.part]
    exact parts_text t
  | identifier =>
    simp only [split, hkind, Kind.part]
    exact parts_identifier t
  | string =>
    simp only [split, hkind, Kind.part]
    exact parts_string false t
  | comment =>
    by_cases hblock : opensBlockComment (c :: t) = true
    · obtain ⟨hslash, hstar⟩ : c = '/' ∧ t.head? = some '*' := by
        simpa [opensBlockComment_cons] using hblock
      obtain ⟨u, rfl⟩ := List.head?_eq_some_iff.1 hstar
      simp only [split, hkind, hblock, if_true] at h ⊢
      rw [parts_cons, read]
      by_cases hclosed : u.head? = some '/'
      · obtain ⟨v, rfl⟩ := List.head?_eq_some_iff.1 hclosed
        have hshared : shared = true := h.resolve_right fun hne => hne (by rw [hslash]; rfl)
        rw [hshared]
        rfl
      · rw [parts_starred hclosed, parts_blockComment, blockCommentRest_cons (by simp [hclosed])]
        rfl
    · simp only [split, hkind, hblock]
      exact parts_lineComment t

theorem parts_pieces {ps qs : List Piece} (hscan : scan t = ps ++ qs)
    (h : shared = true ∨ sharedStar ∉ ps) :
    parts shared code t = ps.flatMap Piece.parts ++ parts shared code (qs.flatMap slice) := by
  induction ps generalizing t with
  | nil =>
    rw [List.nil_append] at hscan
    rw [← hscan, flatMap_slice_scan]
    rfl
  | cons p ps ih =>
    cases t with
    | nil => simp [scan] at hscan
    | cons c t =>
      rw [scan, List.cons_append] at hscan
      obtain ⟨rfl, hrest⟩ := List.cons.inj hscan
      rw [parts_piece (h.imp_right fun hmem heq => hmem (heq ▸ List.mem_cons_self)),
        ih hrest (h.imp_right fun hmem hrest => hmem (List.mem_cons_of_mem _ hrest)),
        List.flatMap_cons, List.append_assoc]

theorem parts_scan (t : Text) : parts true code t = scanParts t := by
  rw [parts_pieces (List.append_nil (scan t)).symm (.inl rfl)]
  exact List.append_nil _

end Mode

section Drafts

variable {names : List Text}

def SignsCode (d : Draft) (parts : List Part) : Prop :=
  List.Forall₂ (fun place part => place.2 = true → part = .code) d parts

theorem SignsCode.append {d e : Draft} {ps qs : List Part} (h : SignsCode d ps) (h' : SignsCode e qs) :
    SignsCode (d ++ e) (ps ++ qs) := List.rel_append h h'

theorem signsCode_plain (t : Text) (part : Part) : SignsCode (.plain t) (t.map fun _ => part) := by
  induction t with
  | nil => exact .nil
  | cons c t ih => exact .cons (by simp) ih

theorem Piece.signsCode (p : Piece) : SignsCode (p.draft names) p.parts := by
  rw [Piece.draft, Piece.parts]
  split
  · rename_i h
    rw [h.1]
    cases p.slice with
    | nil => exact .nil
    | cons c t => exact .cons (fun _ => rfl) (signsCode_plain t .code)
  · exact signsCode_plain _ _

theorem signsCode_draft (names : List Text) (t : Text) : SignsCode (draft names t) (scanParts t) := by
  rw [draft, scanParts]
  induction scan t with
  | nil => exact .nil
  | cons p ps ih => exact p.signsCode.append ih

end Drafts

/-- Character by character, the pieces of a text are what a reader finds that lets an asterisk open and
close a block comment, and up to the first comment where one does, what a reader finds that lets none.
Renaming puts at signs into the text, and only in front of characters of code. -/
theorem scan_eq_parts (t : Text) :
    scanParts t = Mode.parts true .code t ∧
      (∀ ps qs, scan t = ps ++ qs → sharedStar ∉ ps →
        Mode.parts false .code t =
          ps.flatMap Piece.parts ++ Mode.parts false .code (qs.flatMap slice)) ∧
      (sharedStar ∉ scan t → scanParts t = Mode.parts false .code t) ∧
      ∀ names, (draft names t).map Prod.fst = t ∧ (draft names t).written = makeLocal names t ∧
        SignsCode (draft names t) (scanParts t) := by
  refine ⟨(Mode.parts_scan t).symm, fun ps qs hscan h => Mode.parts_pieces hscan (.inr h), fun h => ?_,
    fun names => ⟨map_fst_draft names t, (makeLocal_eq_written names t).symm, signsCode_draft names t⟩⟩
  rw [Mode.parts_pieces (List.append_nil (scan t)).symm (.inr h)]
  exact (List.append_nil _).symm

/-- Marks within comments and strings, a quote behind a backslash, and a string and comments that do not
end; and a string in front of a comment with a shared asterisk. -/
theorem scan_eq_parts_marks :
    (let t : Text := "a/**/b ;/*\n\"\\\"//\\\\\"/***/ //*\n\"/*\n/* c";
      sharedStar ∉ scan t ∧ scanParts t = Mode.parts false .code t ∧
        SignsCode (draft ["a", "b", "c"] t) (scanParts t)) ∧
    Mode.parts false .code "\"/*/\"/*/ a */" =
      List.replicate 5 .string ++ Mode.parts false .code "/*/ a */" := by
  refine ⟨?_, ?_⟩
  · intro t
    have hnone : sharedStar ∉ scan t := by decide +kernel
    obtain ⟨-, -, hparts, hsigns⟩ := scan_eq_parts t
    exact ⟨hnone, hparts hnone, (hsigns _).2.2⟩
  · have hscan : scan "\"/*/\"/*/ a */" = [⟨.string, "\"/*/\""⟩] ++ scan "/*/ a */" := by
      decide +kernel
    have hfirst := (scan_eq_parts "\"/*/\"/*/ a */").2.1 _ _ hscan (by decide)
    rwa [flatMap_slice_scan] at hfirst

/-- Behind slash, asterisk and slash the pieces have ended a comment in which a reader that lets no
asterisk open and close it still is, and a name there gets an at sign. -/
theorem scan_ends_comment_early :
    (scanParts "/*/ a */")[4]? = some .code ∧
      (Mode.parts false .code "/*/ a */")[4]? = some .comment ∧
      makeLocal ["a"] "/*/ a */" = "/*/ @a */" := by
  decide +kernel

end CartPatch.Assembly
