import CartPatch.Event.Snippet
import CartPatch.Proofs.Assembly.Completeness
import CartPatch.Proofs.Assembly.Draft
import CartPatch.Proofs.Assembly.MarkerLines
import CartPatch.Proofs.Assembly.Marking
import CartPatch.Proofs.Event.EntryLabel

/-!
The frame of a generated block: its first two lines, which open it and place its entry label, and its
last line, which closes it. Parameters and body may be any text. Nothing in them reaches into the first
lines, and what is left open in them, a comment at worst, takes in the last line as it is
(`draft_append_lineFeed`). No marker is in the frame, and no name in it can be made local, so that a
scoped block keeps its frame, and between the lines of it only at signs come in (`Snippet.keepsFrame`).
-/

namespace CartPatch.Assembly

open Piece

variable {names : List Text} {t u w : Text}

theorem isWord_of_all (hne : w ≠ []) (h : w.all isIdentifierChar = true) : IsWord w :=
  ⟨hne, List.all_eq_true.1 h⟩

theorem draft_word (hw : IsWord w) (ht : EndsWord t) (hnames : w ∉ names) :
    draft names (w ++ t) = .plain w ++ draft names t := by
  rw [draft_eq_flatMap_scanAtoms, draft_eq_flatMap_scanAtoms, scanAtoms_word hw ht, List.flatMap_cons]
  simp [Piece.draft, hnames]

theorem draft_lineFeed (t : Text) : draft names ('\n' :: t) = ('\n', false) :: draft names t :=
  draft_cons_text (kindAt_lineFeed t)

/-- A piece that goes on over the end of a line, with no slash behind it, is a comment that never
ends. -/
theorem comment_of_split {c : Char} {x a b : Text} (hslash : '/' ∉ u)
    (htext : kindAt c (x ++ '\n' :: u) ≠ .text)
    (hsplit : split c (x ++ '\n' :: u) = (x ++ '\n' :: a, b)) :
    kindAt c (x ++ '\n' :: u) = .comment ∧ b = [] := by
  have hopens : opensBlockComment (c :: (x ++ '\n' :: u)) = true := by
    by_contra hblock
    have hnone := notMem_split htext hblock
    simp [hsplit] at hnone
  have hkind : kindAt c (x ++ '\n' :: u) = .comment := by simp [kindAt, opensComment, hopens]
  have hcut := append_split c (x ++ '\n' :: u)
  have hlast := getLast?_blockCommentRest (x ++ '\n' :: u)
  simp only [split, hkind, hopens, if_true] at hsplit
  simp only [split, hkind, hopens, if_true, hsplit, List.append_assoc, List.append_right_inj] at hcut
  rw [hsplit, List.getLast?_append_of_ne_nil _ (by simp)] at hlast
  refine ⟨hkind, hlast.resolve_right fun hend => ?_⟩
  have hmem : '/' ∈ '\n' :: u := hcut ▸ List.mem_append_left b (List.mem_of_getLast? hend)
  simp [hslash] at hmem

/-- A last line that gets no at sign gets none in a text either, whatever is in front of the line: when
no slash in it can close a comment, it is read from its beginning or is all in a comment. -/
theorem draft_append_lineFeed (hslash : '/' ∉ u) (hplain : draft names u = .plain u) (x : Text) :
    ∃ d : Draft, draft names (x ++ '\n' :: u) = d ++ .plain ('\n' :: u) := by
  cases x with
  | nil => exact ⟨[], by rw [List.nil_append, draft_lineFeed, hplain]; rfl⟩
  | cons c x =>
    by_cases htext : kindAt c (x ++ '\n' :: u) = .text
    · obtain ⟨d, hd⟩ := draft_append_lineFeed hslash hplain x
      exact ⟨(c, false) :: d, by rw [List.cons_append, draft_cons_text htext, hd, List.cons_append]⟩
    obtain ⟨a, b, hsplit⟩ : ∃ a b, split c (x ++ '\n' :: u) = (a, b) := ⟨_, _, rfl⟩
    have hcut := append_split c (x ++ '\n' :: u)
    rw [List.cons_append, draft_cons]
    simp only [hsplit] at hcut ⊢
    -- The piece ends in front of the last line, and what is behind it is shorter, or it ends where the
    -- line feed is, or it goes on over the line feed.
    rcases List.append_eq_append_iff.1 hcut with ⟨x', rfl, rfl⟩ | ⟨a', rfl, hbehind⟩
    · obtain ⟨d, hd⟩ := draft_append_lineFeed hslash hplain x'
      rw [hd, ← List.append_assoc]
      exact ⟨_, rfl⟩
    · cases a' with
      | nil =>
        rw [← List.nil_append b, ← hbehind, draft_lineFeed, hplain]
        exact ⟨_, rfl⟩
      | cons d a' =>
        obtain ⟨rfl, rfl⟩ := List.cons.inj hbehind
        obtain ⟨hkind, rfl⟩ := comment_of_split hslash htext hsplit
        refine ⟨.plain (c :: x), ?_⟩
        rw [hkind, draft_nil, List.append_nil, ← Draft.plain_append, Piece.draft, if_neg (by simp)]
        simp
termination_by x.length

/-- The names of a text that are made local are no directives and none of the generated labels. -/
theorem notMem_declaredNames (h : isScopable w = false) : w ∉ declaredNames t := fun hmem => by
  simp [(mem_declaredNames.1 hmem).1] at h

theorem isScopable_reserved (h : reservedStart <+: w) : isScopable w = false := by
  obtain ⟨v, rfl⟩ := h
  have hafter := Text.after?_append reservedStart v
  cases hw : reservedStart ++ v with
  | nil => rfl
  | cons c w =>
    rw [hw] at hafter
    simp only [isScopable, hafter, Option.isNone_some, Bool.and_false]

end CartPatch.Assembly

namespace CartPatch.Event

open Assembly Piece

namespace Snippet

variable {names directives : List Text} {label body t : Text}

def opening (label : Text) : Text := Text.unlines [".beginfile", label ++ [':']]

def closing : Text := Text.unlines [".endfile"]

/-- What stands in a block between the lines of its frame, without markers: directives and body. -/
def inside (directives : List Text) (body : Text) : Text :=
  (plainLines (Text.unlines (directives ++ [Text.trimEnd body]))).flatten

theorem block_eq (label : Text) (directives : List Text) (body : Text) :
    block label directives body =
      opening label ++ (Text.unlines (directives ++ [Text.trimEnd body]) ++ closing) := by
  have hlines : Directive.beginBlock :: Directive.label label :: directives ++
      [Text.trimEnd body, Directive.endBlock] =
      [Directive.beginBlock, Directive.label label] ++
        (directives ++ [Text.trimEnd body] ++ [Directive.endBlock]) := by simp
  rw [block, hlines, Text.unlines_append, Text.unlines_append]
  rfl

theorem isPlain_label (hlabel : IsWord label) : isPlain (label ++ [':', '\n']) = true := by
  have hatoms : scanAtoms (label ++ [':', '\n']) = ⟨.identifier, label⟩ :: scanAtoms [':', '\n'] :=
    scanAtoms_word hlabel (by simp [EndsWord]; decide)
  have hcolon : ':' ∈ Marker.code (label ++ [':', '\n']) := by
    rw [Marker.code_eq, Text.mem_trim (by decide), hatoms, uncommented_cons]
    refine List.mem_append_right _ ?_
    decide +kernel
  rw [isPlain, Marker.ofLine?_of_mem (.inr rfl) hcolon]
  rfl

theorem plainLines_block (hlabel : IsWord label) :
    (plainLines (block label directives body)).flatten =
      opening label ++ (inside directives body ++ closing) := by
  have hopening : plainLines (opening label) = Text.rawLines (opening label) := by
    have hbegin : isPlain (".beginfile" ++ ['\n']) = true := by decide +kernel
    have hfeed : '\n' ∉ label ++ [':'] := by simpa using hlabel.notMem (by decide)
    have hlines : Text.rawLines (opening label) = [".beginfile" ++ ['\n'], label ++ [':', '\n']] := by
      rw [opening, Text.unlines_cons, Text.rawLines_append_lineFeed (by decide), Text.unlines_cons,
        Text.rawLines_append_lineFeed hfeed, List.append_assoc]
      rfl
    rw [plainLines, hlines, List.filter_cons_of_pos hbegin,
      List.filter_cons_of_pos (isPlain_label hlabel), List.filter_nil]
  have hclosing : plainLines closing = Text.rawLines closing := by decide +kernel
  rw [plainLines] at hopening hclosing
  rw [block_eq, plainLines, opening, Text.rawLines_unlines_append, ← opening,
    Text.rawLines_unlines_append, List.filter_append, List.filter_append, hopening, hclosing,
    List.flatten_append, List.flatten_append, Text.flatten_rawLines, Text.flatten_rawLines, inside,
    plainLines]

theorem inside_eq (directives : List Text) (body : Text) :
    inside directives body = [] ∨ ∃ x, inside directives body = x ++ ['\n'] := by
  have hends : ∀ l ∈ plainLines (Text.unlines (directives ++ [Text.trimEnd body])),
      l.getLast? = some '\n' := fun l hl =>
    Text.getLast?_of_mem_rawLines_unlines (List.mem_of_mem_filter hl)
  rw [inside]
  cases hlines : plainLines (Text.unlines (directives ++ [Text.trimEnd body])) with
  | nil => exact .inl rfl
  | cons l ls =>
    rw [hlines, List.forall_mem_cons] at hends
    exact .inr (List.getLast?_eq_some_iff.1 (Text.getLast?_append_flatten hends.1 hends.2))

theorem draft_block (hlabel : IsWord label) (hreserved : reservedStart <+: label)
    (directives : List Text) (body t : Text) :
    ∃ between : Draft,
      draft (declaredNames t) (opening label ++ (inside directives body ++ closing)) =
        .plain (opening label) ++ (between ++ .plain closing) := by
  have hline (w u : Text) (hw : IsWord w) (hscopable : isScopable w = false) :
      draft (declaredNames t) (w ++ '\n' :: u) =
        .plain w ++ ('\n', false) :: draft (declaredNames t) u := by
    rw [draft_word hw (by simp [EndsWord]; decide) (notMem_declaredNames hscopable), draft_lineFeed]
  have hopening (u : Text) : draft (declaredNames t) (opening label ++ u) =
      .plain (opening label) ++ draft (declaredNames t) u := by
    have hlabelLine : draft (declaredNames t) (label ++ ':' :: '\n' :: u) =
        .plain label ++ (':', false) :: ('\n', false) :: draft (declaredNames t) u := by
      rw [draft_word hlabel (by simp [EndsWord]; decide)
        (notMem_declaredNames (isScopable_reserved hreserved)), draft_cons_text (kindAt_colon _),
        draft_lineFeed]
    simp only [opening, Text.unlines_cons, Text.unlines_nil, List.append_assoc, List.cons_append,
      List.nil_append, Draft.plain_append, Draft.plain_cons]
    rw [hline ".beginfile" _ (isWord_of_all (by decide) (by decide)) (by decide), hlabelLine]
    rfl
  have hclosing : draft (declaredNames t) closing = .plain closing := by
    rw [closing, Text.unlines_cons, Text.unlines_nil,
      hline ".endfile" [] (isWord_of_all (by decide) (by decide)) (by decide), draft_nil,
      Draft.plain_append]
    rfl
  rcases inside_eq directives body with hnil | ⟨x, hx⟩
  · exact ⟨[], by rw [hnil, List.nil_append, List.nil_append, hopening, hclosing]⟩
  · obtain ⟨d, hd⟩ := draft_append_lineFeed (u := closing) (by decide) hclosing x
    refine ⟨d ++ .plain ['\n'], ?_⟩
    rw [hx, hopening, List.append_assoc, List.singleton_append, hd, List.append_assoc,
      ← Draft.plain_append, List.singleton_append]

/-- That a block which was scoped keeps its frame. Between the lines of the frame is what was written
there without markers, and at signs are put in before the names that the block declares. -/
def KeepsFrame (label : Text) (directives : List Text) (body : Text) : Except ScopeError Text → Prop
  | .error e => candidates (block label directives body) = .error e
  | .ok out => ∃ names, ∃ between : Draft,
      candidates (block label directives body) = .ok names ∧
      draft names (plainLines (block label directives body)).flatten =
        .plain (opening label) ++ (between ++ .plain closing) ∧
      between.map Prod.fst = inside directives body ∧
      out = opening label ++ between.written ++ closing ∧
      (opening label ++ between.written).getLast? = some '\n'

theorem getLast?_opening (label : Text) : (opening label).getLast? = some '\n' := by
  rw [opening, Text.unlines_cons, ← List.singleton_append, ← List.append_assoc, Text.unlines_cons,
    ← List.append_assoc]
  exact List.getLast?_concat

theorem keepsFrame_scopeLabels (hlabel : IsWord label) (hreserved : reservedStart <+: label) :
    KeepsFrame label directives body (scopeLabels false (block label directives body)) := by
  cases hregions : Regions.ofText (block label directives body) with
  | error e =>
    have hcandidates : candidates (block label directives body) = .error e := by
      rw [candidates, hregions]
      rfl
    rw [scopeLabels, hregions]
    exact hcandidates
  | ok r =>
    obtain ⟨between, hdraft⟩ := draft_block hlabel hreserved directives body r.outside.flatten
    have hcandidates : candidates (block label directives body) =
        .ok (declaredNames r.outside.flatten) := by
      rw [candidates, hregions]
      rfl
    have htext : between.map Prod.fst = inside directives body := by
      have h := map_fst_draft (declaredNames r.outside.flatten)
        (opening label ++ (inside directives body ++ closing))
      rw [hdraft, List.map_append, List.map_append, Draft.map_fst_plain, Draft.map_fst_plain,
        List.append_cancel_left_eq, List.append_cancel_right_eq] at h
      exact h
    have hlast : (opening label ++ between.written).getLast? = some '\n' := by
      rw [List.getLast?_append, Draft.getLast?_written, htext, getLast?_opening]
      rcases inside_eq directives body with hnil | ⟨x, hx⟩
      · rw [hnil]
        rfl
      · rw [hx, List.getLast?_concat]
        rfl
    have hscoped : scopeLabels false (block label directives body) =
        .ok (makeLocal (declaredNames r.outside.flatten) r.unmarked.flatten) := by
      rw [scopeLabels, hregions]
      rfl
    rw [← plainLines_block hlabel] at hdraft
    rw [hscoped]
    refine ⟨_, between, hcandidates, hdraft, htext, ?_, hlast⟩
    rw [Regions.unmarked_eq hregions, makeLocal_eq_written, hdraft, Draft.written_append,
      Draft.written_append, Draft.written_plain, Draft.written_plain, List.append_assoc]

end Snippet

section Labels

variable {c : Char} {id t : Text} {n : ℕ}

theorem isIdentifierChar_of_isAlphanum (h : c.isAlphanum = true) : isIdentifierChar c = true := by
  simp [isIdentifierChar, Text.isAlphanumeric_of_lt (Text.toNat_lt_of_isAlphanum h), h]

theorem isIdentifierChar_of_mem_labelSafe (h : c ∈ labelSafe id) : isIdentifierChar c = true := by
  obtain ⟨d, -, rfl⟩ := List.mem_map.1 h
  by_cases hd : d.isAlphanum = true
  · rw [if_pos hd]
    exact isIdentifierChar_of_isAlphanum hd
  · rw [if_neg hd]
    decide

theorem isIdentifierChar_of_mem_decimal (h : c ∈ Numeral.decimal n) : isIdentifierChar c = true := by
  have hdigits : Numeral.decimalDigits.all isIdentifierChar = true := by decide +kernel
  exact List.all_eq_true.1 hdigits c (Numeral.mem_decimal h)

theorem isIdentifierChar_of_mem_numbered (ht : ∀ c ∈ t, isIdentifierChar c = true)
    (h : c ∈ numbered t n) : isIdentifierChar c = true := by
  rcases List.mem_append.1 h with h | h
  · exact ht c h
  · rcases List.mem_cons.1 h with rfl | h
    · decide
    · exact isIdentifierChar_of_mem_decimal h

theorem isWord_reserved (h : ∀ c ∈ t, isIdentifierChar c = true) :
    IsWord (reservedStart ++ t) ∧ reservedStart <+: reservedStart ++ t := by
  have hstart : reservedStart.all isIdentifierChar = true := by decide +kernel
  have hne : reservedStart ++ t ≠ [] := List.append_ne_nil_of_left_ne_nil (by decide) t
  exact ⟨⟨hne, List.forall_mem_append.2 ⟨List.all_eq_true.1 hstart, h⟩⟩,
    List.prefix_append reservedStart t⟩

theorem entryLabel_reserved (id : Text) (space : UInt16) (ordinal : Option ℕ) :
    ∃ t, entryLabel id space ordinal = reservedStart ++ t ∧ ∀ c ∈ t, isIdentifierChar c = true := by
  have hevent : "EVENT_".toList.all isIdentifierChar = true := by decide +kernel
  have hspace : ∀ c ∈ numbered (labelSafe id) space.toNat, isIdentifierChar c = true := fun c =>
    isIdentifierChar_of_mem_numbered fun c => isIdentifierChar_of_mem_labelSafe
  cases ordinal with
  | none =>
    rw [entryLabel_none, entryStart, List.append_assoc]
    exact ⟨_, rfl, List.forall_mem_append.2 ⟨List.all_eq_true.1 hevent, hspace⟩⟩
  | some n =>
    rw [entryLabel_some, entryStart, List.append_assoc]
    exact ⟨_, rfl, List.forall_mem_append.2
      ⟨List.all_eq_true.1 hevent, fun c => isIdentifierChar_of_mem_numbered hspace⟩⟩

theorem choiceLabel_reserved (index : ℕ) :
    ∃ t, choiceLabel index = reservedStart ++ t ∧ ∀ c ∈ t, isIdentifierChar c = true := by
  have hchoice : "BG_CHOICE_".toList.all isIdentifierChar = true := by decide +kernel
  rw [choiceLabel, List.append_assoc]
  exact ⟨_, rfl, List.forall_mem_append.2
    ⟨List.all_eq_true.1 hchoice, fun c => isIdentifierChar_of_mem_decimal⟩⟩

end Labels

/-- The snippets of events and of background choices keep their frames, whatever the parameters are
and whatever text the body is. Between the lines of the frame stand the directives of the parameters
and the body, and in front of them the number of the choice. -/
theorem Snippet.keepsFrame (ctx : Context) (body : Text) :
    (∀ id space, KeepsFrame (entryLabel id space ctx.ordinal)
      (parameterDirectives ctx.parameters ctx.values ctx.chains) body (event ctx id space body)) ∧
    ∀ index, KeepsFrame (choiceLabel index)
      (Directive.define "BG_CHOICE_INDEX" (Numeral.decimal index) ::
        parameterDirectives ctx.parameters ctx.values ctx.chains) body
      (choice ctx index body) := by
  constructor
  · intro id space
    obtain ⟨t, ht, hword⟩ := entryLabel_reserved id space ctx.ordinal
    obtain ⟨hlabel, hreserved⟩ := ht ▸ isWord_reserved hword
    exact keepsFrame_scopeLabels hlabel hreserved
  · intro index
    obtain ⟨t, ht, hword⟩ := choiceLabel_reserved index
    obtain ⟨hlabel, hreserved⟩ := ht ▸ isWord_reserved hword
    exact keepsFrame_scopeLabels hlabel hreserved

/-- A space as the only parameter. -/
def warpContext : Context :=
  ⟨.mp2Usa, 0, some [[10, 11, 12]], [⟨"to", .space⟩], [("to", .space 11)], some 2⟩

def warpDirectives : List Text :=
  [".definelabel to,11", ".definelabel to_chain_index,0", ".definelabel to_chain_space_index,1"]

def warpBody : Text := "loop:\n  li a0, to\n  b loop\n"

/-- The directives and the body with their names made local, and the line that closes the block. -/
def warpLocal : Text :=
  ".definelabel @to,11\n.definelabel @to_chain_index,0\n.definelabel @to_chain_space_index,1\n" ++
    "@loop:\n  li a0, @to\n  b @loop\n.endfile\n"

theorem Snippet.keepsFrame_warp :
    parameterDirectives warpContext.parameters warpContext.values warpContext.chains =
        warpDirectives ∧
      KeepsFrame "__INTERNAL_EVENT_Warp_Space_7_2" warpDirectives warpBody
        (.ok (".beginfile\n__INTERNAL_EVENT_Warp_Space_7_2:\n" ++ warpLocal)) ∧
      KeepsFrame "__INTERNAL_BG_CHOICE_3" (".definelabel BG_CHOICE_INDEX,3" :: warpDirectives) warpBody
        (.ok (".beginfile\n__INTERNAL_BG_CHOICE_3:\n.definelabel @BG_CHOICE_INDEX,3\n" ++
          warpLocal)) := by
  have hdirectives : parameterDirectives warpContext.parameters warpContext.values
      warpContext.chains = warpDirectives := by decide +kernel
  have hevent : event warpContext "Warp Space" 7 warpBody =
      .ok (".beginfile\n__INTERNAL_EVENT_Warp_Space_7_2:\n" ++ warpLocal) := by decide +kernel
  have hchoice : choice warpContext 3 warpBody =
      .ok (".beginfile\n__INTERNAL_BG_CHOICE_3:\n.definelabel @BG_CHOICE_INDEX,3\n" ++ warpLocal) := by
    decide +kernel
  have hkeeps := keepsFrame warpContext warpBody
  rw [hdirectives] at hkeeps
  refine ⟨hdirectives, ?_, ?_⟩
  · rw [← hevent]
    exact hkeeps.1 "Warp Space" 7
  · rw [← hchoice]
    exact hkeeps.2 3

/-- A comment that the body leaves open, and a use of the closing line's word as a label. -/
example :
    Snippet.event ⟨.mp1Usa, 0, none, [], [], some 2⟩ "A B" 7 "x: j x\n.endglobal: /* x:" = .ok
      (".beginfile\n__INTERNAL_EVENT_A_B_7_2:\n@x: j @x\n.endglobal: /* x:\n.endfile\n") := by
  decide +kernel

end CartPatch.Event
