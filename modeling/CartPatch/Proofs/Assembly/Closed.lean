import CartPatch.Proofs.Assembly.Partition

/-!
Texts that are renamed on their own. A text of whole lines that leaves no comment open (`Closed`) has
at its end a piece of text, which may go on in the text behind it, while no other piece does
(`scanAtoms_append`). So it is renamed the same before and after others are put in front of it and
behind it (`makeLocal_closed`).
-/

namespace CartPatch.Assembly

open Piece

variable {names : List Text} {c : Char} {t : Text} {ts : List Text}

/-- A text of whole lines that leaves no comment open at its end. -/
structure Closed (t : Text) : Prop where
  endsLine : t.getLast? = some '\n'
  endsText : ∀ p ∈ (scan t).getLast?, p.kind = .text

instance : DecidablePred Closed := fun t =>
  decidable_of_iff (t.getLast? = some '\n' ∧ ∀ p ∈ (scan t).getLast?, p.kind = .text)
    ⟨fun h => ⟨h.1, h.2⟩, fun h => ⟨h.endsLine, h.endsText⟩⟩

theorem alike_append (h : t.getLast? = some '\n') (u : Text) : Alike t (t ++ u) := by
  obtain ⟨x, rfl⟩ := List.getLast?_eq_some_iff.1 h
  rw [List.append_assoc]
  exact alike_lineFeed x [] u

namespace Closed

theorem of_cons (h : Closed (c :: t)) (hrest : (split c t).2 ≠ []) : Closed (split c t).2 := by
  obtain ⟨hline, htext⟩ := h
  rw [← cons_append_split c t, List.getLast?_append_of_ne_nil _ hrest] at hline
  refine ⟨hline, fun p hp => htext p ?_⟩
  rw [scan, List.getLast?_cons, Option.mem_def.1 hp]
  rfl

theorem inlineComments (h : Closed (c :: t)) (hrest : (split c t).2 = []) :
    InlineComments (c :: t) := by
  have htext := h.endsText
  rw [scan, hrest, scan] at htext
  rw [InlineComments, scan, hrest, scan]
  intro p hp hblock
  obtain rfl := List.mem_singleton.1 hp
  exact absurd (hblock.1.symm.trans (htext _ rfl)) (by decide)

end Closed

/-- A text of whole lines is closed unless it ends within a block comment. -/
theorem closed_iff (h : t.getLast? = some '\n') :
    Closed t ↔ ∀ p ∈ (scan t).getLast?, ¬p.IsBlockComment := by
  refine ⟨fun hclosed p hp hblock => ?_, fun hopen => ⟨h, fun p hp => ?_⟩⟩
  · exact absurd (hblock.1.symm.trans (hclosed.endsText p hp)) (by decide)
  · obtain ⟨ps, hps⟩ := List.getLast?_eq_some_iff.1 hp
    have hne := (wellCut_of_scan hps).ne_nil
    have hcut := append_of_scan hps
    have hscan := scan_of_append hps
    rw [List.flatMap_singleton] at hcut hscan
    rw [← hcut, List.getLast?_append_of_ne_nil _ hne] at h
    obtain ⟨c, u, hslice⟩ := List.exists_cons_of_ne_nil hne
    rw [hslice, scan] at hscan
    obtain ⟨rfl, -⟩ := List.cons.inj hscan
    by_contra hkind
    refine notMem_split hkind (fun hblock => ?_) (List.mem_of_getLast? h)
    exact hopen _ hp (isBlockComment_split hblock)

/-- Behind a closed text the pieces begin anew, up to how text is divided. -/
theorem scanAtoms_append (h : Closed t) (u : Text) :
    scanAtoms (t ++ u) = scanAtoms t ++ scanAtoms u := by
  fun_induction Piece.scan t with
  | case1 => cases h.endsLine
  | case2 c t ih =>
    by_cases hrest : (split c t).2 = []
    -- The text is a piece of text, which may go on behind it.
    · have hinline := h.inlineComments hrest
      obtain ⟨x, hx⟩ := List.getLast?_eq_some_iff.1 h.endsLine
      rw [hx] at hinline ⊢
      rw [List.append_assoc]
      exact scanAtoms_append_lineFeed hinline u
    · have hclosed := h.of_cons hrest
      have hend := alike_append hclosed.endsLine u
      have hsplit := split_append (c := c) (by rw [append_split]) hend
      have hkind := (hend.append_left (split c t).1).kindAt_eq (c := c)
      rw [append_split] at hkind
      have hcut : c :: t ++ u = c :: ((split c t).1 ++ ((split c t).2 ++ u)) := by
        rw [← List.append_assoc, append_split, List.cons_append]
      rw [hcut, scanAtoms, scan_cons_append hsplit, ← hkind, List.flatMap_cons, ← scanAtoms,
        ih hclosed, scanAtoms.eq_1 (c :: t), scan, List.flatMap_cons, ← scanAtoms, List.append_assoc]

theorem makeLocal_append (h : Closed t) (u : Text) :
    makeLocal names (t ++ u) = makeLocal names t ++ makeLocal names u := by
  simp only [makeLocal_eq_flatMap_scanAtoms, scanAtoms_append h u, List.flatMap_append]

theorem Closed.makeLocal (h : Closed t) (names : List Text) : Closed (makeLocal names t) where
  endsLine := (getLast?_makeLocal t).trans h.endsLine
  endsText := by
    rw [scan_makeLocal, List.getLast?_map]
    intro p hp
    obtain ⟨q, hq, rfl⟩ := Option.map_eq_some_iff.1 hp
    exact h.endsText q hq

theorem makeLocal_flatten_append (h : ∀ t ∈ ts, Closed t) (u : Text) :
    makeLocal names (ts.flatten ++ u) = (ts.map (makeLocal names)).flatten ++ makeLocal names u := by
  induction ts with
  | nil => rfl
  | cons t ts ih =>
    obtain ⟨ht, hts⟩ := List.forall_mem_cons.1 h
    rw [List.flatten_cons, List.append_assoc, makeLocal_append ht, ih hts, List.map_cons,
      List.flatten_cons, List.append_assoc]

theorem makeLocal_flatten_map (h : ∀ t ∈ ts, Closed t) :
    makeLocal names ts.flatten = (ts.map (makeLocal names)).flatten := by
  rw [← List.append_nil ts.flatten, makeLocal_flatten_append h, makeLocal_nil, List.append_nil]

/-- Closed texts that are put together are renamed as they are on their own, each of them wherever it
stands between the others. Renamed they are closed texts again. -/
theorem makeLocal_closed (h : ∀ t ∈ ts, Closed t) (names : List Text) :
    makeLocal names ts.flatten = (ts.map (makeLocal names)).flatten ∧
    (∀ before t behind, ts = before ++ t :: behind → makeLocal names ts.flatten =
      makeLocal names before.flatten ++ makeLocal names t ++ makeLocal names behind.flatten) ∧
    ∀ t ∈ ts.map (makeLocal names), Closed t := by
  refine ⟨makeLocal_flatten_map h, ?_, List.forall_mem_map.2 fun t ht => (h t ht).makeLocal names⟩
  rintro before t behind rfl
  obtain ⟨hbefore, hbehind⟩ := List.forall_mem_append.1 h
  have ht := (List.forall_mem_cons.1 hbehind).1
  rw [List.flatten_append, List.flatten_cons, makeLocal_flatten_append hbefore, makeLocal_append ht,
    makeLocal_flatten_map hbefore, List.append_assoc]

/-- Comments are marked in an open string and in a line comment, and a block comment is closed. -/
theorem makeLocal_closed_threeTexts :
    makeLocal ["a"] (["a \"a /*\n", " a // a /*\n", "/* a */ a:\n"] : List Text).flatten =
      "@a \"a /*\n @a // a /*\n/* a */ @a:\n" := by
  rw [(makeLocal_closed (by decide +kernel) ["a"]).1]
  decide +kernel

end CartPatch.Assembly
