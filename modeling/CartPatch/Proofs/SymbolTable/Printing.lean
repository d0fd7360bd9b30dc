import CartPatch.Proofs.SymbolTable.Loads

/-!
Listings that are printed and loaded again. A symbol that was read has a name without blanks, so its
printed line says it again (`Symbol.says_text`), and no printed line is taken for a remark or for more
than one line. What is shown of a table is therefore a listing (`lists_printed`).
-/

namespace CartPatch

open Text Numeral

namespace Symbol

variable {build : Build} {line : Text} {s : Symbol}

theorem Says.isSolid_name (h : Says build line s) : IsSolid s.name := by
  obtain ⟨address, kind, hwords, -⟩ := h.words_eq
  exact isSolid_of_mem_words (t := line) (by simp [hwords])

theorem isSolid_letter (k : SymbolKind) : IsSolid k.letter := by cases k <;> decide

theorem says_text (h : IsSolid s.name) (build : Build) :
    Says build s.text { s with build := build } := by
  refine ⟨rfl, capitalHex 8 s.address.toNat, s.kind.letter, ?_, ?_, ?_⟩
  · rw [text, words_append_cons (by decide), words_append_cons (by decide),
      words_of_isSolid (isSolid_capitalHex _ _), words_of_isSolid (isSolid_letter _),
      words_of_isSolid h]
    rfl
  · exact ⟨[], by decide, _, rfl, .inl (denotes_capitalHex 8 _)⟩
  · exact ofText?_eq_some.1 (SymbolKind.ofText?_letter s.kind)

theorem onlySpaces_text (h : IsSolid s.name) : OnlySpaces s.text :=
  ((isSolid_capitalHex _ _).onlySpaces.append_space (isSolid_letter _).onlySpaces).append_space
    h.onlySpaces

theorem isRemark_text (s : Symbol) : isRemark s.text = false := by
  obtain ⟨c, rest, hdigits⟩ := List.exists_cons_of_ne_nil (capitalHex_ne_nil 8 s.address.toNat)
  have hc : c ∈ capitalHex 8 s.address.toNat := by simp [hdigits]
  obtain ⟨d, hd⟩ := (denotes_capitalHex 8 s.address.toNat).mem hc
  rw [text, hdigits]
  exact isRemark_of_isAlphanum (isAlphanum_of_digitValue? hd) _

end Symbol

namespace SymbolTable

section Printing

variable {table : SymbolTable} {build b : Build} {t : Text} {loads : List (Build × Text)}
  {symbols shown : List Symbol} {kind : Option SymbolKind} {s : Symbol}

theorem Lists.isSolid_name (h : Lists build t symbols) : ∀ s ∈ symbols, IsSolid s.name := by
  obtain ⟨hsaid, -⟩ := h
  generalize statements (lines t) = ls at hsaid
  induction hsaid with
  | nil => simp
  | cons hs _ ih => exact List.forall_mem_cons.2 ⟨hs.isSolid_name, ih⟩

/-- The lines of symbols with different names list them, of whatever build. -/
theorem lists_printed (hsolid : ∀ s ∈ shown, IsSolid s.name) (hnodup : (shown.map Symbol.name).Nodup)
    (hlines : lines t = shown.map Symbol.text) (build : Build) :
    Lists build t (shown.map fun s => { s with build := build }) := by
  constructor
  · rw [hlines, statements_eq_self (by simp [Symbol.isRemark_text]), List.forall₂_map_left_iff,
      List.forall₂_map_right_iff, List.forall₂_same]
    exact fun s hs => Symbol.says_text (hsolid s hs) build
  · rwa [List.map_map]

theorem LastListed.isSolid_name (h : LastListed loads b (some symbols)) :
    ∀ s ∈ symbols, IsSolid s.name := by
  cases h with
  | last _ h => exact h.isSolid_name

theorem nodup_listing : (((ofLoads loads).listing b kind).map Symbol.name).Nodup := by
  obtain ⟨_ | symbols, h⟩ := exists_lastListed loads b
  · simp [h.listing_eq_nil]
  · exact h.nodup.sublist ((shows_listing h).sublist.map _)

theorem exists_of_mem_listing (hs : s ∈ (ofLoads loads).listing b kind) :
    ∃ symbols, LastListed loads b (some symbols) ∧ s ∈ symbols ∧
      ¬("__" : Text) <+: s.name ∧ ∀ k ∈ kind, s.kind = k := by
  obtain ⟨_ | symbols, h⟩ := exists_lastListed loads b
  · simp [h.listing_eq_nil] at hs
  · exact ⟨symbols, h, ((shows_listing h).mem_iff s).1 hs⟩

theorem address_of_mem_listing (hs : s ∈ (ofLoads loads).listing b kind) :
    (ofLoads loads).address b s.name = .ok s.address := by
  obtain ⟨symbols, h, hmem, -⟩ := exists_of_mem_listing hs
  exact address_eq_ok.2 ⟨symbols, h, s, hmem, rfl, rfl⟩

theorem listing_eq_self (h : table.symbols? b = some symbols)
    (hshown : ∀ s ∈ symbols, ¬("__" : Text) <+: s.name ∧ ∀ k ∈ kind, s.kind = k) :
    table.listing b kind = symbols := by
  rw [listing, h, Option.getD_some, List.filter_eq_self]
  exact fun s hs => isShown_iff.2 (hshown s hs)

/-- What is shown of a table, printed with one symbol on each line, is a listing for any build. It loads
into an empty table, where the same symbols are shown in the same order, and their names have the same
addresses in both tables. -/
theorem load_printed_listing (loads : List (Build × Text)) (b b' : Build) (kind : Option SymbolKind) :
    lines (unlines (((ofLoads loads).listing b kind).map Symbol.text)) =
        ((ofLoads loads).listing b kind).map Symbol.text ∧
      ∀ t, lines t = ((ofLoads loads).listing b kind).map Symbol.text →
        ∃ table, empty.load b' t = .ok (((ofLoads loads).listing b kind).length, table) ∧
          (∀ kind', kind' = none ∨ kind' = kind → table.listing b' kind' =
            ((ofLoads loads).listing b kind).map fun s => { s with build := b' }) ∧
          ∀ s ∈ (ofLoads loads).listing b kind, (ofLoads loads).address b s.name = .ok s.address ∧
            table.address b' s.name = .ok s.address := by
  have hsolid : ∀ s ∈ (ofLoads loads).listing b kind, IsSolid s.name := by
    intro s hs
    obtain ⟨symbols, h, hmem, -⟩ := exists_of_mem_listing hs
    exact h.isSolid_name s hmem
  refine ⟨?_, fun t ht => ?_⟩
  · refine lines_unlines_of_onlySpaces fun l hl => ?_
    obtain ⟨s, hs, rfl⟩ := List.mem_map.1 hl
    exact Symbol.onlySpaces_text (hsolid s hs)
  · have hlists := lists_printed hsolid nodup_listing ht b'
    have hsplit : [(b', t)] = [] ++ (b', t) :: [] := rfl
    have hlast := LastListed.last hsplit hlists (by simp)
    refine ⟨ofLoads [(b', t)], ?_, fun kind' hkind => ?_, fun s hs => ⟨address_of_mem_listing hs, ?_⟩⟩
    · have hload : (ofLoads []).load b' t = _ := hlists.load_ofLoads
      rwa [List.length_map] at hload
    · refine listing_eq_self hlast.symbols?_eq fun s' hs' => ?_
      obtain ⟨s, hs, rfl⟩ := List.mem_map.1 hs'
      obtain ⟨symbols, -, -, hname, hk⟩ := exists_of_mem_listing hs
      refine ⟨hname, ?_⟩
      rcases hkind with rfl | rfl
      · simp
      · exact hk
    · exact address_eq_ok.2 ⟨_, hlast, _, List.mem_map_of_mem hs, rfl, rfl⟩

/-- A listing with a name that is internal and one with a letter that is not Latin. -/
def sparkLoads : List (Build × Text) :=
  [(.mp1Usa, "; heap\n0x800ecb24 function Größe\n80000000 D __x\n")]

theorem load_printed_listing_unicode :
    ∃ table, empty.load .mp3Usa "800ECB24 F Größe\n" = .ok (1, table) ∧
      table.listing .mp3Usa none = [⟨"Größe", .mp3Usa, 0x800ECB24, .function⟩] ∧
      (ofLoads sparkLoads).address .mp1Usa "Größe" = .ok 0x800ECB24 ∧
      table.address .mp3Usa "Größe" = .ok 0x800ECB24 := by
  have hlisting : (ofLoads sparkLoads).listing .mp1Usa none =
      [⟨"Größe", .mp1Usa, 0x800ECB24, .function⟩] := by decide +kernel
  have hprinted := (load_printed_listing sparkLoads .mp1Usa .mp3Usa none).2
  rw [hlisting] at hprinted
  obtain ⟨table, hload, hshown, haddress⟩ := hprinted "800ECB24 F Größe\n" (by decide +kernel)
  exact ⟨table, hload, hshown none (.inl rfl), haddress _ List.mem_cons_self⟩

end Printing

end SymbolTable

end CartPatch
