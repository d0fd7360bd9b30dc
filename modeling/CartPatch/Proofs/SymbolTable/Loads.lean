import CartPatch.Proofs.SymbolTable.Listing
import CartPatch.Proofs.Text.Names
import Mathlib.Data.List.Induction

/-!
Symbol tables after any number of loads, some of which may have failed. A load puts what its text lists
in the place of what its build had, and a text that is no listing leaves the table as it was
(`Lists.afterLoad_eq`, `afterLoad_of_not_lists`). So each build has what was listed for it last
(`symbols?_ofLoads`), and the answers about it are told from that alone.
-/

namespace CartPatch.SymbolTable

open Text Outcome MonadExcept

/-- Loads a listing in place. Its lines are read into a list of their own, and the table gets the list
when all of them were read. -/
def loadInPlace (build : Build) (t : Text) : EStateM SymbolError SymbolTable ℕ := do
  let symbols ← ofExcept (readListing build t)
  let table ← get
  set (⟨Function.update table.symbols? build (some symbols)⟩ : SymbolTable)
  return symbols.length

/-- The table after a load, which leaves it as it was when it fails. -/
def afterLoad (table : SymbolTable) (load : Build × Text) : SymbolTable :=
  match table.load load.1 load.2 with
  | .ok (_, table') => table'
  | .error _ => table

def ofLoads (loads : List (Build × Text)) : SymbolTable := loads.foldl afterLoad empty

/-- What was listed last for a build, if anything ever was. -/
inductive LastListed (loads : List (Build × Text)) (b : Build) : Option (List Symbol) → Prop where
  | never (h : ∀ t symbols, (b, t) ∈ loads → ¬Lists b t symbols) : LastListed loads b none
  | last {before behind : List (Build × Text)} {t : Text} {symbols : List Symbol}
      (hloads : loads = before ++ (b, t) :: behind) (h : Lists b t symbols)
      (hbehind : ∀ t' symbols', (b, t') ∈ behind → ¬Lists b t' symbols') :
      LastListed loads b (some symbols)

inductive AddressFault (loads : List (Build × Text)) (b : Build) (name : Text) :
    SymbolError → Prop where
  | unknownBuild (h : LastListed loads b none) : AddressFault loads b name (.unknownBuild b)
  | notFound {symbols : List Symbol} (h : LastListed loads b (some symbols))
      (hname : ∀ s ∈ symbols, s.name ≠ name) : AddressFault loads b name (.notFound b name)

/-- The symbols that are shown of others: in the same order, all of one kind, or of both, whose names
do not begin with two underscores. -/
structure Shows (symbols : List Symbol) (kind : Option SymbolKind) (shown : List Symbol) : Prop where
  sublist : shown.Sublist symbols
  mem_iff : ∀ s, s ∈ shown ↔ s ∈ symbols ∧ ¬("__" : Text) <+: s.name ∧ ∀ k ∈ kind, s.kind = k

section Steps

variable {table : SymbolTable} {b b' : Build} {t : Text} {symbols : List Symbol}

theorem load_eq_map (table : SymbolTable) (b : Build) (t : Text) : table.load b t =
    (readListing b t).map fun symbols =>
      (symbols.length, ⟨Function.update table.symbols? b (some symbols)⟩) := by
  have hupdate (symbols : List Symbol) :
      (fun b' => if b' = b then some symbols else table.symbols? b') =
        Function.update table.symbols? b (some symbols) :=
    funext fun b' => (Function.update_apply _ _ _ _).symm
  simp only [load, hupdate]

/-- A load puts what its text lists in the place of what its build had. -/
theorem Lists.load_eq (h : Lists b t symbols) : table.load b t =
    .ok (symbols.length, ⟨Function.update table.symbols? b (some symbols)⟩) := by
  rw [load_eq_map, readListing_eq_ok.2 h]
  rfl

theorem run_loadInPlace (table : SymbolTable) (b : Build) (t : Text) :
    (loadInPlace b t).run table = settle table (table.load b t) := by
  rw [loadInPlace, load_eq_map]
  cases readListing b t with
  | error e => exact run_bind_error (run_ofExcept _ _)
  | ok symbols => exact run_bind_ok (run_ofExcept _ _)

theorem exists_load_eq_error :
    (∃ e, table.load b t = .error e) ↔ ∀ symbols, ¬Lists b t symbols := by
  simp only [← readListing_eq_ok, load]
  cases readListing b t with
  | ok symbols => simp [Except.map]
  | error e => simp [Except.map]

theorem Lists.afterLoad_eq (h : Lists b t symbols) :
    table.afterLoad (b, t) = ⟨Function.update table.symbols? b (some symbols)⟩ := by
  rw [afterLoad, h.load_eq]

theorem afterLoad_of_not_lists (h : ∀ symbols, ¬Lists b t symbols) :
    table.afterLoad (b, t) = table := by
  obtain ⟨e, he⟩ := exists_load_eq_error.2 h
  rw [afterLoad, he]

theorem symbols?_afterLoad_of_ne (h : b' ≠ b) :
    (table.afterLoad (b, t)).symbols? b' = table.symbols? b' := by
  by_cases hlists : ∃ symbols, Lists b t symbols
  · obtain ⟨symbols, hlists⟩ := hlists
    rw [hlists.afterLoad_eq]
    exact Function.update_of_ne h _ _
  · rw [afterLoad_of_not_lists (not_exists.1 hlists)]

end Steps

section Runs

variable {table : SymbolTable} {b : Build} {t : Text} {loads : List (Build × Text)}
  {loaded : Option (List Symbol)} {symbols : List Symbol}

theorem ofLoads_concat (loads : List (Build × Text)) (load : Build × Text) :
    ofLoads (loads ++ [load]) = (ofLoads loads).afterLoad load := List.foldl_concat ..

theorem Lists.load_ofLoads (h : Lists b t symbols) :
    (ofLoads loads).load b t = .ok (symbols.length, ofLoads (loads ++ [(b, t)])) := by
  rw [ofLoads_concat, h.afterLoad_eq, h.load_eq]

/-- The symbols of a build stay as they were when no text that is loaded for it is a listing. -/
theorem symbols?_foldl_afterLoad (h : ∀ t symbols, (b, t) ∈ loads → ¬Lists b t symbols) :
    (loads.foldl afterLoad table).symbols? b = table.symbols? b := by
  induction loads generalizing table with
  | nil => rfl
  | cons load loads ih =>
    obtain ⟨b', t⟩ := load
    rw [List.foldl_cons, ih fun t symbols ht => h t symbols (List.mem_cons_of_mem _ ht)]
    by_cases hb : b = b'
    · subst hb
      rw [afterLoad_of_not_lists fun symbols => h t symbols List.mem_cons_self]
    · exact symbols?_afterLoad_of_ne hb

theorem LastListed.symbols?_eq (h : LastListed loads b loaded) :
    (ofLoads loads).symbols? b = loaded := by
  cases h with
  | never h => exact symbols?_foldl_afterLoad h
  | last hloads h hbehind =>
    rw [ofLoads, hloads, List.foldl_append, List.foldl_cons, symbols?_foldl_afterLoad hbehind,
      h.afterLoad_eq]
    exact Function.update_self _ _ _

/-- A further load counts for its own build only, and only if its text is a listing. -/
theorem LastListed.concat (h : LastListed loads b loaded) {load : Build × Text}
    (hload : ∀ t symbols, load = (b, t) → ¬Lists b t symbols) :
    LastListed (loads ++ [load]) b loaded := by
  have hrest {loads : List (Build × Text)} (h : ∀ t symbols, (b, t) ∈ loads → ¬Lists b t symbols) :
      ∀ t symbols, (b, t) ∈ loads ++ [load] → ¬Lists b t symbols := by
    intro t symbols ht
    rcases List.mem_append.1 ht with ht | ht
    · exact h t symbols ht
    · exact hload t symbols (List.mem_singleton.1 ht).symm
  cases h with
  | never h => exact .never (hrest h)
  | @last before behind t symbols hloads h hbehind =>
    have hsplit : loads ++ [load] = before ++ (b, t) :: (behind ++ [load]) := by
      rw [hloads, List.append_assoc, List.cons_append]
    exact .last hsplit h (hrest hbehind)

theorem exists_lastListed (loads : List (Build × Text)) (b : Build) :
    ∃ loaded, LastListed loads b loaded := by
  induction loads using List.reverseRecOn with
  | nil => exact ⟨none, .never fun _ _ h => absurd h List.not_mem_nil⟩
  | append_singleton loads load ih =>
    by_cases hload : ∃ t symbols, load = (b, t) ∧ Lists b t symbols
    · obtain ⟨t, symbols, rfl, hlists⟩ := hload
      exact ⟨some symbols, .last rfl hlists fun _ _ h => absurd h List.not_mem_nil⟩
    · obtain ⟨loaded, h⟩ := ih
      exact ⟨loaded, h.concat fun t symbols ht hlists => hload ⟨t, symbols, ht, hlists⟩⟩

theorem symbols?_ofLoads : (ofLoads loads).symbols? b = loaded ↔ LastListed loads b loaded := by
  refine ⟨?_, LastListed.symbols?_eq⟩
  rintro rfl
  obtain ⟨loaded, h⟩ := exists_lastListed loads b
  rwa [h.symbols?_eq]

-- A name that stands twice: the listing from before stays.
example : (ofLoads [(.mp1Usa, "800ECB24 F A"), (.mp1Usa, "0 D B\n0 D B")]).symbols? .mp1Usa =
    some [⟨"A", .mp1Usa, 0x800ECB24, .function⟩] := by decide +kernel

theorem LastListed.nodup (h : LastListed loads b (some symbols)) :
    (symbols.map Symbol.name).Nodup := by
  cases h with
  | last _ h => exact h.nodup

end Runs

section Answers

variable {loads : List (Build × Text)} {b : Build} {name : Text} {symbols : List Symbol} {a : UInt32}
  {e : SymbolError} {kind : Option SymbolKind}

theorem address_eq_ok : (ofLoads loads).address b name = .ok a ↔
    ∃ symbols, LastListed loads b (some symbols) ∧
      ∃ s ∈ symbols, s.name = name ∧ s.address = a := by
  simp only [← symbols?_ofLoads, address]
  cases hsymbols : (ofLoads loads).symbols? b with
  | none => simp
  | some symbols =>
    have hfind {s : Symbol} :
        symbols.find? (·.name == name) = some s ↔ s ∈ symbols ∧ s.name = name :=
      Lookup.find?_key_eq_some (symbols?_ofLoads.1 hsymbols).nodup
    have hsome : (∃ s ∈ symbols, s.name = name ∧ s.address = a) ↔
        ∃ s, symbols.find? (·.name == name) = some s ∧ s.address = a := by
      simp only [hfind, and_assoc]
    simp only [Option.some.injEq, exists_eq_left', hsome]
    cases symbols.find? (·.name == name) with
    | none => simp
    | some s => simp

theorem address_eq_error :
    (ofLoads loads).address b name = .error e ↔ AddressFault loads b name e := by
  constructor
  · intro h
    rw [address] at h
    split at h
    · rename_i hnone
      cases h
      exact .unknownBuild (symbols?_ofLoads.1 hnone)
    · rename_i symbols hsymbols
      split at h
      · cases h
      · rename_i hfind
        cases h
        exact .notFound (symbols?_ofLoads.1 hsymbols) (by simpa using hfind)
  · intro h
    cases h with
    | unknownBuild h => rw [address, h.symbols?_eq]
    | @notFound symbols h hname =>
      have hfind : symbols.find? (·.name == name) = none := by simpa using hname
      rw [address, h.symbols?_eq]
      dsimp only
      rw [hfind]

theorem isShown_iff {s : Symbol} : (!s.isInternal && kind.all (s.kind == ·)) = true ↔
    ¬("__" : Text) <+: s.name ∧ ∀ k ∈ kind, s.kind = k := by
  rw [Symbol.isInternal, ← after?_eq_none]
  cases kind with
  | none => simp
  | some k => simp

theorem shows_listing (h : LastListed loads b (some symbols)) :
    Shows symbols kind ((ofLoads loads).listing b kind) := by
  rw [listing, h.symbols?_eq]
  exact ⟨List.filter_sublist, fun s => by rw [List.mem_filter, isShown_iff]; rfl⟩

theorem LastListed.listing_eq_nil (h : LastListed loads b none) :
    (ofLoads loads).listing b kind = [] := by
  rw [listing, h.symbols?_eq]
  rfl

/-- What a table holds and answers after any run of loads, of whatever builds. A build has what was
listed for it last, and its names are unique. A further load of a listing gives the number of its
symbols and changes no other build; a text that is no listing is refused, and the table stays as it
was, also when it is changed in place. The address of a name is that of the symbol with this name, and
there is none only if the build has no listing or its listing no such name. The symbols that are shown
are those without the two underscores, in the order of their listing. -/
theorem ofLoads_keeps_last_listing (loads : List (Build × Text)) (b : Build) :
    (∀ loaded, (ofLoads loads).symbols? b = loaded ↔ LastListed loads b loaded) ∧
      (∀ symbols, LastListed loads b (some symbols) → (symbols.map Symbol.name).Nodup) ∧
      (∀ t, (∀ symbols, Lists b t symbols → (ofLoads loads).load b t =
            .ok (symbols.length, ofLoads (loads ++ [(b, t)]))) ∧
          ((∀ symbols, ¬Lists b t symbols) → (∃ e, (ofLoads loads).load b t = .error e) ∧
            ofLoads (loads ++ [(b, t)]) = ofLoads loads) ∧
          (∀ b', b' ≠ b → (ofLoads (loads ++ [(b, t)])).symbols? b' = (ofLoads loads).symbols? b') ∧
          (loadInPlace b t).run (ofLoads loads) =
            settle (ofLoads loads) ((ofLoads loads).load b t)) ∧
      (∀ name, (∀ a, (ofLoads loads).address b name = .ok a ↔ ∃ symbols,
            LastListed loads b (some symbols) ∧ ∃ s ∈ symbols, s.name = name ∧ s.address = a) ∧
          ∀ e, (ofLoads loads).address b name = .error e ↔ AddressFault loads b name e) ∧
      ∀ kind, (∀ symbols, LastListed loads b (some symbols) →
          Shows symbols kind ((ofLoads loads).listing b kind)) ∧
        (LastListed loads b none → (ofLoads loads).listing b kind = []) := by
  refine ⟨fun loaded => symbols?_ofLoads, fun symbols h => h.nodup,
    fun t => ⟨fun symbols h => h.load_ofLoads, ?_, ?_, run_loadInPlace _ b t⟩,
    fun name => ⟨fun a => address_eq_ok, fun e => address_eq_error⟩,
    fun kind => ⟨fun symbols h => shows_listing h, fun h => h.listing_eq_nil⟩⟩
  · intro h
    rw [ofLoads_concat, afterLoad_of_not_lists h]
    exact ⟨exists_load_eq_error.2 h, rfl⟩
  · intro b' hb
    rw [ofLoads_concat, symbols?_afterLoad_of_ne hb]

end Answers

end CartPatch.SymbolTable
