import CartPatch.Event.Parameter
import Mathlib.Data.Prod.Lex

/-!
The directives of parameters. Each parameter has its own, whatever others there are, and they follow
each other as the parameters do. The two place directives of a space parameter name the first place of
its space on the chains, which is the least by chain and then by place in the chain
(`findSpace?_eq_some`), or they say -1 both (`parameterDirectives_of_space`).
-/

namespace CartPatch.Event

open Assembly Numeral

def StandsAt (chains : Chains) (space : UInt16) (c s : ℕ) : Prop :=
  ∃ chain, chains[c]? = some chain ∧ chain[s]? = some space

/-- The space stands at place `s` of chain `c`, and neither in a chain before nor at a place before in
this chain. -/
structure FirstStandsAt (chains : Chains) (space : UInt16) (c s : ℕ) : Prop where
  stands : StandsAt chains space c s
  first : ∀ c' s', toLex (c', s') < toLex (c, s) → ¬StandsAt chains space c' s'

namespace Value

/-- The value is the space `index`, or a number that is the number of this space. -/
def Means (value : Value) (index : UInt16) : Prop :=
  value = .space index ∨ ∃ n : ℤ, value = .number n ∧ 0 ≤ n ∧ n ≤ 65535 ∧ (index.toNat : ℤ) = n

theorem space?_eq_some {value : Value} {index : UInt16} :
    value.space? = some index ↔ value.Means index := by
  have hlt := index.toNat_lt
  cases value with
  | number n =>
    simp only [space?, Option.ite_none_right_eq_some, Option.some.injEq, Means, reduceCtorEq, false_or,
      number.injEq, exists_eq_left', ← UInt16.toNat_inj, UInt16.toNat_ofNat']
    omega
  | space index' => simp [space?, Means]
  | boolean _ => simp [space?, Means]
  | numberArray _ => simp [space?, Means]
  | text _ => simp [space?, Means]

end Value

section Places

variable {chain : List UInt16} {chains : Chains} {space : UInt16} {c s : ℕ}

@[simp] theorem standsAt_cons_zero :
    StandsAt (chain :: chains) space 0 s ↔ chain[s]? = some space := by
  simp [StandsAt]

@[simp] theorem standsAt_cons_succ :
    StandsAt (chain :: chains) space (c + 1) s ↔ StandsAt chains space c s := by
  simp [StandsAt]

theorem findSpace?_cons (chain : List UInt16) (chains : Chains) (space : UInt16) :
    findSpace? (chain :: chains) space = ((chain.idxOf? space).map fun s => (0, s)).or
      ((findSpace? chains space).map fun p => (p.1 + 1, p.2)) := by
  rw [findSpace?, List.zipIdx_cons, List.findSome?_cons, List.zipIdx_succ, List.findSome?_map, findSpace?,
    List.map_findSome?]
  cases hchain : chain.idxOf? space with
  | some s => simp only [hchain, Option.map_some, Option.some_or]
  | none =>
    simp only [hchain, Option.map_none, Option.none_or]
    congr 1
    funext p
    simp [Function.comp_def]

/-- Places in the first chain come before all others, so only the first place in it counts. -/
theorem firstStandsAt_cons_zero :
    FirstStandsAt (chain :: chains) space 0 s ↔ chain.idxOf? space = some s := by
  rw [List.idxOf?_eq_some_iff]
  constructor
  · rintro ⟨hstands, hfirst⟩
    obtain ⟨hs, heq⟩ := List.getElem?_eq_some_iff.1 (standsAt_cons_zero.1 hstands)
    refine ⟨hs, heq, fun j hj hstands' => ?_⟩
    refine hfirst 0 j (Prod.Lex.toLex_lt_toLex.2 (.inr ⟨rfl, hj⟩)) (standsAt_cons_zero.2 ?_)
    exact List.getElem?_eq_some_iff.2 ⟨by omega, hstands'⟩
  · rintro ⟨hs, heq, hfirst⟩
    refine ⟨standsAt_cons_zero.2 (List.getElem?_eq_some_iff.2 ⟨hs, heq⟩), fun c' s' hlt hstands => ?_⟩
    obtain hlt | ⟨rfl, hlt⟩ := Prod.Lex.toLex_lt_toLex.1 hlt
    · exact absurd hlt (Nat.not_lt_zero c')
    obtain ⟨hs', heq'⟩ := List.getElem?_eq_some_iff.1 (standsAt_cons_zero.1 hstands)
    exact hfirst s' hlt heq'

theorem firstStandsAt_cons_succ :
    FirstStandsAt (chain :: chains) space (c + 1) s ↔ space ∉ chain ∧ FirstStandsAt chains space c s := by
  constructor
  · rintro ⟨hstands, hfirst⟩
    refine ⟨fun hmem => ?_, standsAt_cons_succ.1 hstands, fun c' s' hlt hstands' => ?_⟩
    · obtain ⟨s', hs'⟩ := List.getElem?_of_mem hmem
      exact hfirst 0 s' (Prod.Lex.toLex_lt_toLex.2 (.inl (Nat.succ_pos c))) (standsAt_cons_zero.2 hs')
    · refine hfirst (c' + 1) s' ?_ (standsAt_cons_succ.2 hstands')
      simpa [Prod.Lex.toLex_lt_toLex] using hlt
  · rintro ⟨hchain, hstands, hfirst⟩
    refine ⟨standsAt_cons_succ.2 hstands, fun c' s' hlt hstands' => ?_⟩
    cases c' with
    | zero => exact hchain (List.mem_of_getElem? (standsAt_cons_zero.1 hstands'))
    | succ c' =>
      refine hfirst c' s' ?_ (standsAt_cons_succ.1 hstands')
      simpa [Prod.Lex.toLex_lt_toLex] using hlt

theorem findSpace?_eq_none : findSpace? chains space = none ↔ ∀ chain ∈ chains, space ∉ chain := by
  induction chains with
  | nil => simp [findSpace?]
  | cons chain chains ih => simp [findSpace?_cons, ih]

theorem findSpace?_eq_some :
    findSpace? chains space = some (c, s) ↔ FirstStandsAt chains space c s := by
  -- Behind the first chain, the number of the chain in the rest is one less.
  induction chains generalizing c with
  | nil => exact iff_of_false (by simp [findSpace?]) fun h => by simpa [StandsAt] using h.stands
  | cons chain chains ih =>
    rw [findSpace?_cons]
    cases c with
    | zero =>
      rw [firstStandsAt_cons_zero]
      cases chain.idxOf? space <;> simp
    | succ c =>
      rw [firstStandsAt_cons_succ, ← List.idxOf?_eq_none_iff, ← ih]
      cases chain.idxOf? space <;> simp

end Places

section Numbers

/-- Where a space first stands on the chains of a board, if there are chains and a space. -/
def place? (chains : Option Chains) (space : Option UInt16) : Option (ℕ × ℕ) := do
  findSpace? (← chains) (← space)

variable {chains : Option Chains} {space : Option UInt16} {i j : ℕ}

theorem place?_eq_some : place? chains space = some (i, j) ↔
    ∃ table index, chains = some table ∧ space = some index ∧ FirstStandsAt table index i j := by
  simp [place?, Option.bind_eq_some_iff, findSpace?_eq_some]

theorem place?_eq_none : place? chains space = none ↔
    chains = none ∨ space = none ∨
      ∃ table index, chains = some table ∧ space = some index ∧ ∀ chain ∈ table, index ∉ chain := by
  cases chains <;> cases space <;> simp [place?, findSpace?_eq_none]

theorem signedDecimal_natCast (n : ℕ) : signedDecimal n = decimal n := by simp [signedDecimal]

theorem exists_placeDirectives (name : Text) (place : Option (ℕ × ℕ)) :
    ∃ c s : ℤ, Parameter.placeDirectives name place =
        [Directive.define (name ++ "_chain_index") (signedDecimal c),
          Directive.define (name ++ "_chain_space_index") (signedDecimal s)] ∧
      (place = none ∧ c = -1 ∧ s = -1 ∨ ∃ i j : ℕ, place = some (i, j) ∧ c = i ∧ s = j) := by
  cases place with
  | none => exact ⟨-1, -1, rfl, .inl ⟨rfl, rfl, rfl⟩⟩
  | some p =>
    obtain ⟨i, j⟩ := p
    refine ⟨i, j, ?_, .inr ⟨i, j, rfl, rfl, rfl⟩⟩
    simp only [Parameter.placeDirectives, signedDecimal_natCast]

theorem parameterDirectives_singleton (p : Parameter) (values : Values) (chains : Option Chains) :
    parameterDirectives [p] values chains = p.directives values chains :=
  List.flatMap_singleton ..

end Numbers

/-- The directives of parameters are those of each parameter alone, in order. A space parameter has a
directive with its space just when its value means one. Two more always follow, and they say where the
space first stands on the chains; they say -1 both just when there are no chains, no space, or the
space is on none of the chains. -/
theorem parameterDirectives_of_space (parameters : List Parameter) (values : Values)
    (chains : Option Chains) :
    parameterDirectives parameters values chains =
        parameters.flatMap (fun p => parameterDirectives [p] values chains) ∧
      ∀ name : Text, ∃ (space : Option UInt16) (c s : ℤ),
        parameterDirectives [⟨name, .space⟩] values chains =
          (space.map fun index => Directive.define name (decimal index.toNat)).toList ++
            [Directive.define (name ++ "_chain_index") (signedDecimal c),
              Directive.define (name ++ "_chain_space_index") (signedDecimal s)] ∧
        (∀ index, space = some index ↔
          ∃ value, values.lookup name = some value ∧ value.Means index) ∧
        (c = -1 ∧ s = -1 ∨ ∃ table index, ∃ i j : ℕ, chains = some table ∧ space = some index ∧
          FirstStandsAt table index i j ∧ c = i ∧ s = j) ∧
        (c = -1 ↔ chains = none ∨ space = none ∨ ∃ table index, chains = some table ∧
          space = some index ∧ ∀ chain ∈ table, index ∉ chain) ∧
        (s = -1 ↔ c = -1) := by
  constructor
  · simp only [parameterDirectives_singleton]
    rfl
  · intro name
    have hspace (index : UInt16) : (values.lookup name).bind Value.space? = some index ↔
        ∃ value, values.lookup name = some value ∧ value.Means index := by
      simp only [Option.bind_eq_some_iff, Value.space?_eq_some]
    obtain ⟨c, s, hdirectives, hnumbers⟩ :=
      exists_placeDirectives name (place? chains ((values.lookup name).bind Value.space?))
    refine ⟨(values.lookup name).bind Value.space?, c, s, ?_, hspace, ?_⟩
    · rw [parameterDirectives_singleton, ← hdirectives]
      rfl
    · rw [← place?_eq_none]
      rcases hnumbers with ⟨hnone, rfl, rfl⟩ | ⟨i, j, hplace, rfl, rfl⟩
      · exact ⟨.inl ⟨rfl, rfl⟩, iff_of_true rfl hnone, Iff.rfl⟩
      · obtain ⟨table, index, htable, hindex, hfirst⟩ := place?_eq_some.1 hplace
        have hi : (i : ℤ) ≠ -1 := by omega
        have hj : (j : ℤ) ≠ -1 := by omega
        exact ⟨.inr ⟨table, index, i, j, htable, hindex, hfirst, rfl, rfl⟩,
          iff_of_false hi (by simp [hplace]), iff_of_false hj hi⟩

/-- A number that is a space, on two chains and twice on one of them, behind a chain without spaces. -/
example : parameterDirectives [⟨"X", .space⟩] [("X", .number 21)] (some [[], [20, 21, 21], [21]]) =
    ([".definelabel X,21", ".definelabel X_chain_index,1",
      ".definelabel X_chain_space_index,1"] : List Text) := by
  decide +kernel

end CartPatch.Event
