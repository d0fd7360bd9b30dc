import CartPatch.Proofs.Lookup
import CartPatch.Proofs.Text.Digits
import CartPatch.Proofs.Text.Remarks
import CartPatch.SymbolTable

/-!
What a symbol listing says. A line says a symbol in three words: its address, its kind and its name
(`Symbol.Says`). A text lists symbols when its lines say them in order and no two of them have one name
(`SymbolTable.Lists`). The reader takes just these texts, and it reads from them what they list
(`readListing_eq_ok`).
-/

namespace CartPatch

open Text Numeral Outcome

namespace Symbol

def marks : List Text := ["", "0x", "0X"]

/-- A word that says an address: hexadecimal digits, with at most one plus sign in front of them,
perhaps behind a mark. -/
def SaysAddress (w : Text) (n : ℕ) : Prop :=
  ∃ mark ∈ marks, ∃ digits, w = mark ++ digits ∧ Unsigned 16 digits n

/-- A word that says a kind: a letter or a name, in capital or small letters. -/
def SaysKind (w : Text) (k : SymbolKind) : Prop :=
  ∃ name, (name, k) ∈ SymbolKind.names ∧ sameName name w

structure Says (build : Build) (line : Text) (s : Symbol) : Prop where
  build_eq : s.build = build
  words_eq : ∃ address kind, words line = [address, kind, s.name] ∧
    SaysAddress address s.address.toNat ∧ SaysKind kind s.kind

section Lines

variable {build : Build} {line w : Text} {s s' : Symbol} {k : SymbolKind} {n : ℕ}

theorem ofText?_eq_some : SymbolKind.ofText? w = some k ↔ SaysKind w k := by
  have hnames : (SymbolKind.names.map fun name => lower name.1).Nodup := by decide
  rw [SymbolKind.ofText?, Option.map_eq_some_iff]
  constructor
  · rintro ⟨⟨name, _⟩, hfind, rfl⟩
    exact ⟨name, (Lookup.find?_sameName_eq_some hnames).1 hfind⟩
  · rintro ⟨name, h⟩
    exact ⟨(name, k), (Lookup.find?_sameName_eq_some hnames).2 h, rfl⟩

theorem saysAddress_iff : SaysAddress w n ↔ Unsigned 16 (splitBase w).2 n := by
  constructor
  · rintro ⟨mark, hmark, digits, rfl, h⟩
    simp only [marks, List.mem_cons, List.not_mem_nil, or_false] at hmark
    rcases hmark with rfl | rfl | rfl
    · have hsigned : Signed 16 digits n := .inl ⟨n, h, rfl⟩
      have hnone : ("" : Text) ++ digits = digits := rfl
      rwa [hnone, hsigned.splitBase_eq (Nat.le_refl 16)]
    · exact h
    · exact h
  · intro h
    unfold splitBase at h
    split at h
    · exact ⟨"0x", by decide, _, rfl, h⟩
    · exact ⟨"0X", by decide, _, rfl, h⟩
    · exact ⟨[], by decide, _, rfl, h⟩

theorem ofLine?_of_words {address kind name : Text} (h : words line = [address, kind, name]) :
    ofLine? build line = (readWord 16 (splitBase address).2).toOption.bind fun a =>
      (SymbolKind.ofText? kind).bind fun k => some ⟨name, build, a, k⟩ := by
  rw [ofLine?, h]
  dsimp only
  split
  · rfl
  · rfl
  · rename_i hsmall hcapital
    rw [splitBase.eq_3 address hsmall hcapital]
    rfl

theorem ofLine?_eq_some : ofLine? build line = some s ↔ Says build line s := by
  constructor
  · intro h
    obtain ⟨address, kind, name, hwords⟩ :
        ∃ address kind name, words line = [address, kind, name] := by
      rw [ofLine?] at h
      split at h
      · exact ⟨_, _, _, ‹_›⟩
      · cases h
    simp only [ofLine?_of_words hwords, Option.bind_eq_some_iff, Option.some.injEq,
      toOption_eq_some, readWord_eq_ok, ofText?_eq_some, ← saysAddress_iff] at h
    obtain ⟨a, haddress, k, hkind, rfl⟩ := h
    exact ⟨rfl, address, kind, hwords, haddress, hkind⟩
  · rintro ⟨rfl, address, kind, hwords, haddress, hkind⟩
    simp only [ofLine?_of_words hwords, Option.bind_eq_some_iff, Option.some.injEq,
      toOption_eq_some, readWord_eq_ok, ofText?_eq_some, ← saysAddress_iff]
    exact ⟨s.address, haddress, s.kind, hkind, rfl⟩

end Lines

end Symbol

namespace SymbolTable

/-- A text that lists symbols of a build: its lines, but for blank ones and remarks, say them in
order, and their names differ. -/
structure Lists (build : Build) (t : Text) (symbols : List Symbol) : Prop where
  said : List.Forall₂ (Symbol.Says build) (statements (lines t)) symbols
  nodup : (symbols.map Symbol.name).Nodup

section Reading

variable {build : Build} {line t : Text} {ls : List Text} {n : ℕ}
  {read read' symbols : List Symbol}

def readLine (build : Build) (read : List Symbol) (line : Text) (n : ℕ) :
    Except SymbolError (List Symbol) :=
  match Symbol.ofLine? build line with
  | none => .error (.malformed n (trim line))
  | some s =>
    if read.any (·.name == s.name) then .error (.alreadyDefined s.name) else .ok (read ++ [s])

theorem readLines_cons (build : Build) (read : List Symbol) (line : Text) (ls : List Text) (n : ℕ) :
    readLines build read ((line :: ls).zipIdx n) =
      if isRemark line then readLines build read (ls.zipIdx (n + 1))
      else readLine build read line n >>= fun read' => readLines build read' (ls.zipIdx (n + 1)) := by
  rw [List.zipIdx_cons, readLines, readLine]
  split
  · rfl
  · cases Symbol.ofLine? build line with
    | none => rfl
    | some s =>
      dsimp only
      split <;> rfl

theorem readLine_eq_ok (hread : (read.map Symbol.name).Nodup) :
    readLine build read line n = .ok read' ↔
      ∃ s, Symbol.Says build line s ∧ (read'.map Symbol.name).Nodup ∧ read' = read ++ [s] := by
  simp only [← Symbol.ofLine?_eq_some, readLine]
  cases Symbol.ofLine? build line with
  | none => simp
  | some s =>
    have hnew : ((read ++ [s]).map Symbol.name).Nodup ↔ read.any (·.name == s.name) = false := by
      rw [List.map_append, List.map_singleton, ← List.concat_eq_append, List.nodup_concat]
      simp [hread]
    cases hany : read.any (·.name == s.name) with
    | false =>
      simp only [Option.some.injEq, hany, Bool.false_eq_true, if_false]
      constructor
      · rintro ⟨⟩
        exact ⟨s, rfl, hnew.2 hany, rfl⟩
      · rintro ⟨_, rfl, -, rfl⟩
        rfl
    | true =>
      simp only [Option.some.injEq, hany, if_true]
      refine iff_of_false (by simp) ?_
      rintro ⟨_, rfl, hnodup, rfl⟩
      rw [hnew, hany] at hnodup
      cases hnodup

theorem readLines_eq_ok (hread : (read.map Symbol.name).Nodup) :
    readLines build read (ls.zipIdx n) = .ok symbols ↔
      ∃ new, List.Forall₂ (Symbol.Says build) (statements ls) new ∧
        (symbols.map Symbol.name).Nodup ∧ symbols = read ++ new := by
  induction ls generalizing read n with
  | nil =>
    constructor
    · intro h
      cases h
      exact ⟨[], .nil, hread, (List.append_nil _).symm⟩
    · rintro ⟨_, ⟨⟩, -, rfl⟩
      rw [List.append_nil, List.zipIdx_nil, readLines]
  | cons line ls ih =>
    rw [readLines_cons]
    split
    · rename_i hremark
      rw [ih hread, statements_cons_of_remark hremark]
    · rename_i hline
      rw [statements_cons (Bool.eq_false_iff.2 hline), bind_eq_ok]
      simp only [readLine_eq_ok hread]
      constructor
      · rintro ⟨_, ⟨s, hsaid, hnodup, rfl⟩, h⟩
        obtain ⟨new, hnew, hall, rfl⟩ := (ih hnodup).1 h
        exact ⟨s :: new, .cons hsaid hnew, hall, (List.append_cons read s new).symm⟩
      · rintro ⟨_, hsaid, hall, hsymbols⟩
        obtain ⟨s, new, hs, hnew, rfl⟩ := List.forall₂_cons_left_iff.1 hsaid
        rw [List.append_cons] at hsymbols
        have hnodup : ((read ++ [s]).map Symbol.name).Nodup := by
          rw [hsymbols, List.map_append] at hall
          exact hall.of_append_left
        exact ⟨_, ⟨s, hs, hnodup, rfl⟩, (ih hnodup).2 ⟨new, hnew, hall, hsymbols⟩⟩

theorem readListing_eq_ok : readListing build t = .ok symbols ↔ Lists build t symbols := by
  have hempty : (([] : List Symbol).map Symbol.name).Nodup := List.nodup_nil
  rw [readListing, numberedLines, readLines_eq_ok hempty]
  constructor
  · rintro ⟨new, hsaid, hnodup, rfl⟩
    exact ⟨hsaid, hnodup⟩
  · rintro ⟨hsaid, hnodup⟩
    exact ⟨symbols, hsaid, hnodup, rfl⟩

example : readListing .mp2Usa "; heap\n 0X+1f\tfunction A\r\n\nFF d __b" =
    .ok [⟨"A", .mp2Usa, 0x1F, .function⟩, ⟨"__b", .mp2Usa, 0xFF, .data⟩] := by decide +kernel

end Reading

end SymbolTable

end CartPatch
