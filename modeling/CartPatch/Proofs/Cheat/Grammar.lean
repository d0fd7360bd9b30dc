import CartPatch.Cheat.Listing
import CartPatch.Proofs.Text.ByteOrder
import CartPatch.Proofs.Text.Places
import CartPatch.Proofs.Text.Words
import Mathlib.Algebra.Group.Nat.Even

/-!
The grammar of cheat lists. Words stand in pairs, and each pair either spells a code (`Spells`) or has
a fault (`Fault`). The reader of words only limits their size and may find a plus sign, but the opcode
in the top byte leaves room for neither a shorter instruction nor a sign in it (`exists_places`).
So a text is read just when all of its pairs spell codes, and the error is that of the first pair that
does not (`parse_eq_ok`, `parse_eq_error`).
-/

namespace CartPatch.Cheat

open Numeral Outcome Text

def Code.ofFields (o : Opcode) (address value : ℕ) : Code where
  opcode := o
  address := UInt32.ofNat address ||| 0x80000000
  value := if o.isByteSized then UInt16.ofNat value &&& 0xFF else UInt16.ofNat value

namespace Listing

/-- At most eight bytes that are a hexadecimal number, with at most one plus sign before the digits. -/
structure IsToken (t : Text) (n : ℕ) : Prop where
  size : (String.ofList t).utf8ByteSize ≤ 8
  number : Unsigned 16 t n

/-- Two words and the code that they spell: two digits for the opcode and six for the address, and a
number for the value. A half word has an even address. -/
inductive Spells : Text → Text → Code → Prop where
  | pair {high low value : Text} {o : Opcode} {address n : ℕ} (hhigh : high.length = 2)
      (hlow : low.length = 6) (hopcode : Denotes 16 high o.byte.toNat)
      (haddress : Denotes 16 low address) (hvalue : IsToken value n) (hn : n ≤ 0xFFFF)
      (heven : o.isByteSized = false → address % 2 = 0) :
      Spells (high ++ low) value (.ofFields o address n)

/-- What is wrong with two words that spell no code. Of several faults the words themselves count
first, the instruction before the value, then the opcode, and the address last. -/
inductive Fault (instruction value : Text) : FormatError → Prop where
  | instruction (h : ∀ m, ¬IsToken instruction m) : Fault instruction value (.invalidToken instruction)
  | value {m : ℕ} (hm : IsToken instruction m) (h : ∀ n ≤ 0xFFFF, ¬IsToken value n) :
      Fault instruction value (.invalidToken value)
  | opcode {m n : ℕ} (hm : IsToken instruction m) (hvalue : IsToken value n) (hn : n ≤ 0xFFFF)
      (h : ∀ o : Opcode, o.byte.toNat ≠ m / 0x1000000) :
      Fault instruction value (.unknownOpcode (UInt8.ofNat (m / 0x1000000)) instruction)
  | alignment {m n : ℕ} {o : Opcode} (hm : IsToken instruction m) (hvalue : IsToken value n)
      (hn : n ≤ 0xFFFF) (ho : o.byte.toNat = m / 0x1000000) (hsized : o.isByteSized = false)
      (h : m % 2 = 1) :
      Fault instruction value
        (.unalignedAddress (UInt32.ofNat (m % 0x1000000) ||| 0x80000000) instruction)

/-- The words of a list, two by two; a last word without a second one is left out. -/
def pairs : List Text → List (Text × Text)
  | instruction :: value :: rest => (instruction, value) :: pairs rest
  | _ => []

/-- The fault of the first pair that spells no code. -/
def FirstFault (ps : List (Text × Text)) (e : FormatError) : Prop :=
  ∃ before instruction value behind, ps = before ++ (instruction, value) :: behind ∧
    (∀ p ∈ before, ∃ c, Spells p.1 p.2 c) ∧ Fault instruction value e

section Tokens

variable {t : Text} {n : ℕ}

theorem utf8ByteSize_of_unsigned (h : Unsigned 16 t n) : (String.ofList t).utf8ByteSize = t.length := by
  refine utf8ByteSize_eq_length fun c hc => ?_
  rw [Char.utf8Size_eq_one_iff, UInt32.le_iff_toNat_le]
  rcases h.mem hc with rfl | ⟨d, hd⟩
  · decide
  · exact Nat.le_of_lt_succ (toNat_lt_of_isAlphanum (isAlphanum_of_digitValue? hd))

theorem isToken_iff : IsToken t n ↔ t.length ≤ 8 ∧ Unsigned 16 t n := by
  constructor
  · rintro ⟨hsize, h⟩
    rw [utf8ByteSize_of_unsigned h] at hsize
    exact ⟨hsize, h⟩
  · rintro ⟨hlength, h⟩
    rw [← utf8ByteSize_of_unsigned h] at hlength
    exact ⟨hlength, h⟩

theorem IsToken.le_maxWord (h : IsToken t n) : n ≤ maxWord := by
  obtain ⟨hlength, h⟩ := isToken_iff.1 h
  have hlt := h.lt_pow (by decide)
  have hpow : 16 ^ t.length ≤ 16 ^ 8 := Nat.pow_le_pow_right (by decide) hlength
  rw [maxWord]
  omega

theorem token_of_isToken (h : IsToken t n) : token t = .ok (UInt32.ofNat n) := by
  have hread : readNat 16 maxWord t = .ok n := readNat_eq_ok.2 ⟨h.number, h.le_maxWord⟩
  rw [token, if_neg (Nat.not_lt.2 (isToken_iff.1 h).1), readWord, hread]
  rfl

theorem token_of_not (h : ∀ n, ¬IsToken t n) : token t = .error (.invalidToken t) := by
  rw [token]
  split
  · rfl
  · rename_i hlength
    cases hread : readNat 16 maxWord t with
    | ok n => exact absurd (isToken_iff.2 ⟨Nat.not_lt.1 hlength, (readNat_eq_ok.1 hread).1⟩) (h n)
    | error fault =>
      rw [readWord, hread]
      rfl

theorem toNat_ofNat_token (h : IsToken t n) : (UInt32.ofNat n).toNat = n := by
  have hn := h.le_maxWord
  rw [maxWord] at hn
  rw [UInt32.toNat_ofNat']
  omega

theorem halfToken_of_isToken (h : IsToken t n) (hn : n ≤ 0xFFFF) :
    halfToken t = .ok (UInt16.ofNat n) := by
  rw [halfToken, bind_of_ok (token_of_isToken h), toNat_ofNat_token h, if_pos (by omega)]

theorem halfToken_of_not (h : ∀ n ≤ 0xFFFF, ¬IsToken t n) :
    halfToken t = .error (.invalidToken t) := by
  by_cases hword : ∃ n, IsToken t n
  · obtain ⟨n, hn⟩ := hword
    have hlarge : ¬n < 0x10000 := fun hlt => h n (by omega) hn
    rw [halfToken, bind_of_ok (token_of_isToken hn), toNat_ofNat_token hn, if_neg hlarge]
  · rw [halfToken, bind_of_error (token_of_not (not_exists.1 hword))]

end Tokens

theorem ofByte?_eq_some {b : UInt8} {o : Opcode} : Opcode.ofByte? b = some o ↔ o.byte = b := by
  constructor
  · intro h
    simpa using List.find?_some h
  · rintro rfl
    exact o.ofByte?_byte

section Codes

variable {instruction value : Text} {m n address : ℕ} {o : Opcode} {c : Code} {e : FormatError}

theorem toNat_segmentAddress (h : address < 0x1000000) :
    (UInt32.ofNat address ||| 0x80000000).toNat = 0x80000000 + address := by
  have hword : (UInt32.ofNat address).toNat = address := by
    rw [UInt32.toNat_ofNat']
    omega
  have hor : 2 ^ 31 * 1 + address = 2 ^ 31 * 1 ||| address :=
    Nat.two_pow_add_eq_or_of_lt (by omega) 1
  rw [UInt32.toNat_or, hword, Nat.or_comm]
  exact hor.symm

theorem segmentAddress_eq (m : ℕ) :
    segmentAddress (UInt32.ofNat m) = UInt32.ofNat (m % 0x1000000) ||| 0x80000000 := by
  apply UInt32.toNat_inj.1
  rw [toNat_segmentAddress (Nat.mod_lt m (by decide)), segmentAddress, UInt32.toNat_ofNat',
    UInt32.toNat_ofNat']
  omega

theorem value_and_eq (hn : n ≤ 0xFFFF) :
    UInt16.ofNat n &&& 0xFF = UInt16.ofNat ((UInt16.ofNat n).toNat % 0x100) := by
  apply UInt16.toNat_inj.1
  have hand : n &&& 2 ^ 8 - 1 = n % 2 ^ 8 := Nat.and_two_pow_sub_one_eq_mod n 8
  have hvalue : (UInt16.ofNat n).toNat = n := by
    rw [UInt16.toNat_ofNat']
    omega
  rw [UInt16.toNat_and, hvalue, UInt16.toNat_ofNat']
  exact hand.trans (by omega)

theorem code_of_tokens (hm : IsToken instruction m) (hvalue : IsToken value n) (hn : n ≤ 0xFFFF) :
    code instruction value =
      match Opcode.ofByte? (UInt8.ofNat (m / 0x1000000)) with
      | none => .error (.unknownOpcode (UInt8.ofNat (m / 0x1000000)) instruction)
      | some o =>
        if o.isByteSized = false ∧ m % 2 = 1 then
          .error (.unalignedAddress (UInt32.ofNat (m % 0x1000000) ||| 0x80000000) instruction)
        else .ok (.ofFields o (m % 0x1000000) n) := by
  have heven : (UInt32.ofNat (m % 0x1000000) ||| 0x80000000).toNat % 2 = m % 2 := by
    rw [toNat_segmentAddress (Nat.mod_lt m (by decide))]
    omega
  rw [code, bind_of_ok (token_of_isToken hm), bind_of_ok (halfToken_of_isToken hvalue hn)]
  simp only [toNat_ofNat_token hm, segmentAddress_eq, heven, ← value_and_eq hn]
  cases Opcode.ofByte? (UInt8.ofNat (m / 0x1000000)) with
  | none => rfl
  | some o =>
    cases hsized : o.isByteSized with
    | true => simp [Code.ofFields, hsized, pure, Except.pure]
    | false =>
      rcases Nat.mod_two_eq_zero_or_one m with h | h <;>
        simp [Code.ofFields, hsized, h, pure, Except.pure]

theorem le_byte (o : Opcode) : 0x80 ≤ o.byte.toNat := by
  cases o <;> decide

/-- An instruction with an opcode has all of its eight digits, and no sign. -/
theorem exists_places (hm : IsToken instruction m) (hlarge : 0x10000000 ≤ m) :
    ∃ high low, instruction = high ++ low ∧ high.length = 2 ∧ low.length = 6 ∧
      Denotes 16 high (m / 0x1000000) ∧ Denotes 16 low (m % 0x1000000) := by
  obtain ⟨hlength, hnumber⟩ := isToken_iff.1 hm
  have hlt := hnumber.lt_pow (by decide)
  have height : instruction.length = 8 := by
    by_contra hne
    have hpow : 16 ^ instruction.length ≤ 16 ^ 7 := Nat.pow_le_pow_right (by decide) (by omega)
    omega
  have hdigits := hnumber.of_length (by decide) (by rw [height]; exact hlarge)
  have hhigh : (instruction.take 2).length = 2 := by rw [List.length_take]; omega
  have hlow : (instruction.drop 2).length = 6 := by rw [List.length_drop]; omega
  rw [← List.take_append_drop 2 instruction,
    denotes_append (List.ne_nil_of_length_pos (by omega)) (List.ne_nil_of_length_pos (by omega))]
    at hdigits
  obtain ⟨high, low, hd, hd', rfl⟩ := hdigits
  have hsmall := hd'.lt_pow (by decide)
  rw [hlow] at hsmall ⊢
  refine ⟨_, _, (List.take_append_drop 2 instruction).symm, hhigh, hlow, ?_, ?_⟩
  · rwa [show (high * 16 ^ 6 + low) / 0x1000000 = high by omega]
  · rwa [show (high * 16 ^ 6 + low) % 0x1000000 = low by omega]

theorem isToken_append {high low : Text} {opcode : ℕ} (hhigh : high.length = 2)
    (hlow : low.length = 6) (hopcode : Denotes 16 high opcode) (haddress : Denotes 16 low address) :
    IsToken (high ++ low) (opcode * 0x1000000 + address) ∧ address < 0x1000000 := by
  have hsmall := haddress.lt_pow (by decide)
  rw [hlow] at hsmall
  have hnumber : Denotes 16 (high ++ low) (opcode * 16 ^ low.length + address) :=
    (denotes_append hopcode.1 haddress.1).2 ⟨_, _, hopcode, haddress, rfl⟩
  rw [hlow] at hnumber
  exact ⟨isToken_iff.2 ⟨by rw [List.length_append]; omega, .inl hnumber⟩, hsmall⟩

theorem code_of_spells (h : Spells instruction value c) : code instruction value = .ok c := by
  cases h with
  | @pair high low value o address n hhigh hlow hopcode haddress hvalue hn heven =>
    obtain ⟨hm, hsmall⟩ := isToken_append hhigh hlow hopcode haddress
    have hdiv : (o.byte.toNat * 0x1000000 + address) / 0x1000000 = o.byte.toNat := by omega
    have hmod : (o.byte.toNat * 0x1000000 + address) % 0x1000000 = address := by omega
    rw [code_of_tokens hm hvalue hn, hdiv, hmod, UInt8.ofNat_toNat, Opcode.ofByte?_byte]
    refine if_neg ?_
    rintro ⟨hsized, hodd⟩
    have := heven hsized
    omega

theorem code_of_fault (h : Fault instruction value e) : code instruction value = .error e := by
  cases h with
  | instruction h => rw [code, bind_of_error (token_of_not h)]
  | value hm h => rw [code, bind_of_ok (token_of_isToken hm), bind_of_error (halfToken_of_not h)]
  | @opcode m n hm hvalue hn h =>
    have hword := hm.le_maxWord
    rw [maxWord] at hword
    have hnone : Opcode.ofByte? (UInt8.ofNat (m / 0x1000000)) = none := by
      rw [Option.eq_none_iff_forall_ne_some]
      intro o ho
      refine h o ?_
      rw [ofByte?_eq_some.1 ho, UInt8.toNat_ofNat']
      omega
    rw [code_of_tokens hm hvalue hn, hnone]
  | @alignment m n o hm hvalue hn ho hsized h =>
    rw [code_of_tokens hm hvalue hn, ← ho, UInt8.ofNat_toNat, Opcode.ofByte?_byte]
    exact if_pos ⟨hsized, h⟩

theorem spells_or_fault (instruction value : Text) :
    (∃ c, Spells instruction value c) ∨ ∃ e, Fault instruction value e := by
  by_cases hinstruction : ∃ m, IsToken instruction m
  · obtain ⟨m, hm⟩ := hinstruction
    by_cases hhalf : ∃ n ≤ 0xFFFF, IsToken value n
    · obtain ⟨n, hn, hvalue⟩ := hhalf
      by_cases hopcode : ∃ o : Opcode, o.byte.toNat = m / 0x1000000
      · obtain ⟨o, ho⟩ := hopcode
        by_cases hodd : o.isByteSized = false ∧ m % 2 = 1
        · exact .inr ⟨_, .alignment hm hvalue hn ho hodd.1 hodd.2⟩
        · have hbyte := le_byte o
          obtain ⟨high, low, rfl, hhigh, hlow, hd, hd'⟩ := exists_places hm (by omega)
          rw [← ho] at hd
          refine .inl ⟨_, .pair hhigh hlow hd hd' hvalue hn fun hsized => ?_⟩
          have := mt (And.intro hsized) hodd
          omega
      · exact .inr ⟨_, .opcode hm hvalue hn (not_exists.1 hopcode)⟩
    · exact .inr ⟨_, .value hm fun n hn hvalue => hhalf ⟨n, hn, hvalue⟩⟩
  · exact .inr ⟨_, .instruction (not_exists.1 hinstruction)⟩

theorem code_eq_ok : code instruction value = .ok c ↔ Spells instruction value c := by
  refine ⟨fun h => ?_, code_of_spells⟩
  rcases spells_or_fault instruction value with ⟨c', hc⟩ | ⟨e, he⟩
  · rw [code_of_spells hc] at h
    cases h
    exact hc
  · rw [code_of_fault he] at h
    cases h

theorem code_eq_error : code instruction value = .error e ↔ Fault instruction value e := by
  refine ⟨fun h => ?_, code_of_fault⟩
  rcases spells_or_fault instruction value with ⟨c, hc⟩ | ⟨e', he⟩
  · rw [code_of_spells hc] at h
    cases h
  · rw [code_of_fault he] at h
    cases h
    exact he

end Codes

section Lists

variable {tokens tokens' : List Text} {cs : List Code} {e : FormatError} {t t' gap : Text}

theorem pairs_append (h : Even tokens.length) (tokens' : List Text) :
    pairs (tokens ++ tokens') = pairs tokens ++ pairs tokens' := by
  induction tokens using pairs.induct with
  | case1 instruction value rest ih =>
    have hrest : Even rest.length := by
      rw [List.length_cons, List.length_cons, Nat.even_iff] at h
      rw [Nat.even_iff]
      omega
    simp [pairs, ih hrest]
  | case2 tokens hne =>
    rcases tokens with _ | ⟨instruction, _ | ⟨value, rest⟩⟩
    · rfl
    · simp at h
    · exact absurd rfl (hne instruction value rest)

theorem codes_eq_ok : codes tokens = .ok cs ↔
    List.Forall₂ (fun p c => Spells p.1 p.2 c) (pairs tokens) cs := by
  induction tokens using codes.induct generalizing cs with
  | case1 instruction value rest ih =>
    simp only [codes, bind_eq_ok, pairs, List.forall₂_cons_left_iff, code_eq_ok, ih]
    constructor
    · rintro ⟨c, hc, cs, hcs, ⟨⟩⟩
      exact ⟨c, cs, hc, hcs, rfl⟩
    · rintro ⟨c, cs, hc, hcs, rfl⟩
      exact ⟨c, hc, cs, hcs, rfl⟩
  | case2 tokens hne =>
    rw [codes.eq_2 tokens hne, pairs.eq_2 tokens hne, List.forall₂_nil_left_iff]
    exact ⟨fun h => by cases h; rfl, fun h => by rw [h]⟩

theorem firstFault_cons {instruction value : Text} {ps : List (Text × Text)} :
    FirstFault ((instruction, value) :: ps) e ↔
      Fault instruction value e ∨ (∃ c, Spells instruction value c) ∧ FirstFault ps e := by
  constructor
  · rintro ⟨before, i, v, behind, hps, hbefore, hfault⟩
    cases before with
    | nil =>
      obtain ⟨⟨rfl, rfl⟩, -⟩ := by simpa using hps
      exact .inl hfault
    | cons p before =>
      rw [List.cons_append, List.cons.injEq] at hps
      obtain ⟨rfl, rfl⟩ := hps
      obtain ⟨hfirst, hbefore⟩ := List.forall_mem_cons.1 hbefore
      exact .inr ⟨hfirst, before, i, v, behind, rfl, hbefore, hfault⟩
  · rintro (hfault | ⟨hfirst, before, i, v, behind, rfl, hbefore, hfault⟩)
    · exact ⟨[], instruction, value, ps, rfl, by simp, hfault⟩
    · exact ⟨(instruction, value) :: before, i, v, behind, rfl,
        List.forall_mem_cons.2 ⟨hfirst, hbefore⟩, hfault⟩

theorem codes_eq_error : codes tokens = .error e ↔ FirstFault (pairs tokens) e := by
  induction tokens using codes.induct with
  | case1 instruction value rest ih =>
    rw [pairs, firstFault_cons, ← ih, ← code_eq_error, codes]
    simp only [← code_eq_ok]
    cases code instruction value with
    | error e' => simp [bind, Except.bind]
    | ok c => cases codes rest <;> simp [bind, Except.bind, pure, Except.pure]
  | case2 tokens hne =>
    rw [codes.eq_2 tokens hne, pairs.eq_2 tokens hne]
    refine iff_of_false (by simp) ?_
    rintro ⟨before, i, v, behind, hps, -⟩
    simp at hps

theorem parse_of_even (hne : words t ≠ []) (heven : Even (words t).length) :
    parse t = codes (words t) := by
  rw [Nat.even_iff] at heven
  simp only [parse, List.isEmpty_iff, hne, heven, if_false, ne_eq, not_true]

theorem parse_of_nil (h : words t = []) : parse t = .error .empty := by
  simp only [parse, h, List.isEmpty_nil, if_true]

theorem parse_of_odd (h : ¬Even (words t).length) :
    parse t = .error (.oddTokenCount (words t).length) := by
  have hne : words t ≠ [] := fun hnil => h (by simp [hnil])
  rw [Nat.even_iff] at h
  simp only [parse, List.isEmpty_iff, hne, if_false, ne_eq, h, not_false_eq_true, if_true]

theorem parse_eq_ok : parse t = .ok cs ↔ words t ≠ [] ∧ Even (words t).length ∧
    List.Forall₂ (fun p c => Spells p.1 p.2 c) (pairs (words t)) cs := by
  by_cases hnil : words t = []
  · simp [parse_of_nil hnil, hnil]
  · by_cases heven : Even (words t).length
    · rw [parse_of_even hnil heven, codes_eq_ok]
      simp [hnil, heven]
    · simp [parse_of_odd heven, heven]

theorem parse_eq_error : parse t = .error e ↔
    words t = [] ∧ e = .empty ∨
      ¬Even (words t).length ∧ e = .oddTokenCount (words t).length ∨
      Even (words t).length ∧ FirstFault (pairs (words t)) e := by
  by_cases hnil : words t = []
  · have hnone : ¬FirstFault (pairs []) e := by
      rintro ⟨before, i, v, behind, hps, -⟩
      simp [pairs] at hps
    simp [parse_of_nil hnil, hnil, hnone, eq_comm]
  · by_cases heven : Even (words t).length
    · rw [parse_of_even hnil heven, codes_eq_error]
      simp [hnil, heven]
    · simp [parse_of_odd heven, hnil, heven, eq_comm]

theorem ne_nil_of_parse (h : parse t = .ok cs) : cs ≠ [] := by
  obtain ⟨hne, heven, hcodes⟩ := parse_eq_ok.1 h
  rintro rfl
  rw [List.forall₂_nil_right_iff] at hcodes
  rcases hwords : words t with _ | ⟨instruction, _ | ⟨value, rest⟩⟩
  · exact hne hwords
  · simp [hwords] at heven
  · simp [hwords, pairs] at hcodes

/-- A text is a cheat list just when its words are some pairs that all spell codes, and it is read as
these codes. Otherwise it has no words, or an odd number of them, or the error is that of the first pair
that spells no code. Two cheat lists with blanks between them are one. -/
theorem parse_reads_grammar (t : Text) :
    (∀ cs, parse t = .ok cs ↔ words t ≠ [] ∧ Even (words t).length ∧
        List.Forall₂ (fun p c => Spells p.1 p.2 c) (pairs (words t)) cs) ∧
      (∀ e, parse t = .error e ↔
        words t = [] ∧ e = .empty ∨
          ¬Even (words t).length ∧ e = .oddTokenCount (words t).length ∨
          Even (words t).length ∧ FirstFault (pairs (words t)) e) ∧
      ∀ t' gap cs cs', IsGap gap → gap ≠ [] → parse t = .ok cs → parse t' = .ok cs' →
        parse (t ++ gap ++ t') = .ok (cs ++ cs') := by
  refine ⟨fun _ => parse_eq_ok, fun _ => parse_eq_error, fun t' gap cs cs' hgap hne h h' => ?_⟩
  obtain ⟨hwords, heven, hcodes⟩ := parse_eq_ok.1 h
  obtain ⟨-, heven', hcodes'⟩ := parse_eq_ok.1 h'
  rw [parse_eq_ok, words_append_gap_append hgap hne, List.length_append, pairs_append heven]
  exact ⟨by simp [hwords], heven.add heven', List.rel_append hcodes hcodes'⟩

/-- Letters of either case, a value with a plus sign and one byte too many for its opcode, and values
with few digits. -/
theorem parse_reads_grammar_lenient :
    let first : Text := "8000a0b1 +01FF"
    let second : Text := "d100A0b2\t7\nD30fffFE +0"
    let gap : Text := "\u00a0\n"
    parse first = .ok [⟨.write8, 0x8000A0B1, 0xFF⟩] ∧
      parse second = .ok [⟨.if16, 0x8000A0B2, 7⟩, ⟨.ifNot16, 0x800FFFFE, 0⟩] ∧
      parse (first ++ gap ++ second) =
        .ok [⟨.write8, 0x8000A0B1, 0xFF⟩, ⟨.if16, 0x8000A0B2, 7⟩, ⟨.ifNot16, 0x800FFFFE, 0⟩] := by
  intro first second gap
  have hfirst : parse first = .ok [⟨.write8, 0x8000A0B1, 0xFF⟩] := by decide +kernel
  have hsecond : parse second = .ok [⟨.if16, 0x8000A0B2, 7⟩, ⟨.ifNot16, 0x800FFFFE, 0⟩] := by
    decide +kernel
  exact ⟨hfirst, hsecond, (parse_reads_grammar first).2.2 second gap _ _ (by decide) (by decide)
    hfirst hsecond⟩

end Lists

end Listing

end CartPatch.Cheat
