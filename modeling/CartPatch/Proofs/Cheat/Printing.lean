import CartPatch.Proofs.Cheat.Grammar

/-!
Cheat codes as they are printed. The first two words of a printed code are the words of a cheat list
(`printedWords_eq`), and they spell the code (`Spells.printed`). Every spelling of a code is printed in
one way: the instruction in capital letters, the value with four digits and without the byte that its
opcode does not use (`Spells.printedWords_eq`).
-/

namespace CartPatch.Cheat

open Numeral Text

namespace Code

/-- The words that a printed code begins with. -/
def printedWords (c : Code) : List Text := (words c.text).take 2

def instructionText (c : Code) : Text := capitalHex 2 c.opcode.byte.toNat ++ capitalHex 6 c.shortAddress

def valueText (c : Code) : Text := capitalHex 4 c.value.toNat

section Words

theorem isSolid_instructionText (c : Code) : IsSolid c.instructionText :=
  isSolid_append (isSolid_capitalHex _ _) (isSolid_capitalHex _ _)

theorem isSolid_valueText (c : Code) : IsSolid c.valueText := isSolid_capitalHex _ _

theorem printedWords_eq (c : Code) : c.printedWords = [c.instructionText, c.valueText] := by
  obtain ⟨rest, hrest⟩ : ∃ rest : Text, c.text = c.listText ++ ' ' :: rest := by
    have hspace : (" (" : Text) = ' ' :: "(" := rfl
    rw [text, hspace]
    simp only [List.append_assoc, List.cons_append]
    exact ⟨_, rfl⟩
  have hlist : c.listText = c.instructionText ++ ' ' :: c.valueText := rfl
  rw [printedWords, hrest, words_append_cons (by decide), hlist, words_append_cons (by decide),
    words_of_isSolid c.isSolid_instructionText, words_of_isSolid c.isSolid_valueText]
  rfl

end Words

section Fields

variable {o : Opcode} {address n : ℕ}

theorem shortAddress_ofFields (h : address < 0x1000000) :
    (ofFields o address n).shortAddress = address := by
  rw [shortAddress, ofFields, Listing.toNat_segmentAddress h]
  omega

theorem toNat_value_ofFields (hn : n ≤ 0xFFFF) :
    (ofFields o address n).value.toNat = if o.isByteSized then n % 0x100 else n := by
  have hword : (UInt16.ofNat n).toNat = n := by
    rw [UInt16.toNat_ofNat']
    omega
  rw [ofFields]
  split
  · rw [Listing.value_and_eq hn, UInt16.toNat_ofNat', hword]
    omega
  · exact hword

/-- A value that is read back keeps what its opcode uses. -/
theorem ofFields_toNat_value (o : Opcode) (address n : ℕ) :
    ofFields o address (ofFields o address n).value.toNat = ofFields o address n := by
  cases hsized : o.isByteSized <;>
    simp only [ofFields, hsized, if_true, Bool.false_eq_true, if_false, UInt16.ofNat_toNat,
      UInt16.and_assoc, UInt16.and_self]

end Fields

end Code

namespace Listing

section Spelling

variable {instruction value : Text} {c : Code}

theorem Spells.printed (h : Spells instruction value c) : Spells c.instructionText c.valueText c := by
  cases h with
  | @pair high low value o address n hhigh hlow hopcode haddress hvalue hn heven =>
    have hsmall := (isToken_append hhigh hlow hopcode haddress).2
    have hprinted := (Code.ofFields o address n).value.toNat_lt
    have htoken : IsToken (Code.ofFields o address n).valueText
        (Code.ofFields o address n).value.toNat := by
      refine isToken_iff.2 ⟨?_, .inl (denotes_capitalHex 4 _)⟩
      rw [Code.valueText, length_capitalHex (by decide) hprinted]
      decide
    have hspells := Spells.pair (length_capitalHex (by decide) o.byte.toNat_lt)
      (length_capitalHex (by decide) hsmall) (denotes_capitalHex 2 o.byte.toNat)
      (denotes_capitalHex 6 address) htoken (by omega) heven
    rw [Code.ofFields_toNat_value] at hspells
    rwa [Code.instructionText, Code.shortAddress_ofFields hsmall]

theorem Spells.printedWords_eq (h : Spells instruction value c) :
    ∃ n, Unsigned 16 value n ∧ c.printedWords =
      [instruction.map Char.toUpper,
        capitalHex 4 (if c.opcode.isByteSized then n % 0x100 else n)] := by
  cases h with
  | @pair high low value o address n hhigh hlow hopcode haddress hvalue hn heven =>
    have hsmall := (isToken_append hhigh hlow hopcode haddress).2
    have hcapitals {t : Text} {width m : ℕ} (hwidth : 0 < width) (hm : m < 16 ^ width)
        (ht : Denotes 16 t m) (hlength : t.length = width) :
        t.map Char.toUpper = capitalHex width m := by
      rw [ht.map_toUpper_eq (denotes_capitalHex width m), map_toUpper_capitalHex]
      rw [hlength, length_capitalHex hwidth hm]
    refine ⟨n, hvalue.number, ?_⟩
    rw [Code.printedWords_eq, Code.instructionText, Code.valueText,
      Code.shortAddress_ofFields hsmall, Code.toNat_value_ofFields hn, List.map_append,
      hcapitals (by decide) o.byte.toNat_lt hopcode hhigh, hcapitals (by decide) hsmall haddress hlow]
    rfl

end Spelling

section Lists

variable {t : Text} {cs : List Code}

/-- Codes that were spelled in some way are spelled by what is printed for them. -/
theorem spells_printed {ps : List (Text × Text)}
    (h : List.Forall₂ (fun p c => Spells p.1 p.2 c) ps cs) :
    List.Forall₂ (fun p c => Spells p.1 p.2 c)
      (cs.map fun c => (c.instructionText, c.valueText)) cs := by
  induction h with
  | nil => exact .nil
  | cons hspells _ ih => exact .cons hspells.printed ih

theorem pairs_printedWords (cs : List Code) :
    pairs (cs.flatMap Code.printedWords) = cs.map fun c => (c.instructionText, c.valueText) := by
  induction cs with
  | nil => rfl
  | cons c cs ih =>
    rw [List.flatMap_cons, Code.printedWords_eq, List.map_cons, ← ih]
    rfl

theorem even_length_printedWords (cs : List Code) : Even (cs.flatMap Code.printedWords).length := by
  induction cs with
  | nil => simp
  | cons c cs ih =>
    rw [List.flatMap_cons, Code.printedWords_eq, List.length_append]
    exact even_two.add ih

theorem isSolid_of_mem_printedWords : ∀ w ∈ cs.flatMap Code.printedWords, IsSolid w := by
  intro w hw
  obtain ⟨c, -, hw⟩ := List.mem_flatMap.1 hw
  rw [Code.printedWords_eq] at hw
  rcases List.mem_cons.1 hw with rfl | hw
  · exact c.isSolid_instructionText
  · rw [List.mem_singleton.1 hw]
    exact c.isSolid_valueText

/-- A text in which the words printed for the codes of a cheat list stand, with any blanks between them,
is read as these codes. So all spellings of a list become one: each instruction is printed in capital
letters, and each value as four digits, its number modulo one byte for an opcode of one byte. -/
theorem parse_printedWords (h : parse t = .ok cs) :
    (∀ printed, Spaced (cs.flatMap Code.printedWords) printed → parse printed = .ok cs) ∧
      List.Forall₂ (fun p c => ∃ n, Unsigned 16 p.2 n ∧ c.printedWords =
          [p.1.map Char.toUpper, capitalHex 4 (if c.opcode.isByteSized then n % 0x100 else n)])
        (pairs (words t)) cs := by
  obtain ⟨-, -, hcodes⟩ := parse_eq_ok.1 h
  refine ⟨fun printed hprinted => ?_, hcodes.imp fun p c => Spells.printedWords_eq⟩
  have hwords := hprinted.words_eq isSolid_of_mem_printedWords
  rw [parse_eq_ok, hwords, pairs_printedWords]
  refine ⟨?_, even_length_printedWords cs, spells_printed hcodes⟩
  obtain ⟨c, cs, rfl⟩ := List.exists_cons_of_ne_nil (ne_nil_of_parse h)
  simp [Code.printedWords_eq]

/-- Small letters, a plus sign with a byte too many and a value of one digit, printed and put together
with other blanks. -/
theorem parse_printedWords_lenient :
    parse "8000a0b1 +01ff d100A0b2 7" = .ok [⟨.write8, 0x8000A0B1, 0xFF⟩, ⟨.if16, 0x8000A0B2, 7⟩] ∧
      parse "\u2003 8000A0B1\t00FF\nD100A0B2 0007" =
        .ok [⟨.write8, 0x8000A0B1, 0xFF⟩, ⟨.if16, 0x8000A0B2, 7⟩] := by
  refine ⟨?read, (parse_printedWords ?read).1 _ ?spaced⟩
  case read => decide +kernel
  case spaced =>
    have hwords : ([⟨.write8, 0x8000A0B1, 0xFF⟩, ⟨.if16, 0x8000A0B2, 7⟩] : List Code).flatMap
        Code.printedWords = ["8000A0B1", "00FF", "D100A0B2", "0007"] := by
      decide +kernel
    have htext : ("\u2003 8000A0B1\t00FF\nD100A0B2 0007" : Text) =
        "\u2003 ".toList ++ "8000A0B1".toList ++ "\t".toList ++
          ([] ++ "00FF".toList ++ "\n".toList ++
            ([] ++ "D100A0B2".toList ++ " ".toList ++ ([] ++ "0007".toList ++ []))) := by
      decide +kernel
    rw [hwords, htext]
    exact .word (by decide) (by decide) (by decide) (.word (by decide) (by decide) (by decide)
      (.word (by decide) (by decide) (by decide) (.last (by decide) (by decide))))

end Lists

end Listing

end CartPatch.Cheat
