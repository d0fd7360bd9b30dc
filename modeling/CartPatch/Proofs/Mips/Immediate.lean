import CartPatch.Proofs.Mips.Line
import CartPatch.Proofs.Text.Blank
import CartPatch.Proofs.Text.Digits

/-!
How immediates are spelled.

A number stands behind the mark of its base, with a minus sign in front of all when it is negative:
`WellSigned`. The assembler takes the minus sign and the mark away by hand, and the reader that it
gives the rest to takes a sign of its own. So it also accepts a minus sign behind the other one or
behind the mark, and a second minus sign makes the number positive again: `MinusInside`. These are
all spellings that it accepts (`immediate_eq_ok`), and no text is of both kinds
(`WellSigned.not_minusInside`).
-/

namespace CartPatch.Mips.Assembler

open Text Numeral

/-- The ways to write digits: decimal, and hexadecimal with either mark. -/
inductive Radix where
  | decimal | hex | capitalHex
  deriving DecidableEq, Repr

namespace Radix

def base : Radix → ℕ
  | decimal => 10
  | hex | capitalHex => 16

def mark : Radix → Text
  | decimal => ""
  | hex => "0x"
  | capitalHex => "0X"

end Radix

/-- A number with at most one minus sign, which stands in front; blanks may stand behind it. -/
inductive WellSigned : Text → ℤ → Prop where
  | plain (r : Radix) {digits : Text} {n : ℕ} (h : Unsigned r.base digits n) :
      WellSigned (r.mark ++ digits) n
  | minus (r : Radix) {blanks digits : Text} {n : ℕ} (hblanks : ∀ c ∈ blanks, isBlank c = true)
      (h : Unsigned r.base digits n) : WellSigned ('-' :: (blanks ++ (r.mark ++ digits))) (-n)

/-- A number with a minus sign right before its digits and behind something else: the mark of its
base, another minus sign, or both. -/
inductive MinusInside : Text → ℤ → Prop where
  | behindMark (r : Radix) (hr : r ≠ .decimal) {digits : Text} {n : ℕ}
      (h : Denotes r.base digits n) : MinusInside (r.mark ++ '-' :: digits) (-n)
  | behindMinus (r : Radix) {blanks digits : Text} {n : ℕ}
      (hblanks : ∀ c ∈ blanks, isBlank c = true) (h : Denotes r.base digits n) :
      MinusInside ('-' :: (blanks ++ (r.mark ++ '-' :: digits))) n

def Spelled (t : Text) (v : ℤ) : Prop := WellSigned t v ∨ MinusInside t v

/-- Whether a text spells one number only. -/
def Unambiguous (Spells : Text → ℤ → Prop) : Prop :=
  ∀ ⦃t v v'⦄, Spells t v → Spells t v' → v = v'

/-- A number behind the mark of its base, with at most one sign between them. -/
def Based (t : Text) (v : ℤ) : Prop :=
  ∃ (r : Radix) (digits : Text), t = r.mark ++ digits ∧ Signed r.base digits v

section Signs

variable {t digits : Text} {v v' : ℤ} {n : ℕ} {r : Radix}

theorem Radix.isAlphanum_mark (r : Radix) : ∀ c ∈ r.mark, c.isAlphanum = true :=
  List.all_eq_true.1 (by cases r <;> decide)

theorem mem_mark_append (h : Unsigned r.base digits n) {c : Char} (hc : c ∈ r.mark ++ digits) :
    c = '+' ∨ c.isAlphanum = true := by
  rcases List.mem_append.1 hc with hc | hc
  · exact .inr (r.isAlphanum_mark c hc)
  · exact (h.mem hc).imp_right fun ⟨_, hd⟩ => isAlphanum_of_digitValue? hd

theorem minus_not_mem_mark_append (h : Unsigned r.base digits n) : '-' ∉ r.mark ++ digits :=
  fun hc => absurd (mem_mark_append h hc) (by decide)

theorem WellSigned.mem (h : WellSigned t v) {c : Char} (hc : c ∈ t) :
    isBlank c = true ∨ c = '-' ∨ c = '+' ∨ c.isAlphanum = true := by
  cases h with
  | plain r h => exact .inr (.inr (mem_mark_append h hc))
  | minus r hblanks h =>
    rcases List.mem_cons.1 hc with hc | hc
    · exact .inr (.inl hc)
    · exact (List.mem_append.1 hc).imp (hblanks c) fun hc => .inr (mem_mark_append h hc)

theorem WellSigned.minus_not_mem_tail (h : WellSigned t v) : '-' ∉ t.tail := by
  cases h with
  | plain r h => exact fun hc => minus_not_mem_mark_append h (List.mem_of_mem_tail hc)
  | minus r hblanks h =>
    intro hc
    rcases List.mem_append.1 hc with hc | hc
    · exact absurd (hblanks _ hc) (by decide)
    · exact minus_not_mem_mark_append h hc

theorem MinusInside.minus_mem_tail (h : MinusInside t v) : '-' ∈ t.tail := by
  cases h with
  | behindMark r hr h =>
    cases r with
    | decimal => exact absurd rfl hr
    | hex => simp [Radix.mark]
    | capitalHex => simp [Radix.mark]
  | behindMinus r hblanks h => simp

theorem WellSigned.not_minusInside (h : WellSigned t v) : ¬MinusInside t v' :=
  fun h' => h.minus_not_mem_tail h'.minus_mem_tail

theorem Based.ne_blank (h : Based t v) : ∀ c ∈ t, isBlank c = false := by
  obtain ⟨r, digits, rfl, h⟩ := h
  intro c hc
  rcases List.mem_append.1 hc with hc | hc
  · exact isBlank_of_isAlphanum (r.isAlphanum_mark c hc)
  · obtain rfl | rfl | ⟨d, hd⟩ := h.mem hc
    · decide
    · decide
    · exact isBlank_of_isAlphanum (isAlphanum_of_digitValue? hd)

theorem Based.trimStart_append {blanks : Text} (h : Based t v)
    (hblanks : ∀ c ∈ blanks, isBlank c = true) : trimStart (blanks ++ t) = t := by
  rw [trimStart, List.dropWhile_append_of_pos hblanks]
  exact dropWhile_eq_self fun c hc => h.ne_blank c (List.mem_of_mem_head? hc)

/-- Behind a minus sign the number is read with the sign turned. -/
theorem spelled_minus_cons : Spelled ('-' :: t) v ↔ Based (trimStart t) (-v) := by
  constructor
  · generalize ht : '-' :: t = u
    rintro (h | h)
    · cases h with
      | plain r h => exact absurd (ht ▸ List.mem_cons_self) (minus_not_mem_mark_append h)
      | @minus r blanks digits n hblanks h =>
        obtain ⟨-, rfl⟩ := List.cons.inj ht
        have hbased : Based (r.mark ++ digits) (- -(n : ℤ)) :=
          ⟨r, digits, rfl, .inl ⟨n, h, Int.neg_neg n⟩⟩
        rwa [hbased.trimStart_append hblanks]
    · cases h with
      | behindMark r hr h => cases r <;> simp [Radix.mark] at ht hr
      | @behindMinus r blanks digits n hblanks h =>
        obtain ⟨-, rfl⟩ := List.cons.inj ht
        have hbased : Based (r.mark ++ '-' :: digits) (-(n : ℤ)) :=
          ⟨r, '-' :: digits, rfl, .inr ⟨digits, n, rfl, h, rfl⟩⟩
        rwa [hbased.trimStart_append hblanks]
  · rintro ⟨r, digits, ht, h⟩
    have hsplit : t = t.takeWhile isBlank ++ (r.mark ++ digits) := by
      rw [← ht, trimStart, List.takeWhile_append_dropWhile]
    have hblanks : ∀ c ∈ t.takeWhile isBlank, isBlank c = true :=
      fun c hc => List.mem_takeWhile_imp hc
    rw [hsplit]
    rcases h with ⟨n, h, hv⟩ | ⟨digits, n, rfl, h, hv⟩
    · obtain rfl : v = -n := by omega
      exact .inl (.minus r hblanks h)
    · obtain rfl : v = n := by omega
      exact .inr (.behindMinus r hblanks h)

theorem spelled_iff_based (ht : ∀ u, t ≠ '-' :: u) : Spelled t v ↔ Based t v := by
  constructor
  · rintro (h | h)
    · cases h with
      | @plain r digits n h => exact ⟨r, digits, rfl, .inl ⟨n, h, rfl⟩⟩
      | minus r hblanks h => exact absurd rfl (ht _)
    · cases h with
      | @behindMark r hr digits n h => exact ⟨r, '-' :: digits, rfl, .inr ⟨digits, n, rfl, h, rfl⟩⟩
      | behindMinus r hblanks h => exact absurd rfl (ht _)
  · rintro ⟨r, digits, rfl, ⟨n, h, rfl⟩ | ⟨digits, n, rfl, h, rfl⟩⟩
    · exact .inl (.plain r h)
    · refine .inr (.behindMark r ?_ h)
      rintro rfl
      exact ht digits rfl

end Signs

section Reading

variable {t digits : Text} {v v' : ℤ} {half : ℕ}

def readSpelling (half : ℕ) (t : Text) : Except NumeralFault ℤ :=
  let (negative, unsigned) := splitMinus t
  let (base, digits) := splitBase unsigned
  (readInt base half digits).map fun v => if negative then -v else v

theorem exists_radix (t : Text) : ∃ (r : Radix) (digits : Text),
    t = r.mark ++ digits ∧ splitBase t = (r.base, digits) := by
  unfold splitBase
  split
  · exact ⟨.hex, _, rfl, rfl⟩
  · exact ⟨.capitalHex, _, rfl, rfl⟩
  · exact ⟨.decimal, _, rfl, rfl⟩

theorem splitBase_mark {r : Radix} (h : Signed r.base digits v) :
    splitBase (r.mark ++ digits) = (r.base, digits) := by
  cases r with
  | hex | capitalHex => rfl
  | decimal => exact h.splitBase_eq (by decide)

theorem readInt_splitBase_eq_ok (hv : v.natAbs < half) :
    readInt (splitBase t).1 half (splitBase t).2 = .ok v ↔ Based t v := by
  constructor
  · intro h
    obtain ⟨r, digits, rfl, hsplit⟩ := exists_radix t
    rw [hsplit, readInt_eq_ok (by omega)] at h
    exact ⟨r, digits, rfl, h.1⟩
  · rintro ⟨r, digits, rfl, h⟩
    rw [splitBase_mark h, readInt_eq_ok (by omega)]
    exact ⟨h, by omega, by omega⟩

theorem readSpelling_eq_ok (hv : v.natAbs < half) : readSpelling half t = .ok v ↔ Spelled t v := by
  by_cases hminus : ∃ u, t = '-' :: u
  · obtain ⟨u, rfl⟩ := hminus
    simp only [readSpelling, splitMinus, Outcome.map_eq_ok, if_true, spelled_minus_cons,
      neg_eq_iff_eq_neg, exists_eq_right]
    exact readInt_splitBase_eq_ok (by omega)
  · replace hminus : ∀ u, t ≠ '-' :: u := not_exists.1 hminus
    have hsplit : splitMinus t = (false, t) := by
      rw [splitMinus]
      exact hminus
    simp only [readSpelling, hsplit, Outcome.map_eq_ok, Bool.false_eq_true, if_false,
      exists_eq_right, spelled_iff_based hminus]
    exact readInt_splitBase_eq_ok hv

/-- Of two numbers with one spelling, a reader for words that are large enough would read each. -/
theorem spelled_unambiguous : Unambiguous Spelled := by
  intro t v v' h h'
  have hv : v.natAbs < v.natAbs + v'.natAbs + 1 := by omega
  have hread := (readSpelling_eq_ok hv).2 h
  rw [(readSpelling_eq_ok (by omega)).2 h'] at hread
  exact (Except.ok.inj hread).symm

theorem immediate_eq_ok (hv : v.natAbs < 0x8000000000000000) :
    immediate t = .ok v ↔ Spelled (trim t) v := by
  rw [← readSpelling_eq_ok hv, readSpelling, Outcome.map_eq_ok, immediate]
  dsimp only
  split
  · simp [*]
  · simp [*]

end Reading

section Printing

structure Compact (t : Text) (v : ℤ) : Prop where
  wellSigned : WellSigned t v
  solid : ∀ c ∈ t, isBlank c = false

def signedHex (v : ℤ) : Text :=
  if v < 0 then "-0x" ++ capitalHex 0 v.natAbs else "0x" ++ capitalHex 0 v.natAbs

variable {t digits : Text} {v : ℤ} {n : ℕ}

theorem WellSigned.ne_nil (h : WellSigned t v) : t ≠ [] := by
  cases h with
  | plain r h =>
    have hsigned : Signed r.base _ _ := .inl ⟨_, h, rfl⟩
    simp [hsigned.ne_nil]
  | minus r hblanks h => simp

theorem WellSigned.not_mem (h : WellSigned t v) {c : Char}
    (hc : ¬(isBlank c = true ∨ c = '-' ∨ c = '+' ∨ c.isAlphanum = true)) : c ∉ t :=
  fun hmem => hc (h.mem hmem)

theorem Compact.isOperand (h : Compact t v) : IsOperand t :=
  ⟨h.wellSigned.ne_nil, fun c hc =>
    ⟨h.solid c hc, ne_of_mem_of_not_mem hc (h.wellSigned.not_mem (by decide))⟩⟩

theorem Compact.paren_not_mem (h : Compact t v) : '(' ∉ t := h.wellSigned.not_mem (by decide)

theorem Compact.immediate_eq (h : Compact t v) (hv : v.natAbs < 0x8000000000000000) :
    immediate t = .ok v := by
  rw [immediate_eq_ok hv, h.isOperand.tight.trim_eq]
  exact .inl h.wellSigned

theorem compact_plain (r : Radix) (h : Denotes r.base digits n) : Compact (r.mark ++ digits) n := by
  refine ⟨.plain r (.inl h), fun c hc => ?_⟩
  obtain rfl | hletter := mem_mark_append (.inl h) hc
  · decide
  · exact isBlank_of_isAlphanum hletter

theorem compact_minus (r : Radix) (h : Denotes r.base digits n) :
    Compact ('-' :: (r.mark ++ digits)) (-n) := by
  have hwell : WellSigned ('-' :: ([] ++ (r.mark ++ digits))) (-n) := .minus r (by simp) (.inl h)
  exact ⟨hwell, List.forall_mem_cons.2 ⟨by decide, (compact_plain r h).solid⟩⟩

theorem compact_capitalHex (width n : ℕ) : Compact ("0x" ++ capitalHex width n) n :=
  compact_plain .hex (denotes_capitalHex width n)

theorem compact_minus_capitalHex (width n : ℕ) : Compact ("-0x" ++ capitalHex width n) (-n) :=
  compact_minus .hex (denotes_capitalHex width n)

theorem compact_decimal (n : ℕ) : Compact (decimal n) n := compact_plain .decimal (denotes_decimal n)

theorem compact_signedDecimal (v : ℤ) : Compact (signedDecimal v) v := by
  rw [signedDecimal]
  split
  · have hminus : Compact ('-' :: decimal v.natAbs) (-v.natAbs) :=
      compact_minus .decimal (denotes_decimal v.natAbs)
    rwa [show -(v.natAbs : ℤ) = v by omega] at hminus
  · have hplain := compact_decimal v.natAbs
    rwa [show (v.natAbs : ℤ) = v by omega] at hplain

theorem compact_signedHex (v : ℤ) : Compact (signedHex v) v := by
  rw [signedHex]
  split
  · have hminus := compact_minus_capitalHex 0 v.natAbs
    rwa [show -(v.natAbs : ℤ) = v by omega] at hminus
  · have hplain := compact_capitalHex 0 v.natAbs
    rwa [show (v.natAbs : ℤ) = v by omega] at hplain

theorem compact_offsetText (offset : Int16) : Compact (offsetText offset) offset.toInt :=
  compact_signedHex offset.toInt

end Printing

end CartPatch.Mips.Assembler
