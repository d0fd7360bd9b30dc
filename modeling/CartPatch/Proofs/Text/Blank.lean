import CartPatch.Text.Alphanumeric
import CartPatch.Text.Blank
import Mathlib.Data.List.Range
import Mathlib.Data.List.TakeWhile

/-!
Blanks at the ends of a text. Trimming takes nothing but blanks away (`filter_trim`), and no letter
or number is a blank (`isAlphanumeric_of_isBlank`).
-/

namespace CartPatch.Text

theorem filter_dropWhile_isBlank (t : Text) :
    (t.dropWhile isBlank).filter (!isBlank ·) = t.filter (!isBlank ·) := by
  induction t with
  | nil => rfl
  | cons c t ih => by_cases hc : isBlank c <;> simp [hc, ih]

theorem filter_trim (t : Text) : (trim t).filter (!isBlank ·) = t.filter (!isBlank ·) := by
  rw [trim, trimEnd, List.filter_reverse, filter_dropWhile_isBlank, ← List.filter_reverse,
    List.reverse_reverse, trimStart, filter_dropWhile_isBlank]

theorem mem_trim {c : Char} (hc : isBlank c = false) {t : Text} : c ∈ trim t ↔ c ∈ t := by
  have hfilter : c ∈ (trim t).filter (!isBlank ·) ↔ c ∈ t.filter (!isBlank ·) := by
    rw [filter_trim]
  simpa [hc] using hfilter

theorem exists_eq_append_trim (t : Text) :
    ∃ u v, t = u ++ trim t ++ v ∧ (∀ c ∈ u, isBlank c = true) ∧ ∀ c ∈ v, isBlank c = true := by
  refine ⟨t.takeWhile isBlank, ((trimStart t).reverse.takeWhile isBlank).reverse, ?_,
    fun c hc => List.mem_takeWhile_imp hc, fun c hc => List.mem_takeWhile_imp (List.mem_reverse.1 hc)⟩
  rw [trim, trimEnd, List.append_assoc, ← List.reverse_append, List.takeWhile_append_dropWhile,
    List.reverse_reverse, trimStart, List.takeWhile_append_dropWhile]

/-- What is not blank in a text, when it stands in one place, is the text without the blanks at its
ends. -/
theorem trim_eq_of_filter {t u k v : Text} (ht : t = u ++ k ++ v) (hk : k ≠ [])
    (hfilter : t.filter (!isBlank ·) = k) : trim t = k := by
  have hsolid : ∀ c ∈ k, isBlank c = false := fun c hc => by
    rw [← hfilter] at hc
    simpa using (List.mem_filter.1 hc).2
  have hlength := congrArg List.length hfilter
  have hkept : k.filter (!isBlank ·) = k := List.filter_eq_self.2 fun c hc => by simp [hsolid c hc]
  rw [ht, List.filter_append, List.filter_append, hkept] at hlength
  simp only [List.length_append] at hlength
  have hblank {w : Text} (hw : (w.filter (!isBlank ·)).length = 0) : ∀ c ∈ w, isBlank c = true :=
    fun c hc => by simpa using List.filter_eq_nil_iff.1 (List.eq_nil_of_length_eq_zero hw) c hc
  have hu := hblank (w := u) (by omega)
  have hv := hblank (w := v) (by omega)
  have hstart : trimStart t = k ++ v := by
    obtain ⟨c, k, rfl⟩ := List.exists_cons_of_ne_nil hk
    rw [ht, trimStart, List.append_assoc, List.dropWhile_append_of_pos hu, List.cons_append,
      List.dropWhile_cons_of_neg (by simp [hsolid c])]
  have hend : (k ++ v).reverse.dropWhile isBlank = k.reverse := by
    obtain ⟨k, c, rfl⟩ := (List.eq_nil_or_concat' k).resolve_left hk
    rw [List.reverse_append, List.dropWhile_append_of_pos fun c hc => hv c (List.mem_reverse.1 hc),
      List.reverse_append, List.reverse_singleton, List.singleton_append,
      List.dropWhile_cons_of_neg (by simp [hsolid c])]
  rw [trim, hstart, trimEnd, hend, List.reverse_reverse]

def blankCodes : List Nat :=
  List.range' 0x09 5 ++ [0x20, 0x85, 0xA0, 0x1680] ++ List.range' 0x2000 11 ++
    [0x2028, 0x2029, 0x202F, 0x205F, 0x3000]

theorem isBlank_iff_mem {c : Char} : isBlank c = true ↔ c.toNat ∈ blankCodes := by
  simp [isBlank, blankCodes, List.mem_range'_1, Nat.lt_succ_iff, or_assoc]

theorem of_isBlank {p : Char → Prop} (hp : ∀ n ∈ blankCodes, p (Char.ofNat n)) {c : Char}
    (h : isBlank c = true) : p c := by
  have hc := hp _ (isBlank_iff_mem.1 h)
  rwa [Char.ofNat_toNat] at hc

theorem toLower_of_isBlank {c : Char} (h : isBlank c = true) : c.toLower = c :=
  of_isBlank (p := fun c => c.toLower = c) (by decide +kernel) h

theorem isBlank_of_sameName {a b : Text} (h : sameName a b = true)
    (hb : ∀ c ∈ lower b, isBlank c = false) : ∀ c ∈ a, isBlank c = false := by
  intro c hc
  rw [← Bool.not_eq_true]
  intro hblank
  have hmem : c ∈ lower b := by
    rw [← eq_of_beq h, lower, ← toLower_of_isBlank hblank]
    exact List.mem_map_of_mem hc
  simp [hb c hmem] at hblank

theorem isAlphanumeric_of_isBlank {c : Char} (h : isBlank c = true) : isAlphanumeric c = false :=
  of_isBlank (p := fun c => isAlphanumeric c = false) (by decide +kernel) h

theorem isAlphanum_of_isBlank {c : Char} (h : isBlank c = true) : c.isAlphanum = false :=
  of_isBlank (p := fun c => c.isAlphanum = false) (by decide +kernel) h

theorem isBlank_of_isAlphanum {c : Char} (h : c.isAlphanum = true) : isBlank c = false :=
  Bool.eq_false_iff.2 fun hblank => by simp [isAlphanum_of_isBlank hblank] at h

theorem toNat_lt_of_isAlphanum {c : Char} (h : c.isAlphanum = true) : c.toNat < 0x80 := by
  delta Char.isAlphanum Char.isAlpha Char.isUpper Char.isLower Char.isDigit at h
  simp [UInt32.le_iff_toNat_le] at h
  omega

end CartPatch.Text
