import CartPatch.Proofs.Text.ByteOrder

/-!
Positions in a text, counted in bytes. A text can be cut between two characters and nowhere else
(`cutAt?_eq_some`), so that the positions to cut it at are the valid positions of it as a string
(`isValid_iff`).
-/

namespace CartPatch.Text

def size (t : Text) : ℕ := (utf8 t).length

/-- Cuts a text at a position. None within a character is one, and none behind the text. -/
def cutAt? : ℕ → Text → Option (Text × Text)
  | 0, t => some ([], t)
  | n, c :: t =>
    if c.utf8Size ≤ n then (cutAt? (n - c.utf8Size) t).map fun (a, b) => (c :: a, b) else none
  | _, [] => none

def position? (p : Char → Bool) : Text → Option ℕ
  | [] => none
  | c :: t => if p c then some 0 else (position? p t).map (c.utf8Size + ·)

def positionOf? (s : Text) : Text → Option ℕ
  | [] => if s.isPrefixOf [] then some 0 else none
  | c :: t => if s.isPrefixOf (c :: t) then some 0 else (positionOf? s t).map (c.utf8Size + ·)

variable {c : Char} {t a b : Text} {n : ℕ}

@[simp] theorem size_nil : size [] = 0 := rfl

@[simp] theorem size_cons : size (c :: t) = c.utf8Size + size t := by
  rw [size, utf8_cons, List.length_append, String.length_utf8EncodeChar, size]

@[simp] theorem size_append : size (a ++ b) = size a + size b := by
  rw [size, utf8, List.flatMap_append, List.length_append, ← utf8, ← utf8, size, size]

theorem cutAt?_append (a b : Text) : cutAt? (size a) (a ++ b) = some (a, b) := by
  induction a with
  | nil => simp [cutAt?]
  | cons c a ih =>
    have hpos : size (c :: a) ≠ 0 := by
      have hc := c.utf8Size_pos
      rw [size_cons]
      omega
    rw [List.cons_append, cutAt?.eq_2 _ _ _ hpos, size_cons, if_pos (Nat.le_add_right _ _),
      Nat.add_sub_cancel_left, ih]
    rfl

theorem cutAt?_eq_some : cutAt? n t = some (a, b) ↔ t = a ++ b ∧ size a = n := by
  constructor
  · intro h
    fun_induction cutAt? n t generalizing a with
    | case1 t =>
      cases h
      exact ⟨rfl, rfl⟩
    | case2 n c t hpos hle ih =>
      obtain ⟨⟨a', b'⟩, hcut, heq⟩ := Option.map_eq_some_iff.1 h
      cases heq
      obtain ⟨rfl, ha⟩ := ih hcut
      refine ⟨rfl, ?_⟩
      rw [size_cons, ha]
      omega
    | case3 => cases h
    | case4 => cases h
  · rintro ⟨rfl, rfl⟩
    exact cutAt?_append a b

theorem size_eq_utf8ByteSize (t : Text) : size t = (String.ofList t).utf8ByteSize := by
  induction t with
  | nil => rfl
  | cons c t ih =>
    rw [size_cons, String.ofList_cons, String.utf8ByteSize_append, String.utf8ByteSize_singleton,
      ih]

theorem isValid_iff :
    String.Pos.Raw.IsValid (String.ofList t) ⟨n⟩ ↔ ∃ a b, cutAt? n t = some (a, b) := by
  rw [String.Pos.Raw.isValid_ofList]
  simp only [cutAt?_eq_some, ← size_eq_utf8ByteSize]
  constructor
  · rintro ⟨i, rfl⟩
    exact ⟨t.take i, t.drop i, (List.take_append_drop i t).symm, rfl⟩
  · rintro ⟨a, b, rfl, rfl⟩
    exact ⟨a.length, by rw [List.take_left]⟩

/-- The characters in front of the first one with a property end where that one is. -/
theorem position?_getD (p : Char → Bool) (t : Text) :
    (position? p t).getD (size t) = size (t.takeWhile (!p ·)) := by
  induction t with
  | nil => rfl
  | cons c t ih =>
    by_cases hc : p c = true
    · simp [position?, hc]
    · rw [position?, if_neg hc, List.takeWhile_cons_of_pos (by simpa using hc), size_cons, size_cons,
        ← ih]
      cases position? p t <;> rfl

end CartPatch.Text
