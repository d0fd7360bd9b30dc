/-!
Byte strings, and the big-endian words in them. A word is written as four bytes with the most
significant first; reading the bytes of words gives the words back (`words_ofWords`).

Part of a byte string is read by `slice?` and replaced by `overwrite`, which keeps the length when
the part lies inside.
-/

namespace CartPatch

abbrev Bytes := List UInt8

namespace Bytes

/-- The word whose bytes are given, the most significant first. -/
def word (a b c d : UInt8) : UInt32 :=
  UInt32.ofNat (a.toNat * 0x1000000 + b.toNat * 0x10000 + c.toNat * 0x100 + d.toNat)

def half (a b : UInt8) : UInt16 := UInt16.ofNat (a.toNat * 0x100 + b.toNat)

def ofWord (w : UInt32) : Bytes :=
  [UInt8.ofNat (w.toNat / 0x1000000), UInt8.ofNat (w.toNat / 0x10000),
    UInt8.ofNat (w.toNat / 0x100), UInt8.ofNat w.toNat]

def ofHalf (h : UInt16) : Bytes := [UInt8.ofNat (h.toNat / 0x100), UInt8.ofNat h.toNat]

def ofWords (ws : List UInt32) : Bytes := ws.flatMap ofWord

/-- The words that a byte string holds; one to three bytes left over at its end are no word. -/
def words : Bytes → List UInt32
  | a :: b :: c :: d :: rest => word a b c d :: words rest
  | _ => []

/-- The words that a byte string holds when zeros fill up its last word. -/
def paddedWords : Bytes → List UInt32
  | a :: b :: c :: d :: rest => word a b c d :: paddedWords rest
  | [a, b, c] => [word a b c 0]
  | [a, b] => [word a b 0 0]
  | [a] => [word a 0 0 0]
  | [] => []

/-- The `size` bytes at `offset`, when the byte string reaches that far. -/
def slice? (bytes : Bytes) (offset size : Nat) : Option Bytes :=
  if offset + size ≤ bytes.length then some ((bytes.drop offset).take size) else none

def overwrite (bytes : Bytes) (offset : Nat) (new : Bytes) : Bytes :=
  bytes.take offset ++ new ++ bytes.drop (offset + new.length)

@[simp] theorem length_ofWord (w : UInt32) : (ofWord w).length = 4 := rfl

@[simp] theorem ofWords_nil : ofWords [] = [] := rfl

@[simp] theorem ofWords_cons (w : UInt32) (ws : List UInt32) :
    ofWords (w :: ws) = ofWord w ++ ofWords ws := by simp [ofWords]

@[simp] theorem ofWords_append (a b : List UInt32) : ofWords (a ++ b) = ofWords a ++ ofWords b := by
  simp [ofWords]

@[simp] theorem length_ofWords (ws : List UInt32) : (ofWords ws).length = 4 * ws.length := by
  induction ws with
  | nil => rfl
  | cons w ws ih => simp [ih]; omega

theorem word_ofWord (w : UInt32) :
    word (UInt8.ofNat (w.toNat / 0x1000000)) (UInt8.ofNat (w.toNat / 0x10000))
      (UInt8.ofNat (w.toNat / 0x100)) (UInt8.ofNat w.toNat) = w := by
  have h := w.toNat_lt
  apply UInt32.toNat_inj.1
  simp only [word, UInt8.toNat_ofNat', UInt32.toNat_ofNat']
  omega

@[simp] theorem words_ofWord_append (w : UInt32) (rest : Bytes) :
    words (ofWord w ++ rest) = w :: words rest := by
  simp only [ofWord, List.cons_append, List.nil_append, words, word_ofWord]

theorem words_ofWords (ws : List UInt32) : words (ofWords ws) = ws := by
  induction ws with
  | nil => rfl
  | cons w ws ih => simp [ih]

theorem length_overwrite {bytes new : Bytes} {offset : Nat}
    (h : offset + new.length ≤ bytes.length) :
    (overwrite bytes offset new).length = bytes.length := by
  simp only [overwrite, List.length_append, List.length_take, List.length_drop]
  omega

end Bytes

end CartPatch
