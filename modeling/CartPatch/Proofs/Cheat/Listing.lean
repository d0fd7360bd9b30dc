import CartPatch.Proofs.Cheat.Interpreter
import CartPatch.Proofs.Outcome

/-!
What every code of a cheat list satisfies once the list was read: a half word has an even address,
so that it can be loaded and stored.
-/

namespace CartPatch.Cheat

open Mips Outcome

/-- Whether the address of a code is a multiple of the size of what it writes or compares. -/
def Code.IsAligned (c : Code) : Prop := c.address.toNat % c.width = 0

/-- Where an aligned code points into a region that begins at an even address, it does so with its
address. -/
theorem Code.IsAligned.not_within {c : Code} (halign : c.IsAligned) {first x : UInt32} {size : ℕ}
    (hfirst : first.toNat % 2 = 0) (h : ¬Within first size c.address) (hx : c.Touches x) :
    ¬Within first size x := by
  have hf := first.toNat_lt
  have ha := c.address.toNat_lt
  have hxlt := x.toNat_lt
  unfold Code.IsAligned at halign
  unfold Code.Touches at hx
  unfold Code.width at halign hx
  simp only [Within, UInt32.toNat_sub] at h hx ⊢
  split at hx
  · omega
  · rename_i hsized
    rw [if_neg hsized] at halign
    omega

namespace Listing

theorem isAligned_of_code {instruction value : Text} {c : Code}
    (h : code instruction value = .ok c) : c.IsAligned := by
  obtain ⟨word, -, h⟩ := bind_eq_ok.1 h
  obtain ⟨half, -, h⟩ := bind_eq_ok.1 h
  dsimp only at h
  split at h
  · split at h
    · rename_i hsized
      cases h
      simp [Code.IsAligned, Code.width, hsized, Nat.mod_one]
    · split at h
      · cases h
      · rename_i hsized haligned
        cases h
        simpa [Code.IsAligned, Code.width, hsized] using haligned
  · cases h

theorem isAligned_of_codes {tokens : List Text} {cs : List Code} (h : codes tokens = .ok cs) :
    ∀ c ∈ cs, c.IsAligned := by
  induction tokens using codes.induct generalizing cs with
  | case1 instruction value rest ih =>
    obtain ⟨c, hc, h⟩ := bind_eq_ok.1 h
    obtain ⟨cs', hcs, h⟩ := bind_eq_ok.1 h
    cases h
    exact List.forall_mem_cons.2 ⟨isAligned_of_code hc, ih hcs⟩
  | case2 tokens hne =>
    rw [codes.eq_2 tokens hne] at h
    cases h
    simp

theorem isAligned_of_parse {t : Text} {cs : List Code} (h : parse t = .ok cs) :
    ∀ c ∈ cs, c.IsAligned := by
  simp only [parse] at h
  split at h
  · cases h
  · split at h
    · cases h
    · exact isAligned_of_codes h

theorem isAligned_of_forall₂ {texts : List Text} {lists : List (List Code)}
    (h : List.Forall₂ (fun t cs => parse t = .ok cs) texts lists) :
    ∀ cs ∈ lists, ∀ c ∈ cs, c.IsAligned := by
  induction h with
  | nil => simp
  | cons hparse _ ih => exact List.forall_mem_cons.2 ⟨isAligned_of_parse hparse, ih⟩

end Listing

end CartPatch.Cheat
