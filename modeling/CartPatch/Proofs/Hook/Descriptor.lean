import CartPatch.Hook.Descriptor
import CartPatch.Proofs.Outcome

/-!
What every descriptor satisfies once it was read: its two addresses are those of words.
-/

namespace CartPatch.Hook.Descriptor

open Outcome

theorem checkAligned_eq_ok {d d' : Descriptor} : d.checkAligned = .ok d' ↔
    d' = d ∧ d.cacheAddress.toNat % 4 = 0 ∧ d.siteAddress.toNat % 4 = 0 := by
  unfold checkAligned
  split
  · simp [*]
  · split
    · simp [*]
    · simp_all [eq_comm]

theorem isAligned_of_parse {t : Text} {d : Descriptor} (h : parse t = .ok d) :
    d.cacheAddress.toNat % 4 = 0 ∧ d.siteAddress.toNat % 4 = 0 := by
  obtain ⟨settings, _, h⟩ := bind_eq_ok.1 h
  obtain ⟨d₁, _, h⟩ := bind_eq_ok.1 h
  obtain ⟨rfl, haligned⟩ := checkAligned_eq_ok.1 h
  exact haligned

/-- A descriptor for an image of some two hundred bytes. -/
def small : Descriptor := ⟨⟨10, 240⟩, 0x40, 0x80040E00, 0, 0x80005F30, 0x4D503243⟩

theorem parse_small : parse (Text.unlines ["fs_dir 10", "fs_file 240", "hook_rom_offset 0x40",
    "hook_ram_offset 0x80040E00", "controller_jump_rom_offset 0",
    "controller_jump_ram_offset 0x80005F30", "cache_sentinel 0x4D503243"]) = .ok small := by
  rfl

end CartPatch.Hook.Descriptor
