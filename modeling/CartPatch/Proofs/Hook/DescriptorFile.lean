import CartPatch.Proofs.Hook.Descriptor
import CartPatch.Proofs.Hook.Settings
import Mathlib.Data.List.Perm.Basic

/-!
Descriptor files. A text is a descriptor when its lines set each of the seven fields once, in whatever
order, and the addresses are those of words (`Describes`); what is missing or unaligned otherwise is
found behind the last line (`Fault`).
-/

namespace CartPatch.Hook

open Text Numeral Outcome
open Mips.Assembler (mem_mark_append)

namespace Descriptor

def value (d : Descriptor) : Field → ℕ
  | .slotFolder => d.slot.folder.toNat
  | .slotFile => d.slot.file.toNat
  | .codeOffset => d.codeOffset
  | .cacheAddress => d.cacheAddress.toNat
  | .siteOffset => d.siteOffset
  | .siteAddress => d.siteAddress.toNat
  | .sentinel => d.sentinel.toNat

def addresses : List Field := [.cacheAddress, .siteAddress]

/-- Lines that are a descriptor: each of its fields is set once, in some order, and its addresses are
those of words. -/
structure Describes (ls : List Text) (d : Descriptor) : Prop where
  settles : ∃ fields : List Field, fields.Perm Field.all ∧ Settles (statements ls) fields d.value
  aligned : ∀ f ∈ addresses, d.value f % 4 = 0

/-- Why lines are no descriptor. A line with a fault counts first, then a missing field, and an
address that is not aligned last; among fields of one kind their order decides. -/
inductive Fault (ls : List Text) : DescriptorError → Prop where
  | line {e : DescriptorError} (h : FirstFault ls e) : Fault ls e
  | missing {fields : List Field} {number : Field → ℕ} {f : Field}
      (h : Settles (statements ls) fields number)
      (hf : Field.all.find? (fun f => decide (f ∉ fields)) = some f) : Fault ls (.missingField f)
  | unaligned {fields : List Field} {number : Field → ℕ} {f : Field}
      (h : Settles (statements ls) fields number) (hall : ∀ f, f ∈ fields)
      (hf : addresses.find? (fun f => decide (number f % 4 ≠ 0)) = some f) :
      Fault ls (.unalignedField f (UInt32.ofNat (number f)))

/-- A descriptor file of seven lines, with given numerals. -/
def fileText (numeral : Field → Text) : Text :=
  unlines (Field.all.map fun f => f.name ++ ' ' :: numeral f)

section Settings

variable {d d' : Descriptor} {s : Settings} {e : DescriptorError}

def ofWords (word : Field → UInt32) : Descriptor where
  slot := ⟨word .slotFolder, word .slotFile⟩
  codeOffset := (word .codeOffset).toNat
  cacheAddress := word .cacheAddress
  siteOffset := (word .siteOffset).toNat
  siteAddress := word .siteAddress
  sentinel := word .sentinel

theorem value_ofWords (word : Field → UInt32) (f : Field) :
    (ofWords word).value f = (word f).toNat := by cases f <;> rfl

theorem value_inj : d.value = d'.value ↔ d = d' := by
  refine ⟨fun h => ?_, congrArg value⟩
  have hvalue := fun f => congrFun h f
  obtain ⟨⟨_, _⟩, _, _, _, _, _⟩ := d
  obtain ⟨⟨_, _⟩, _, _, _, _, _⟩ := d'
  have := hvalue .slotFolder
  have := hvalue .slotFile
  have := hvalue .codeOffset
  have := hvalue .cacheAddress
  have := hvalue .siteOffset
  have := hvalue .siteAddress
  have := hvalue .sentinel
  simp_all [value, UInt32.toNat_inj]

theorem ofSettings_eq (s : Settings) : ofSettings s =
    match Field.all.find? fun f => (s f).isNone with
    | some f => .error (.missingField f)
    | none => .ok (ofWords fun f => (s f).getD 0) := by
  simp only [ofSettings, require, ofWords, Field.all, List.find?_cons, List.find?_nil]
  rcases s .slotFolder with _ | folder
  · rfl
  rcases s .slotFile with _ | file
  · rfl
  rcases s .codeOffset with _ | codeOffset
  · rfl
  rcases s .cacheAddress with _ | cacheAddress
  · rfl
  rcases s .siteOffset with _ | siteOffset
  · rfl
  rcases s .siteAddress with _ | siteAddress
  · rfl
  rcases s .sentinel with _ | sentinel <;> rfl

theorem ofSettings_eq_ok : ofSettings s = .ok d ↔ (∀ f, s f ≠ none) ∧ d.value = numbers s := by
  rw [ofSettings_eq]
  cases hfind : Field.all.find? fun f => (s f).isNone with
  | none =>
    have hall : ∀ f, s f ≠ none := fun f => by simpa using List.find?_eq_none.1 hfind f f.mem_all
    have hvalue : (ofWords fun f => (s f).getD 0).value = numbers s := funext fun f => value_ofWords _ f
    rw [and_iff_right hall, ← hvalue, value_inj, Except.ok.injEq, eq_comm]
  | some f =>
    have hnone : s f = none := by simpa using List.find?_some hfind
    exact iff_of_false (by simp) fun h => h.1 f hnone

theorem ofSettings_eq_error : ofSettings s = .error e ↔
    ∃ f, Field.all.find? (fun f => (s f).isNone) = some f ∧ e = .missingField f := by
  rw [ofSettings_eq]
  cases Field.all.find? fun f => (s f).isNone with
  | none => simp
  | some f => simp [eq_comm]

theorem checkAligned_eq (d : Descriptor) : d.checkAligned =
    match addresses.find? fun f => decide (d.value f % 4 ≠ 0) with
    | some f => .error (.unalignedField f (UInt32.ofNat (d.value f)))
    | none => .ok d := by
  simp only [checkAligned, addresses, List.find?_cons, List.find?_nil, value]
  by_cases hcache : d.cacheAddress.toNat % 4 = 0
  · by_cases hsite : d.siteAddress.toNat % 4 = 0 <;> simp [hcache, hsite]
  · simp [hcache]

theorem checkAligned_eq_error : d.checkAligned = .error e ↔
    ∃ f, addresses.find? (fun f => decide (d.value f % 4 ≠ 0)) = some f ∧
      e = .unalignedField f (UInt32.ofNat (d.value f)) := by
  rw [checkAligned_eq]
  cases addresses.find? fun f => decide (d.value f % 4 ≠ 0) with
  | none => simp
  | some f => simp [eq_comm]

theorem aligned_iff : (∀ f ∈ addresses, d.value f % 4 = 0) ↔
    d.cacheAddress.toNat % 4 = 0 ∧ d.siteAddress.toNat % 4 = 0 := by
  simp [addresses, value]

end Settings

section Files

variable {d : Descriptor} {t t' : Text} {ls ls' : List Text} {e : DescriptorError}

theorem perm_all {fields : List Field} (h : fields.Nodup) :
    fields.Perm Field.all ↔ ∀ f, f ∈ fields := by
  rw [List.perm_ext_iff_of_nodup h (by decide)]
  exact forall_congr' fun f => iff_true_right f.mem_all

theorem parse_eq_ok : parse t = .ok d ↔ Describes (lines t) d := by
  simp only [parse, numberedLines, bind_eq_ok, ofSettings_eq_ok, checkAligned_eq_ok]
  constructor
  · rintro ⟨s, hread, _, ⟨hall, hvalue⟩, rfl, haligned⟩
    obtain ⟨fields, hsettles, hs⟩ := readLines_none_eq_ok.1 hread
    rw [← hvalue] at hsettles
    have hperm := (perm_all hsettles.nodup).2 fun f => (hs f).1 (hall f)
    exact ⟨⟨fields, hperm, hsettles⟩, aligned_iff.2 haligned⟩
  · rintro ⟨⟨fields, hperm, hsettles⟩, haligned⟩
    have hall : ∀ f, f ∈ fields := (perm_all hsettles.nodup).1 hperm
    obtain ⟨s, hread, hnumber, hs⟩ := hsettles.exists_readLines 1
    exact ⟨s, hread, d, ⟨fun f => (hs f).2 (hall f), funext fun f => (hnumber f (hall f)).symm⟩, rfl,
      aligned_iff.1 haligned⟩

theorem parse_eq_error : parse t = .error e ↔ Fault (lines t) e := by
  simp only [parse, bind_eq_error, numberedLines_eq_error, ofSettings_eq_error, checkAligned_eq_error]
  have hmissing {s : Settings} {fields : List Field} (hs : ∀ f, s f ≠ none ↔ f ∈ fields) :
      (fun f => (s f).isNone) = fun f => decide (f ∉ fields) := by
    funext f
    rw [Bool.eq_iff_iff]
    simp [← hs f]
  constructor
  · rintro (hline | ⟨s, hread, ⟨f, hfind, rfl⟩ | ⟨d, hd, f, hfind, rfl⟩⟩)
    · exact .line hline
    · obtain ⟨fields, hsettles, hs⟩ := readLines_none_eq_ok.1 hread
      exact .missing hsettles (hmissing hs ▸ hfind)
    · obtain ⟨fields, hsettles, hs⟩ := readLines_none_eq_ok.1 hread
      obtain ⟨hall, hvalue⟩ := ofSettings_eq_ok.1 hd
      rw [← hvalue] at hsettles
      exact .unaligned hsettles (fun f => (hs f).1 (hall f)) hfind
  · intro h
    cases h with
    | line hline => exact .inl hline
    | @missing fields number f hsettles hf =>
      obtain ⟨s, hread, -, hs⟩ := hsettles.exists_readLines 1
      exact .inr ⟨s, hread, .inl ⟨f, by rwa [hmissing hs], rfl⟩⟩
    | @unaligned fields number f hsettles hall hf =>
      obtain ⟨s, hread, hnumber, hs⟩ := hsettles.exists_readLines 1
      obtain rfl : numbers s = number := funext fun f => hnumber f (hall f)
      have hvalue : (ofWords fun f => (s f).getD 0).value = numbers s := funext (value_ofWords _)
      have hd := ofSettings_eq_ok.2 ⟨fun f => (hs f).2 (hall f), hvalue⟩
      exact .inr ⟨s, hread, .inr ⟨_, hd, f, by rwa [hvalue], by rw [hvalue]⟩⟩

theorem Describes.perm (h : Describes ls d) (hperm : ls'.Perm ls) : Describes ls' d := by
  obtain ⟨⟨fields, hall, hsettles⟩, haligned⟩ := h
  obtain ⟨fields', hsets, hfields⟩ :=
    List.perm_comp_forall₂ (statements_perm hperm) hsettles.sets
  exact ⟨⟨fields', hfields.trans hall, hfields.nodup_iff.2 hsettles.nodup, hsets⟩, haligned⟩

theorem SaysWord.isSolid {w : Text} {n : ℕ} (h : SaysWord w n) : IsSolid w := by
  obtain ⟨-, r, digits, rfl, hnumber⟩ := h
  have hsigned : Signed r.base digits n := .inl ⟨n, hnumber, rfl⟩
  refine ⟨by simp [hsigned.ne_nil], fun c hc => ?_⟩
  rcases mem_mark_append hnumber hc with rfl | hc
  · decide
  · exact isBlank_of_isAlphanum hc

theorem isSolid_name (f : Field) : IsSolid f.name := by cases f <;> decide

theorem isRemark_name_append (f : Field) (t : Text) : isRemark (f.name ++ t) = false := by
  obtain ⟨c, rest, hname, hc⟩ : ∃ c rest, f.name.toList = c :: rest ∧ c.isAlphanum = true := by
    cases f <;> exact ⟨_, _, rfl, by decide⟩
  rw [hname]
  exact isRemark_of_isAlphanum hc _

theorem describes_fileText {numeral : Field → Text} (h : ∀ f, SaysWord (numeral f) (d.value f))
    (haligned : ∀ f ∈ addresses, d.value f % 4 = 0) : Describes (lines (fileText numeral)) d := by
  have hlines : lines (fileText numeral) = Field.all.map fun f => f.name ++ ' ' :: numeral f := by
    refine lines_unlines_of_onlySpaces fun l hl => ?_
    obtain ⟨f, -, rfl⟩ := List.mem_map.1 hl
    exact (isSolid_name f).onlySpaces.append_space (h f).isSolid.onlySpaces
  refine ⟨⟨Field.all, .rfl, by decide, ?_⟩, haligned⟩
  rw [hlines, statements_eq_self (by simp [isRemark_name_append]), List.forall₂_map_left_iff,
    List.forall₂_same]
  intro f _
  refine ⟨f.name, numeral f, ?_, beq_self_eq_true _, h f⟩
  rw [words_append_cons (by decide), words_of_isSolid (isSolid_name f),
    words_of_isSolid (h f).isSolid]
  rfl

theorem saysWord_decimal {n : ℕ} (h : n < 2 ^ 32) : SaysWord (decimal n) n :=
  ⟨h, .decimal, decimal n, rfl, .inl (denotes_decimal n)⟩

theorem Describes.lt (h : Describes ls d) (f : Field) : d.value f < 2 ^ 32 := by
  obtain ⟨⟨fields, hperm, hsettles⟩, -⟩ := h
  exact hsettles.lt f (hperm.mem_iff.2 f.mem_all)

/-- What is read from a descriptor file. A text is a descriptor just when its lines, but for blank
ones and remarks, set each of the seven fields once, in some order, and the addresses are those of
words. So the order of the lines does not matter, and a descriptor is read back from seven lines,
however its numbers are written. Otherwise the error is that of the first line that sets no field or a
field that is set already, or that of the first missing field, or that of the first address that is
not aligned. -/
theorem parse_reads_settings (t : Text) :
    (∀ d, parse t = .ok d ↔ Describes (lines t) d) ∧
      (∀ d t', parse t = .ok d → (lines t').Perm (lines t) → parse t' = .ok d) ∧
      (∀ d, parse t = .ok d → parse (fileText fun f => decimal (d.value f)) = .ok d ∧
        ∀ numeral, (∀ f, SaysWord (numeral f) (d.value f)) → parse (fileText numeral) = .ok d) ∧
      ∀ e, parse t = .error e ↔ Fault (lines t) e := by
  refine ⟨fun d => parse_eq_ok, fun d t' h hperm => ?_, fun d h => ?_, fun e => parse_eq_error⟩
  · exact parse_eq_ok.2 ((parse_eq_ok.1 h).perm hperm)
  · have hdescribes := parse_eq_ok.1 h
    have hread {numeral : Field → Text} (hnumeral : ∀ f, SaysWord (numeral f) (d.value f)) :
        parse (fileText numeral) = .ok d :=
      parse_eq_ok.2 (describes_fileText hnumeral hdescribes.aligned)
    exact ⟨hread fun f => saysWord_decimal (hdescribes.lt f), fun numeral => hread⟩

end Files

end Descriptor

end CartPatch.Hook
