import CartPatch.Proofs.Cheat.Session
import CartPatch.Proofs.Hook.Patch

/-!
The stored routine. It pushes what the cheats use, runs them list by list and pops again; then it
pops what the trampoline pushed, and the displaced instructions find every register as the game
left it (`exec_stored`). Two frames are on the stack, so no cheat may point at the sixteen bytes
below the stack pointer or at the eight behind it.
-/

namespace CartPatch.Hook

open Mips Machine Cheat Assembler

/-- The instructions of a stored routine, up to the displaced ones. -/
def storedInstructions (lists : List (List Code)) : List Instruction :=
  pushInstructions scratchRegisters ++ (joinedInstructions lists ++
    (popInstructions scratchRegisters ++ popInstructions pointerRegisters))

/-- The two frames are popped in the order in which they lie on the stack. -/
theorem straight_popBoth {d : Data} {value : Register → UInt32}
    (halign : (d.reg .sp).toNat % 4 = 0)
    (hframe : Frame d.memory (d.reg .sp) value scratchRegisters) :
    ∃ exit, straight (popInstructions scratchRegisters ++ popInstructions pointerRegisters) d =
        some exit ∧
      exit.memory = d.memory ∧ exit.reg .sp = d.reg .sp + 24 ∧
      exit.reg .t8 = d.memory.word (d.reg .sp + 16) ∧
      exit.reg .t9 = d.memory.word (d.reg .sp + 20) ∧
      (∀ r ∈ scratchRegisters, exit.reg r = value r) ∧
      ∀ r, r ∉ scratchRegisters → r ∉ [Register.t8, .t9, .sp] → exit.reg r = d.reg r := by
  obtain ⟨d₁, hscratch, hmemory₁, hsp₁, hvalue, hreg₁⟩ :=
    straight_pop (by decide) (by decide) halign hframe
  have hsp₁ : d₁.reg .sp = d.reg .sp + 16 := hsp₁
  have halign₁ : (d₁.reg .sp).toNat % 4 = 0 := by
    rw [hsp₁, UInt32.toNat_add]
    simp only [UInt32.reduceToNat]
    omega
  set pushed : Register → UInt32 := fun r =>
    if r = .t8 then d.memory.word (d.reg .sp + 16) else d.memory.word (d.reg .sp + 20)
    with hpushed
  have hframe₁ : Frame d₁.memory (d₁.reg .sp) pushed pointerRegisters := by
    have hsecond : d.reg .sp + 16 + 4 = d.reg .sp + 20 := by grind
    intro s hs
    have hs : s = (.t8, 0) ∨ s = (.t9, 1) := by simpa [pointerRegisters] using hs
    rw [hmemory₁, hsp₁]
    rcases hs with rfl | rfl
    · rw [place_zero]
      rfl
    · show d.memory.word (d.reg .sp + 16 + 4) = d.memory.word (d.reg .sp + 20)
      rw [hsecond]
  obtain ⟨exit, hpointers, hmemory, hsp, hpopped, hreg⟩ :=
    straight_pop (by decide) (by decide) halign₁ hframe₁
  refine ⟨exit, by rw [straight_append, hscratch, Option.bind_some, hpointers],
    hmemory.trans hmemory₁, ?_, hpopped .t8 (by decide), hpopped .t9 (by decide), ?_, ?_⟩
  · rw [hsp, hsp₁]
    show d.reg .sp + 16 + 8 = d.reg .sp + 24
    grind
  · intro r hr
    have hother : ∀ r ∈ scratchRegisters, r ∉ pointerRegisters ∧ r ≠ .sp := by decide
    rw [hreg r (hother r hr).1 (hother r hr).2, hvalue r hr]
  · intro r hscratch hr
    simp only [List.mem_cons, List.not_mem_nil, or_false, not_or] at hr
    rw [hreg r (by simp [pointerRegisters, hr]) hr.2.2, hreg₁ r hscratch hr.2.2]

section Kept

variable {low sp x : UInt32} {lists : List (List Code)} {m : Memory} {value : Register → UInt32}
  (halign : ∀ codes ∈ lists, ∀ c ∈ codes, c.IsAligned) (hlow : low.toNat % 4 = 0)
  (hcheats : ∀ codes ∈ lists, ∀ c ∈ codes, ¬Within low 24 c.address)
include halign hlow hcheats

theorem not_within_of_touches {codes : List Code} (hcodes : codes ∈ lists) {c : Code}
    (hc : c ∈ codes) (hx : c.Touches x) : ¬Within low 24 x :=
  (halign codes hcodes c hc).not_within (by omega) (hcheats codes hcodes c hc) hx

theorem interpretAll_frames (hx : Within low 24 x) : interpretAll lists m x = m x :=
  interpretAll_of_not_touches fun _ hcodes _ hc htouches =>
    not_within_of_touches halign hlow hcheats hcodes hc htouches hx

theorem frame_interpretAll : Frame
    (interpretAll lists (m.write low (Bytes.ofWords (scratchRegisters.map value)))) low value
    scratchRegisters := by
  refine (frame_write m low value (by decide)).congr (by decide) fun x hx => ?_
  have hx : (x - low).toNat < 12 := hx
  exact (interpretAll_frames halign hlow hcheats (by unfold Within; omega)).symm

/-- Outside the frame of the cheats, memory is as the cheats alone would leave it. -/
theorem interpretAll_outside (hx : ¬Within low 16 x) :
    interpretAll lists (m.write low (Bytes.ofWords (scratchRegisters.map value))) x =
      interpretAll lists m x := by
  refine interpretAll_congr (Within low 16) ?_ ?_ hx
  · intro codes hcodes c hc y hy hwithin
    refine not_within_of_touches halign hlow hcheats hcodes hc hy ?_
    unfold Within at hwithin ⊢
    omega
  · intro y hy
    refine Memory.write_of_not_within fun hwritten => hy ?_
    have hwritten : (y - low).toNat < 12 := hwritten
    unfold Within
    omega

theorem words_interpretAll (m : Memory) (value : Register → UInt32) :
    (interpretAll lists (m.write low (Bytes.ofWords (scratchRegisters.map value)))).word
        (low + 16) = m.word (low + 16) ∧
      (interpretAll lists (m.write low (Bytes.ofWords (scratchRegisters.map value)))).word
        (low + 20) = m.word (low + 20) := by
  have habove (x : UInt32) (hfirst : 16 ≤ (x - low).toNat) (hlast : (x - low).toNat < 24) :
      interpretAll lists (m.write low (Bytes.ofWords (scratchRegisters.map value))) x = m x := by
    rw [interpretAll_frames halign hlow hcheats hlast]
    refine Memory.write_of_not_within ?_
    show ¬(x - low).toNat < 12
    omega
  have hdistance (x k : UInt32) (hk : k.toNat ≤ 20) (hx : Within (low + k) 4 x) :
      (x - low).toNat = (x - (low + k)).toNat + k.toNat := by
    have hsub : x - low = x - (low + k) + k := by grind
    unfold Within at hx
    rw [hsub, UInt32.toNat_add]
    omega
  constructor
  · refine Memory.word_congr fun x hx => ?_
    have hx₁ := hdistance x 16 (by decide) hx
    simp only [UInt32.reduceToNat] at hx₁
    unfold Within at hx
    exact habove x (by omega) (by omega)
  · refine Memory.word_congr fun x hx => ?_
    have hx₁ := hdistance x 20 (by decide) hx
    simp only [UInt32.reduceToNat] at hx₁
    unfold Within at hx
    exact habove x (by omega) (by omega)

end Kept

section Runs

variable {p : Program} {base : UInt32} {entry : Data} {lists : List (List Code)}

/-- The registers of the cheats are pushed, and the cheats run. -/
theorem exec_cheats (halign : ∀ codes ∈ lists, ∀ c ∈ codes, c.IsAligned)
    (hwords : p.Holds base
      ((pushInstructions scratchRegisters ++ joinedInstructions lists).map Instruction.word))
    (hsp : (entry.reg .sp).toNat % 4 = 0) :
    ∃ n d, Exec p (before base entry) n
        (before (place base (4 + (joinedInstructions lists).length)) d) ∧
      d.memory = interpretAll lists (entry.memory.write (entry.reg .sp - 16)
        (Bytes.ofWords (scratchRegisters.map entry.reg))) ∧
      d.reg .sp = entry.reg .sp - 16 ∧
      ∀ r, r ∉ scratchRegisters → r ≠ .sp → d.reg r = entry.reg r := by
  rw [List.map_append] at hwords
  obtain ⟨hpushWords, hcheatWords⟩ := Program.holds_append.1 hwords
  set pushed := (entry.set .sp (entry.reg .sp - 16)).store (entry.reg .sp - 16)
    (Bytes.ofWords (scratchRegisters.map entry.reg)) with hpushed
  have hpush : straight (pushInstructions scratchRegisters) entry = some pushed :=
    straight_push (by decide) (by decide) hsp
  have h₁ := exec_straight hpushWords (isPlain_pushInstructions _) hpush
  obtain ⟨n, d, h₂, hmemory, hreg⟩ := exec_routines (d := pushed) halign hcheatWords
  rw [List.length_map, place_place] at h₂
  refine ⟨_, d, h₁.trans h₂, hmemory, ?_, ?_⟩
  · rw [hreg .sp (by decide), hpushed, Data.reg_store, Data.reg_set_self _ _ (by decide)]
  · intro r hr hne
    rw [hreg r hr, hpushed, Data.reg_store, Data.reg_set_of_ne _ _ hne]

theorem exec_stored (halign : ∀ codes ∈ lists, ∀ c ∈ codes, c.IsAligned)
    (hwords : p.Holds base ((storedInstructions lists).map Instruction.word))
    (hsp : (entry.reg .sp).toNat % 4 = 0)
    (hcheats : ∀ codes ∈ lists, ∀ c ∈ codes, ¬Within (entry.reg .sp - 16) 24 c.address) :
    ∃ n exit, Exec p (before base entry) n
        (before (place base (storedInstructions lists).length) exit) ∧
      exit.reg .sp = entry.reg .sp + 8 ∧
      exit.reg .t8 = entry.memory.word (entry.reg .sp) ∧
      exit.reg .t9 = entry.memory.word (entry.reg .sp + 4) ∧
      (∀ r, r ∉ [Register.t8, .t9, .sp] → exit.reg r = entry.reg r) ∧
      ∀ x, ¬Within (entry.reg .sp - 16) 16 x →
        exit.memory x = interpretAll lists entry.memory x := by
  have hlow : (entry.reg .sp - 16).toNat % 4 = 0 := by
    rw [UInt32.toNat_sub]
    simp only [UInt32.reduceToNat]
    omega
  rw [storedInstructions, ← List.append_assoc, List.map_append] at hwords
  obtain ⟨hfrontWords, hpopWords⟩ := Program.holds_append.1 hwords
  obtain ⟨n, d, h₁, hmemory, hstack, hreg⟩ := exec_cheats halign hfrontWords hsp
  have hframe : Frame d.memory (d.reg .sp) entry.reg scratchRegisters := by
    rw [hmemory, hstack]
    exact frame_interpretAll halign hlow hcheats
  obtain ⟨hfirst, hsecond⟩ := words_interpretAll halign hlow hcheats entry.memory entry.reg
  obtain ⟨exit, hpop, hmemory₁, hstack₁, ht8, ht9, hvalue, hother⟩ :=
    straight_popBoth (by rw [hstack]; exact hlow) hframe
  have hplain : ∀ i ∈ popInstructions scratchRegisters ++ popInstructions pointerRegisters,
      i.isPlain := List.forall_mem_append.2
    ⟨isPlain_popInstructions scratchRegisters, isPlain_popInstructions pointerRegisters⟩
  have h₂ := exec_straight hpopWords hplain hpop
  have hlength : (storedInstructions lists).length = 4 + (joinedInstructions lists).length +
      (popInstructions scratchRegisters ++ popInstructions pointerRegisters).length := by
    rw [storedInstructions, List.length_append, List.length_append, ← Nat.add_assoc]
    rfl
  have hfront : ((pushInstructions scratchRegisters ++ joinedInstructions lists).map
      Instruction.word).length = 4 + (joinedInstructions lists).length := by
    rw [List.length_map, List.length_append]
    rfl
  rw [hfront, place_place, ← hlength] at h₂
  refine ⟨_, exit, h₁.trans h₂, ?_, ?_, ?_, ?_, ?_⟩
  · rw [hstack₁, hstack]
    grind
  · have hplace : entry.reg .sp - 16 + 16 = entry.reg .sp := by grind
    rw [ht8, hstack, hmemory, hfirst, hplace]
  · have hplace : entry.reg .sp - 16 + 20 = entry.reg .sp + 4 := by grind
    rw [ht9, hstack, hmemory, hsecond, hplace]
  · intro r hr
    by_cases hscratch : r ∈ scratchRegisters
    · exact hvalue r hscratch
    · rw [hother r hscratch hr, hreg r hscratch]
      simp only [List.mem_cons, List.not_mem_nil, or_false, not_or] at hr
      exact hr.2.2
  · intro x hx
    rw [hmemory₁, hmemory]
    exact interpretAll_outside halign hlow hcheats hx

/-- What is stored for a session runs the cheats of its texts, each list on its own, and reaches the
displaced instructions with the registers of the game. -/
theorem storedRoutine_transparent {texts : List Text} {session : Session} {image : Bytes}
    {d : Descriptor} {stored : Except Storage.StoreError Bytes} {patch : Patch}
    (hsession : Session.empty.addTexts texts = .ok session)
    (hplan : plan image d session.joined stored = .ok patch) :
    ∃ lists front, List.Forall₂ (fun t codes => Listing.parse t = .ok codes) texts lists ∧
      patch.stored = Bytes.ofWords (front ++ (patch.displaced ++
        [(Instruction.jump .j (.ofAddress (d.siteAddress + 16))).word, Instruction.nop.word])) ∧
      patch.displaced.length = 4 ∧
      ∀ (p : Program) (base : UInt32) (entry : Data), p.Holds base (Bytes.words patch.stored) →
        (entry.reg .sp).toNat % 4 = 0 →
        (∀ codes ∈ lists, ∀ c ∈ codes, ¬Within (entry.reg .sp - 16) 24 c.address) →
        ∃ n exit, Exec p (before base entry) n (before (place base front.length) exit) ∧
          exit.reg .sp = entry.reg .sp + 8 ∧
          exit.reg .t8 = entry.memory.word (entry.reg .sp) ∧
          exit.reg .t9 = entry.memory.word (entry.reg .sp + 4) ∧
          (∀ r, r ∉ [Register.t8, .t9, .sp] → exit.reg r = entry.reg r) ∧
          ∀ x, ¬Within (entry.reg .sp - 16) 16 x →
            exit.memory x = interpretAll lists entry.memory x := by
  obtain ⟨lists, hlists, hjoined⟩ := Session.joined_addTexts hsession
  obtain ⟨current, jump, displaced, hcurrent, -, hdisplaced, -, rfl⟩ := plan_eq_ok.1 hplan
  have hstored : d.storedBytes session.joined displaced =
      Bytes.ofWords ((storedInstructions lists).map Instruction.word ++
        (displaced ++ d.returnWords)) := by
    rw [hjoined]
    simp [Descriptor.storedBytes, storedInstructions, prologueWords, epilogueWords]
  refine ⟨lists, (storedInstructions lists).map Instruction.word, hlists, hstored, ?_, ?_⟩
  · obtain ⟨hroom, rfl⟩ := part_eq_ok.1 hcurrent
    exact length_of_originalWords (length_siteOf hroom) hdisplaced
  · intro p base entry hwords hsp hcheats
    rw [hstored, Bytes.words_ofWords] at hwords
    rw [List.length_map]
    exact exec_stored (fun codes hcodes => Listing.isAligned_of_forall₂ hlists codes hcodes)
      (Program.holds_append.1 hwords).1 hsp hcheats

/-- Two texts, the first of which ends with a comparison. -/
theorem storedRoutine_transparent_twoTexts :
    ∃ session patch, Session.empty.addTexts ["D00F93AA 0001", "8025AA00 0005"] = .ok session ∧
      plan (List.replicate 16 0) .small session.joined (.error (.notFound ⟨10, 240⟩)) = .ok patch ∧
      ∃ n place exit, Exec (Program.ofWords 0x80700000 (Bytes.words patch.stored))
          (before 0x80700000 ⟨fun _ => 0x80200000, fun _ => 0⟩) n (before place exit) ∧
        exit.reg .sp = 0x80200008 ∧ exit.reg .t0 = 0x80200000 ∧ exit.memory 0x8025AA00 = 5 := by
  have hsession : Session.empty.addTexts ["D00F93AA 0001", "8025AA00 0005"] =
      .ok ⟨[Bytes.ofWords [0x3C088010, 0x910993AA, 0x340A0001, 0x152A0001, 0],
        Bytes.ofWords [0x3C088026, 0x34090005, 0xA109AA00]]⟩ := rfl
  have hfree : ¬Descriptor.small.IsHooked (List.replicate 16 0) :=
    (Descriptor.isHooked_iff (by decide)).not.2 (by decide)
  have hplan := plan_of_not_hooked hfree (by decide) (assemble_siteJump (by decide)) (by decide)
    (Session.joined
      ⟨[Bytes.ofWords [0x3C088010, 0x910993AA, 0x340A0001, 0x152A0001, 0],
        Bytes.ofWords [0x3C088026, 0x34090005, 0xA109AA00]]⟩) (.error (.notFound ⟨10, 240⟩))
  obtain ⟨lists, front, hlists, -, -, hruns⟩ := storedRoutine_transparent hsession hplan
  have hfirst : Listing.parse "D00F93AA 0001" = .ok [⟨.if8, 0x800F93AA, 1⟩] := rfl
  have hsecond : Listing.parse "8025AA00 0005" = .ok [⟨.write8, 0x8025AA00, 5⟩] := rfl
  obtain rfl : lists = [[⟨.if8, 0x800F93AA, 1⟩], [⟨.write8, 0x8025AA00, 5⟩]] := by
    cases hlists with
    | cons h₁ hrest =>
      cases hrest with
      | cons h₂ hrest =>
        cases hrest
        rw [hfirst] at h₁
        rw [hsecond] at h₂
        cases h₁
        cases h₂
        rfl
  obtain ⟨n, exit, hexec, hsp, -, -, hreg, hmemory⟩ := hruns _ 0x80700000
    ⟨fun _ => 0x80200000, fun _ => 0⟩ (Program.holds_ofWords _ (by decide)) (by decide) (by decide)
  refine ⟨_, _, hsession, hplan, n, _, exit, hexec, hsp, hreg .t0 (by decide), ?_⟩
  exact hmemory 0x8025AA00 (by decide)

end Runs

end CartPatch.Hook
