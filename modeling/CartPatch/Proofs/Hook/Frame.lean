import Mathlib.Tactic.Set
import CartPatch.Hook.Trampoline
import CartPatch.Proofs.Mips.Machine
import CartPatch.Proofs.Mips.Operand

/-!
Stack frames. Pushing registers makes room below the stack pointer and stores the registers there
in a row (`straight_push`); popping them loads the row and gives the room back (`straight_pop`).
Between the two the frame has to keep its words, and nothing else.
-/

namespace CartPatch.Hook

open Mips Assembler Numeral

def frameInstructions (op : MemoryOp) (slots : List (Register × ℕ)) : List Instruction :=
  slots.map fun s => .memory op s.1 (Int16.ofNat (s.2 * 4)) .sp

def pushInstructions (rs : List Register) : List Instruction :=
  .addiu .sp .sp (Int16.ofInt (-frameSize rs.length)) :: frameInstructions .sw rs.zipIdx

def popInstructions (rs : List Register) : List Instruction :=
  frameInstructions .lw rs.zipIdx ++ [.addiu .sp .sp (Int16.ofNat (frameSize rs.length))]

theorem frameSize_le {count : ℕ} (h : count ≤ 32) : frameSize count ≤ 128 := by
  unfold frameSize
  omega

theorem name_sp : (Register.sp.name : Text) = ['s', 'p'] := rfl

theorem parse_frameLine (op : MemoryOp) (r : Register) {i : ℕ} (hi : i < 32) :
    parse (((Mnemonic.memory op).name : Text) ++ ' ' :: (r.name : Text) ++ ", 0x" ++
      capitalHex 0 (i * 4) ++ "(sp)") = .ok (.memory op r (Int16.ofNat (i * 4)) .sp) := by
  have hline : ((Mnemonic.memory op).name : Text) ++ ' ' :: (r.name : Text) ++ ", 0x" ++
      capitalHex 0 (i * 4) ++ "(sp)" = line (.memory op) [(r.name : Text),
        ("0x" ++ capitalHex 0 (i * 4)) ++ '(' :: ((Register.sp.name : Text) ++ [')'])] := by
    simp [line, operandText, name_sp]
  have hopen := paren_not_mem_capitalHex 0 (i * 4)
  rw [hline]
  exact parse_memory (isOperand_capitalHex 0 _) (immediate_capitalHex (by omega)) op r .sp
    (by simpa using hopen) (signedHalf_natCast _ (by omega))

theorem assembles_frameLines (op : MemoryOp) {rs : List Register} (h : rs.length ≤ 32) :
    Assembles (frameLines (Mnemonic.memory op).name rs) (frameInstructions op rs.zipIdx) := by
  unfold Assembles frameLines frameInstructions
  rw [List.map_map, List.map_map]
  apply List.map_congr_left
  rintro ⟨r, i⟩ hs
  have hi := List.snd_lt_of_mem_zipIdx hs
  have hline := parse_frameLine op r (i := i) (by simpa using hi.trans_le h)
  simpa only [Function.comp_apply] using hline

theorem assembles_saveLines {rs : List Register} (h : rs.length ≤ 32) :
    Assembles (saveLines rs) (pushInstructions rs) := by
  have hsize := frameSize_le h
  have hline : ("addiu sp, sp, -0x" ++ capitalHex 0 (frameSize rs.length) : Text) =
      line .addiu [(Register.sp.name : Text), (Register.sp.name : Text),
        "-0x" ++ capitalHex 0 (frameSize rs.length)] := by
    simp [line, operandText, name_sp, Mnemonic.name]
  have hrange : -0x8000 ≤ -(frameSize rs.length : ℤ) ∧ -(frameSize rs.length : ℤ) < 0x8000 := by
    omega
  refine assembles_cons.2 ⟨?_, assembles_frameLines .sw h⟩
  rw [hline]
  refine parse_addiu (IsOperand.append (by decide) capitalHex_plain)
    (immediate_minus_capitalHex (by omega)) .sp .sp ?_
  rw [signedHalf, if_pos hrange]

theorem assembles_restoreLines {rs : List Register} (h : rs.length ≤ 32) :
    Assembles (restoreLines rs) (popInstructions rs) := by
  have hsize := frameSize_le h
  have hline : ("addiu sp, sp, 0x" ++ capitalHex 0 (frameSize rs.length) : Text) =
      line .addiu [(Register.sp.name : Text), (Register.sp.name : Text),
        "0x" ++ capitalHex 0 (frameSize rs.length)] := by
    simp [line, operandText, name_sp, Mnemonic.name]
  refine (assembles_frameLines .lw h).append (assembles_cons.2 ⟨?_, assembles_nil⟩)
  rw [hline]
  exact parse_addiu (isOperand_capitalHex 0 _) (immediate_capitalHex (by omega)) .sp .sp
    (signedHalf_natCast _ (by omega))

theorem isPlain_frameInstructions (op : MemoryOp) (slots : List (Register × ℕ)) :
    ∀ i ∈ frameInstructions op slots, i.isPlain := by
  intro i hi
  obtain ⟨s, _, rfl⟩ := List.mem_map.1 hi
  rfl

theorem isPlain_pushInstructions (rs : List Register) : ∀ i ∈ pushInstructions rs, i.isPlain := by
  simpa [pushInstructions, Instruction.isPlain] using isPlain_frameInstructions .sw rs.zipIdx

theorem isPlain_popInstructions (rs : List Register) : ∀ i ∈ popInstructions rs, i.isPlain := by
  intro i hi
  rcases List.mem_append.1 hi with hi | hi
  · exact isPlain_frameInstructions .lw rs.zipIdx i hi
  · obtain rfl := List.mem_singleton.1 hi
    rfl

/-- A frame in memory: the words from an address on are the values of registers. -/
def Frame (m : Memory) (a : UInt32) (value : Register → UInt32) (rs : List Register) : Prop :=
  ∀ s ∈ rs.zipIdx, m.word (place a s.2) = value s.1

theorem frame_write (m : Memory) (a : UInt32) (value : Register → UInt32) {rs : List Register}
    (h : rs.length ≤ 32) : Frame (m.write a (Bytes.ofWords (rs.map value))) a value rs := by
  rintro ⟨r, i⟩ hs
  have hi := List.snd_lt_of_mem_zipIdx hs
  have hr := List.fst_eq_of_mem_zipIdx hs
  rw [Memory.word_write_ofWords _ _ (by simpa using hi) (by simp; omega), List.getElem_map]
  simpa using congrArg value hr.symm

theorem Frame.congr {m m' : Memory} {a : UInt32} {value : Register → UInt32} {rs : List Register}
    (hframe : Frame m a value rs) (h : rs.length ≤ 32)
    (heq : ∀ x, Within a (4 * rs.length) x → m x = m' x) : Frame m' a value rs := by
  rintro ⟨r, i⟩ hs
  have hi := List.snd_lt_of_mem_zipIdx hs
  rw [← hframe _ hs]
  refine (Memory.word_congr fun x hx => heq x ?_).symm
  exact within_of_within_place hx (by simpa using hi) (by omega)

theorem Frame.pair {m : Memory} {a : UInt32} {value : Register → UInt32} {r r' : Register}
    (hframe : Frame m a value [r, r']) : m.word a = value r ∧ m.word (a + 4) = value r' := by
  have hfirst := hframe (r, 0) (by simp)
  have hsecond := hframe (r', 1) (by simp)
  rw [place_zero] at hfirst
  exact ⟨hfirst, hsecond⟩

theorem toNat_place_mod {a : UInt32} (ha : a.toNat % 4 = 0) (n : ℕ) :
    (place a n).toNat % 4 = 0 := by
  rw [place, UInt32.toNat_add, UInt32.toNat_ofNat']
  omega

theorem effect_frame (op : MemoryOp) (r : Register) {i : ℕ} {d : Data} (hop : op.size = 4)
    (hi : i < 0x2000) (halign : (d.reg .sp).toNat % 4 = 0) :
    (Instruction.memory op r (Int16.ofNat (i * 4)) .sp).effect d =
      some (op.perform r (place (d.reg .sp) i) d) := by
  have hplace : d.reg .sp + signed (Int16.ofNat (i * 4)) = place (d.reg .sp) i := by
    rw [signed_ofNat (by omega), place, Nat.mul_comm]
  simp only [Instruction.effect, hplace, hop, toNat_place_mod halign i, if_true]

theorem store_nil (d : Data) (a : UInt32) : d.store a [] = d := by
  simp [Data.store, Memory.write_nil]

theorem store_store (d : Data) (a : UInt32) {xs ys : Bytes}
    (hsize : xs.length + ys.length ≤ 0x100000000) :
    (d.store a xs).store (a + UInt32.ofNat xs.length) ys = d.store a (xs ++ ys) := by
  simp [Data.store, Memory.write_append _ _ hsize]

theorem straight_stores {rs : List Register} {k : ℕ} {d : Data} (hk : k + rs.length ≤ 0x2000)
    (halign : (d.reg .sp).toNat % 4 = 0) :
    straight (frameInstructions .sw (rs.zipIdx k)) d =
      some (d.store (place (d.reg .sp) k) (Bytes.ofWords (rs.map d.reg))) := by
  induction rs generalizing k d with
  | nil => simp [frameInstructions, store_nil]
  | cons r rs ih =>
    rw [List.length_cons] at hk
    have hhead := effect_frame .sw r rfl (by omega : k < 0x2000) halign
    have htail := ih (k := k + 1)
      (d := MemoryOp.perform .sw r (place (d.reg .sp) k) d) (by omega) halign
    have hreg : (d.store (place (d.reg .sp) k) (Bytes.ofWord (d.reg r))).reg = d.reg := rfl
    have hlength : (Bytes.ofWord (d.reg r)).length + (Bytes.ofWords (rs.map d.reg)).length ≤
        0x100000000 := by
      simp only [Bytes.length_ofWord, Bytes.length_ofWords, List.length_map]
      omega
    have hjoin := store_store d (place (d.reg .sp) k) hlength
    simp only [frameInstructions, List.zipIdx_cons, List.map_cons, straight_cons] at htail ⊢
    rw [hhead, Option.bind_some, htail]
    simp only [MemoryOp.perform, hreg, place_succ]
    exact congrArg some hjoin

theorem straight_loads {slots : List (Register × ℕ)} {value : Register → UInt32} {d : Data}
    (hslots : ∀ s ∈ slots, s.1 ≠ .zero ∧ s.1 ≠ .sp ∧ s.2 < 0x2000)
    (halign : (d.reg .sp).toNat % 4 = 0)
    (hframe : ∀ s ∈ slots, d.memory.word (place (d.reg .sp) s.2) = value s.1) :
    ∃ d', straight (frameInstructions .lw slots) d = some d' ∧ d'.memory = d.memory ∧
      (∀ r ∈ slots.map Prod.fst, d'.reg r = value r) ∧
      ∀ r, r ∉ slots.map Prod.fst → d'.reg r = d.reg r := by
  induction slots generalizing d with
  | nil => exact ⟨d, rfl, rfl, by simp, by simp⟩
  | cons s slots ih =>
    obtain ⟨hzero, hsp, hbound⟩ := hslots s List.mem_cons_self
    have hhead := effect_frame .lw s.1 rfl hbound halign
    have hvalue := hframe s List.mem_cons_self
    have hkept : (d.set s.1 (value s.1)).reg .sp = d.reg .sp := Data.reg_set_of_ne _ _ hsp.symm
    obtain ⟨d', hrun, hmemory, hloaded, hother⟩ := ih (d := d.set s.1 (value s.1))
      (fun t ht => hslots t (List.mem_cons_of_mem s ht)) (by rwa [hkept])
      (fun t ht => by simpa [hkept] using hframe t (List.mem_cons_of_mem s ht))
    refine ⟨d', ?_, hmemory, ?_, ?_⟩
    · simp only [frameInstructions, List.map_cons, straight_cons] at hrun ⊢
      rw [hhead, Option.bind_some, MemoryOp.perform, hvalue, hrun]
    · intro r hr
      by_cases hlater : r ∈ slots.map Prod.fst
      · exact hloaded r hlater
      · obtain rfl : r = s.1 := (List.mem_cons.1 hr).resolve_right hlater
        rw [hother _ hlater, Data.reg_set_self _ _ hzero]
    · intro r hr
      rw [List.map_cons, List.mem_cons, not_or] at hr
      rw [hother r hr.2, Data.reg_set_of_ne _ _ hr.1]

/-- Pushing registers makes a frame of them below the stack pointer. -/
theorem straight_push {rs : List Register} {d : Data} (h : rs.length ≤ 32) (hsp : .sp ∉ rs)
    (halign : (d.reg .sp).toNat % 4 = 0) :
    straight (pushInstructions rs) d =
      some ((d.set .sp (d.reg .sp - UInt32.ofNat (frameSize rs.length))).store
        (d.reg .sp - UInt32.ofNat (frameSize rs.length)) (Bytes.ofWords (rs.map d.reg))) := by
  have hsize := frameSize_le h
  set top := d.reg .sp - UInt32.ofNat (frameSize rs.length) with htop
  have heffect : (Instruction.addiu .sp .sp (Int16.ofInt (-frameSize rs.length))).effect d =
      some (d.set .sp top) := by
    rw [Instruction.effect, signed_ofInt_neg (by omega), htop, UInt32.sub_eq_add_neg]
  have hnew : (d.set .sp top).reg .sp = top := Data.reg_set_self _ _ (by decide)
  have hsame : rs.map (d.set .sp top).reg = rs.map d.reg :=
    List.map_congr_left fun r hr => Data.reg_set_of_ne _ _ (ne_of_mem_of_not_mem hr hsp)
  have htopAlign : top.toNat % 4 = 0 := by
    have hframe : frameSize rs.length % 4 = 0 := by
      unfold frameSize
      omega
    rw [htop, UInt32.toNat_sub, UInt32.toNat_ofNat']
    omega
  have hstores := straight_stores (k := 0) (by omega : 0 + rs.length ≤ 0x2000)
    (by rwa [hnew] : ((d.set .sp top).reg .sp).toNat % 4 = 0)
  rw [hnew, hsame, place_zero] at hstores
  rw [pushInstructions, straight_cons, heffect, Option.bind_some, hstores]

theorem straight_pop {rs : List Register} {value : Register → UInt32} {d : Data}
    (h : rs.length ≤ 32) (hrs : ∀ r ∈ rs, r ≠ .zero ∧ r ≠ .sp)
    (halign : (d.reg .sp).toNat % 4 = 0) (hframe : Frame d.memory (d.reg .sp) value rs) :
    ∃ d', straight (popInstructions rs) d = some d' ∧ d'.memory = d.memory ∧
      d'.reg .sp = d.reg .sp + UInt32.ofNat (frameSize rs.length) ∧
      (∀ r ∈ rs, d'.reg r = value r) ∧ ∀ r, r ∉ rs → r ≠ .sp → d'.reg r = d.reg r := by
  have hsize := frameSize_le h
  have hslots : ∀ s ∈ rs.zipIdx, s.1 ≠ .zero ∧ s.1 ≠ .sp ∧ s.2 < 0x2000 := by
    intro s hs
    have hbound := List.snd_lt_of_mem_zipIdx hs
    have hr := hrs s.1 (List.fst_mem_of_mem_zipIdx hs)
    exact ⟨hr.1, hr.2, by omega⟩
  obtain ⟨d₁, hrun, hmemory, hloaded, hother⟩ := straight_loads hslots halign hframe
  rw [List.zipIdx_map_fst] at hloaded hother
  have hsp : d₁.reg .sp = d.reg .sp := hother _ fun hmem => (hrs _ hmem).2 rfl
  refine ⟨d₁.set .sp (d.reg .sp + UInt32.ofNat (frameSize rs.length)), ?_, hmemory, ?_, ?_, ?_⟩
  · rw [popInstructions, straight_append, hrun]
    simp [Instruction.effect, signed_ofNat (by omega : frameSize rs.length < 0x8000), hsp]
  · exact Data.reg_set_self _ _ (by decide)
  · intro r hr
    rw [Data.reg_set_of_ne _ _ (hrs r hr).2, hloaded r hr]
  · intro r hr hne
    rw [Data.reg_set_of_ne _ _ hne, hother r hr]

end CartPatch.Hook
