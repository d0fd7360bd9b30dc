import CartPatch.Proofs.Mips.Immediate

/-!
What a line of assembly text says, apart from how it is read: a mnemonic, registers and a number,
which need not fit its field. A line is assembled when what it says is in range, and then to the
word of that instruction (`assemble_eq_ok`).

The numbers of a line are spelled in any way that the assembler reads. Where a minus sign stands
inside the spelling, the line is assembled although its number is not well signed.
-/

namespace CartPatch.Mips

open Text Numeral Outcome

/-- An instruction as a line says it. An offset counts what it counts in the instruction; a jump has
the whole address. -/
inductive Statement where
  | nop
  | jr (rs : Register)
  | addiu (rt rs : Register) (value : ℤ)
  | ori (rt rs : Register) (value : ℤ)
  | lui (rt : Register) (value : ℤ)
  | memory (op : MemoryOp) (rt : Register) (offset : ℤ) (base : Register)
  | branch (op : BranchOp) (rs rt : Register) (offset : ℤ)
  | jump (op : JumpOp) (address : ℤ)
  deriving DecidableEq

namespace Statement

def mnemonic : Statement → Mnemonic
  | nop => .nop
  | jr _ => .jr
  | addiu _ _ _ => .addiu
  | ori _ _ _ => .ori
  | lui _ _ => .lui
  | memory op _ _ _ => .memory op
  | branch op _ _ _ => .branch op
  | jump op _ => .jump op

/-- Whether the number fits: a half word with or without a sign, or the address of a word. -/
def InRange : Statement → Prop
  | nop | jr _ => True
  | addiu _ _ v | memory _ _ v _ | branch _ _ _ v => -0x8000 ≤ v ∧ v < 0x8000
  | ori _ _ v | lui _ v => 0 ≤ v ∧ v < 0x10000
  | jump _ v => 0 ≤ v ∧ v < 0x100000000 ∧ v % 4 = 0

instance (st : Statement) : Decidable st.InRange := by
  cases st <;> unfold InRange <;> infer_instance

def instruction : Statement → Instruction
  | nop => .nop
  | jr rs => .jr rs
  | addiu rt rs v => .addiu rt rs (Int16.ofInt v)
  | ori rt rs v => .ori rt rs (UInt16.ofNat v.toNat)
  | lui rt v => .lui rt (UInt16.ofNat v.toNat)
  | memory op rt v base => .memory op rt (Int16.ofInt v) base
  | branch op rs rt v => .branch op rs rt (Int16.ofInt v)
  | jump op v => .jump op (.ofAddress (UInt32.ofNat v.toNat))

end Statement

namespace Assembler

/-- An offset with a base behind it in parentheses; no offset means zero. -/
def Place (Spells : Text → ℤ → Prop) (t : Text) (v : ℤ) (base : Register) : Prop :=
  ∃ before name : Text, t = before ++ '(' :: (name ++ [')']) ∧ '(' ∉ before ∧
    Register.ofText? name = some base ∧
    if trim before = [] then v = 0 else Spells (trim before) v

/-- The operands of a statement, with numbers spelled in a given way. -/
inductive Operands (Spells : Text → ℤ → Prop) : List Text → Statement → Prop where
  | nop : Operands Spells [] .nop
  | jr {s : Text} {rs : Register} (hs : Register.ofText? s = some rs) :
      Operands Spells [s] (.jr rs)
  | addiu {t s i : Text} {rt rs : Register} {v : ℤ} (ht : Register.ofText? t = some rt)
      (hs : Register.ofText? s = some rs) (hi : Spells i v) :
      Operands Spells [t, s, i] (.addiu rt rs v)
  | ori {t s i : Text} {rt rs : Register} {v : ℤ} (ht : Register.ofText? t = some rt)
      (hs : Register.ofText? s = some rs) (hi : Spells i v) :
      Operands Spells [t, s, i] (.ori rt rs v)
  | lui {t i : Text} {rt : Register} {v : ℤ} (ht : Register.ofText? t = some rt)
      (hi : Spells i v) : Operands Spells [t, i] (.lui rt v)
  | memory (op : MemoryOp) {t p : Text} {rt base : Register} {v : ℤ}
      (ht : Register.ofText? t = some rt) (hp : Place Spells p v base) :
      Operands Spells [t, p] (.memory op rt v base)
  | branch (op : BranchOp) {s t i : Text} {rs rt : Register} {v : ℤ}
      (hs : Register.ofText? s = some rs) (ht : Register.ofText? t = some rt)
      (hi : Spells i v) : Operands Spells [s, t, i] (.branch op rs rt v)
  | jump (op : JumpOp) {i : Text} {v : ℤ} (hi : Spells i v) : Operands Spells [i] (.jump op v)

structure Says (Spells : Text → ℤ → Prop) (l : Text) (st : Statement) : Prop where
  mnemonic : Mnemonic.ofText? (command l).1 = some st.mnemonic
  operands : Operands Spells (operands (command l).2) st

section Spelling

variable {A B : Text → ℤ → Prop} {t l : Text} {v : ℤ} {base : Register} {ops : List Text}
  {st : Statement}

theorem Place.mono (hAB : ∀ t v, A t v → B t v) (h : Place A t v base) : Place B t v base := by
  obtain ⟨before, name, ht, hopen, hname, h⟩ := h
  refine ⟨before, name, ht, hopen, hname, ?_⟩
  split at h
  · rwa [if_pos ‹_›]
  · rw [if_neg ‹_›]
    exact hAB _ _ h

theorem Operands.mono (hAB : ∀ t v, A t v → B t v) (h : Operands A ops st) :
    Operands B ops st := by
  cases h with
  | nop => exact .nop
  | jr hs => exact .jr hs
  | addiu ht hs hi => exact .addiu ht hs (hAB _ _ hi)
  | ori ht hs hi => exact .ori ht hs (hAB _ _ hi)
  | lui ht hi => exact .lui ht (hAB _ _ hi)
  | memory op ht hp => exact .memory op ht (hp.mono hAB)
  | branch op hs ht hi => exact .branch op hs ht (hAB _ _ hi)
  | jump op hi => exact .jump op (hAB _ _ hi)

theorem place_or (h : Place (fun t v => A t v ∨ B t v) t v base) :
    Place A t v base ∨ Place B t v base := by
  obtain ⟨before, name, ht, hopen, hname, h⟩ := h
  by_cases hempty : trim before = []
  · rw [if_pos hempty] at h
    exact .inl ⟨before, name, ht, hopen, hname, by rwa [if_pos hempty]⟩
  · rw [if_neg hempty] at h
    refine h.imp (fun h => ?_) (fun h => ?_)
    · exact ⟨before, name, ht, hopen, hname, by rwa [if_neg hempty]⟩
    · exact ⟨before, name, ht, hopen, hname, by rwa [if_neg hempty]⟩

/-- A statement has one number at most, so it is spelled in one way or in the other. -/
theorem operands_or (h : Operands (fun t v => A t v ∨ B t v) ops st) :
    Operands A ops st ∨ Operands B ops st := by
  cases h with
  | nop => exact .inl .nop
  | jr hs => exact .inl (.jr hs)
  | addiu ht hs hi => exact hi.imp (.addiu ht hs) (.addiu ht hs)
  | ori ht hs hi => exact hi.imp (.ori ht hs) (.ori ht hs)
  | lui ht hi => exact hi.imp (.lui ht) (.lui ht)
  | memory op ht hp => exact (place_or hp).imp (.memory op ht) (.memory op ht)
  | branch op hs ht hi => exact hi.imp (.branch op hs ht) (.branch op hs ht)
  | jump op hi => exact hi.imp (.jump op) (.jump op)

theorem says_or : Says (fun t v => A t v ∨ B t v) l st ↔ Says A l st ∨ Says B l st := by
  constructor
  · rintro ⟨hm, h⟩
    exact (operands_or h).imp (.mk hm) (.mk hm)
  · rintro (⟨hm, h⟩ | ⟨hm, h⟩)
    · exact ⟨hm, h.mono fun _ _ => .inl⟩
    · exact ⟨hm, h.mono fun _ _ => .inr⟩

theorem Place.unique (hA : Unambiguous A) {v' : ℤ} {base' : Register} (h : Place A t v base)
    (h' : Place A t v' base') : v = v' ∧ base = base' := by
  obtain ⟨before, name, rfl, hopen, hname, h⟩ := h
  obtain ⟨before', name', ht, hopen', hname', h'⟩ := h'
  have heq := cut?_of_not_mem hopen (name ++ [')'])
  rw [ht, cut?_of_not_mem hopen'] at heq
  simp only [Option.some.injEq, Prod.mk.injEq, List.append_cancel_right_eq] at heq
  obtain ⟨rfl, rfl⟩ := heq
  refine ⟨?_, Option.some.inj (hname.symm.trans hname')⟩
  split at h
  · rw [if_pos ‹_›] at h'
    exact h.trans h'.symm
  · rw [if_neg ‹_›] at h'
    exact hA h h'

theorem Operands.unique (hA : Unambiguous A) {st' : Statement} (h : Operands A ops st)
    (h' : Operands A ops st') (hm : st.mnemonic = st'.mnemonic) : st = st' := by
  have hregister {t : Text} {r r' : Register} (h : Register.ofText? t = some r)
      (h' : Register.ofText? t = some r') : r = r' := Option.some.inj (h.symm.trans h')
  cases h with
  | nop =>
    cases h'
    rfl
  | jr hs =>
    cases h' with
    | jr hs' => rw [hregister hs hs']
    | jump => cases hm
  | addiu ht hs hi =>
    cases h' with
    | addiu ht' hs' hi' => rw [hregister ht ht', hregister hs hs', hA hi hi']
    | ori | branch => cases hm
  | ori ht hs hi =>
    cases h' with
    | ori ht' hs' hi' => rw [hregister ht ht', hregister hs hs', hA hi hi']
    | addiu | branch => cases hm
  | lui ht hi =>
    cases h' with
    | lui ht' hi' => rw [hregister ht ht', hA hi hi']
    | memory => cases hm
  | memory op ht hp =>
    cases h' with
    | memory op' ht' hp' =>
      cases hm
      obtain ⟨rfl, rfl⟩ := hp.unique hA hp'
      rw [hregister ht ht']
    | lui => cases hm
  | branch op hs ht hi =>
    cases h' with
    | branch op' hs' ht' hi' =>
      cases hm
      rw [hregister hs hs', hregister ht ht', hA hi hi']
    | addiu | ori => cases hm
  | jump op hi =>
    cases h' with
    | jump op' hi' =>
      cases hm
      rw [hA hi hi']
    | jr => cases hm

theorem Says.unique (hA : Unambiguous A) {st' : Statement} (h : Says A l st) (h' : Says A l st') :
    st = st' :=
  h.operands.unique hA h'.operands (Option.some.inj (h.mnemonic.symm.trans h'.mnemonic))

end Spelling

section Reading

variable {t l : Text} {v : ℤ} {r base : Register} {m : Mnemonic} {ops : List Text} {st : Statement}
  {i : Instruction} {w : UInt32}

theorem register_eq_ok : register t = .ok r ↔ Register.ofText? t = some r := by
  rw [register]
  cases Register.ofText? t <;> simp

theorem signedHalf_eq_ok {half : Int16} : signedHalf m v = .ok half ↔
    (-0x8000 ≤ v ∧ v < 0x8000) ∧ Int16.ofInt v = half := by
  rw [signedHalf]
  split <;> simp [*]

theorem unsignedHalf_eq_ok {half : UInt16} : unsignedHalf m v = .ok half ↔
    (0 ≤ v ∧ v < 0x10000) ∧ UInt16.ofNat v.toNat = half := by
  rw [unsignedHalf]
  split <;> simp [*]

theorem immediate_eq_ok_of_trim (ht : trim t = t) (hv : v.natAbs < 0x8000000000000000) :
    immediate t = .ok v ↔ Spelled t v := by
  rw [immediate_eq_ok hv, ht]

theorem jumpTarget_eq_ok (ht : trim t = t) {target : JumpTarget} : jumpTarget t = .ok target ↔
    ∃ v, Spelled t v ∧ (0 ≤ v ∧ v < 0x100000000 ∧ v % 4 = 0) ∧
      .ofAddress (UInt32.ofNat v.toNat) = target := by
  rw [jumpTarget, bind_eq_ok]
  constructor
  · rintro ⟨v, hv, h⟩
    split at h
    · cases h
    · rename_i hrange
      split at h
      · cases h
      · cases h
        refine ⟨v, (immediate_eq_ok_of_trim ht ?_).1 hv, ?_, rfl⟩ <;> omega
  · rintro ⟨v, hv, ⟨hlow, hhigh, haligned⟩, rfl⟩
    refine ⟨v, (immediate_eq_ok_of_trim ht (by omega)).2 hv, ?_⟩
    rw [if_neg (by omega), if_neg (by omega)]

theorem signedHalf_eq_ok_of_trim (ht : trim t = t) {half : Int16} :
    immediate t = .ok v ∧ signedHalf m v = .ok half ↔
      Spelled t v ∧ (-0x8000 ≤ v ∧ v < 0x8000) ∧ Int16.ofInt v = half := by
  rw [signedHalf_eq_ok]
  refine and_congr_left fun h => immediate_eq_ok_of_trim ht ?_
  omega

theorem unsignedHalf_eq_ok_of_trim (ht : trim t = t) {half : UInt16} :
    immediate t = .ok v ∧ unsignedHalf m v = .ok half ↔
      Spelled t v ∧ (0 ≤ v ∧ v < 0x10000) ∧ UInt16.ofNat v.toNat = half := by
  rw [unsignedHalf_eq_ok]
  refine and_congr_left fun h => immediate_eq_ok_of_trim ht ?_
  omega

theorem memoryOperand_eq_ok (ht : trim t = t) (hv : v.natAbs < 0x8000000000000000) :
    memoryOperand t = .ok (v, base) ↔ Place Spelled t v base := by
  constructor
  · intro h
    rw [memoryOperand, ht] at h
    dsimp only at h
    split at h
    · rename_i before behind hcut
      split at h
      · rename_i hlast
        obtain ⟨rfl, hopen⟩ := cut?_eq_some.1 hcut
        obtain ⟨name, rfl⟩ := List.getLast?_eq_some_iff.1 hlast
        rw [List.dropLast_concat] at h
        refine ⟨before, name, rfl, hopen, ?_⟩
        split at h
        · rename_i hempty
          obtain ⟨_, h0, h⟩ := bind_eq_ok.1 h
          cases h0
          obtain ⟨r, hr, h⟩ := bind_eq_ok.1 h
          cases h
          rw [if_pos (List.isEmpty_iff.1 hempty)]
          exact ⟨register_eq_ok.1 hr, rfl⟩
        · rename_i hempty
          rw [List.isEmpty_iff] at hempty
          obtain ⟨offset, hoffset, h⟩ := bind_eq_ok.1 h
          obtain ⟨r, hr, h⟩ := bind_eq_ok.1 h
          cases h
          rw [if_neg hempty]
          exact ⟨register_eq_ok.1 hr, (immediate_eq_ok_of_trim (trim_trim before) hv).1 hoffset⟩
      · cases h
    · cases h
  · rintro ⟨before, name, rfl, hopen, hname, h⟩
    have hlast : (name ++ [')']).getLast? = some ')' := List.getLast?_concat
    rw [memoryOperand, ht, cut?_of_not_mem hopen]
    dsimp only
    rw [hlast, List.dropLast_concat]
    split at h
    · rename_i hempty
      subst h
      rw [if_pos (List.isEmpty_iff.2 hempty), bind_of_ok rfl, bind_of_ok (register_eq_ok.2 hname)]
      rfl
    · rename_i hempty
      have hoffset := (immediate_eq_ok_of_trim (trim_trim before) hv).2 h
      rw [if_neg (by simpa using hempty), bind_of_ok hoffset, bind_of_ok (register_eq_ok.2 hname)]
      rfl

theorem exists_statement_of_instruction (hops : ∀ op ∈ ops, trim op = op)
    (h : instruction m ops = .ok i) : ∃ st : Statement,
      st.mnemonic = m ∧ Operands Spelled ops st ∧ st.InRange ∧ st.instruction = i := by
  unfold instruction at h
  split at h
  · cases h
    exact ⟨.nop, rfl, .nop, trivial, rfl⟩
  · obtain ⟨rs, hs, h⟩ := bind_eq_ok.1 h
    cases h
    exact ⟨.jr rs, rfl, .jr (register_eq_ok.1 hs), trivial, rfl⟩
  · rename_i t s i
    obtain ⟨rs, hs, h⟩ := bind_eq_ok.1 h
    obtain ⟨rt, ht, h⟩ := bind_eq_ok.1 h
    obtain ⟨v, hv, h⟩ := bind_eq_ok.1 h
    obtain ⟨half, hhalf, h⟩ := bind_eq_ok.1 h
    cases h
    obtain ⟨hi, hrange, rfl⟩ := (signedHalf_eq_ok_of_trim (hops i (by simp))).1 ⟨hv, hhalf⟩
    exact ⟨.addiu rt rs v, rfl, .addiu (register_eq_ok.1 ht) (register_eq_ok.1 hs) hi, hrange, rfl⟩
  · rename_i t s i
    obtain ⟨rs, hs, h⟩ := bind_eq_ok.1 h
    obtain ⟨rt, ht, h⟩ := bind_eq_ok.1 h
    obtain ⟨v, hv, h⟩ := bind_eq_ok.1 h
    obtain ⟨half, hhalf, h⟩ := bind_eq_ok.1 h
    cases h
    obtain ⟨hi, hrange, rfl⟩ := (unsignedHalf_eq_ok_of_trim (hops i (by simp))).1 ⟨hv, hhalf⟩
    exact ⟨.ori rt rs v, rfl, .ori (register_eq_ok.1 ht) (register_eq_ok.1 hs) hi, hrange, rfl⟩
  · rename_i t i
    obtain ⟨rt, ht, h⟩ := bind_eq_ok.1 h
    obtain ⟨v, hv, h⟩ := bind_eq_ok.1 h
    obtain ⟨half, hhalf, h⟩ := bind_eq_ok.1 h
    cases h
    obtain ⟨hi, hrange, rfl⟩ := (unsignedHalf_eq_ok_of_trim (hops i (by simp))).1 ⟨hv, hhalf⟩
    exact ⟨.lui rt v, rfl, .lui (register_eq_ok.1 ht) hi, hrange, rfl⟩
  · rename_i op t p
    obtain ⟨⟨v, base⟩, hp, h⟩ := bind_eq_ok.1 h
    obtain ⟨rt, ht, h⟩ := bind_eq_ok.1 h
    obtain ⟨half, hhalf, h⟩ := bind_eq_ok.1 h
    cases h
    obtain ⟨hrange, rfl⟩ := signedHalf_eq_ok.1 hhalf
    have hplace := (memoryOperand_eq_ok (hops p (by simp)) (by omega)).1 hp
    exact ⟨.memory op rt v base, rfl, .memory op (register_eq_ok.1 ht) hplace, hrange, rfl⟩
  · rename_i op s t i
    obtain ⟨rs, hs, h⟩ := bind_eq_ok.1 h
    obtain ⟨rt, ht, h⟩ := bind_eq_ok.1 h
    obtain ⟨v, hv, h⟩ := bind_eq_ok.1 h
    obtain ⟨half, hhalf, h⟩ := bind_eq_ok.1 h
    cases h
    obtain ⟨hi, hrange, rfl⟩ := (signedHalf_eq_ok_of_trim (hops i (by simp))).1 ⟨hv, hhalf⟩
    exact ⟨.branch op rs rt v, rfl, .branch op (register_eq_ok.1 hs) (register_eq_ok.1 ht) hi,
      hrange, rfl⟩
  · rename_i op i
    obtain ⟨target, htarget, h⟩ := bind_eq_ok.1 h
    cases h
    obtain ⟨v, hi, hrange, rfl⟩ := (jumpTarget_eq_ok (hops i (by simp))).1 htarget
    exact ⟨.jump op v, rfl, .jump op hi, hrange, rfl⟩
  · cases h

theorem Operands.instruction_eq (hops : ∀ op ∈ ops, trim op = op) (h : Operands Spelled ops st)
    (hrange : st.InRange) : Assembler.instruction st.mnemonic ops = .ok st.instruction := by
  cases h with
  | nop => rfl
  | @jr s rs hs =>
    change Assembler.instruction .jr [s] = _
    rw [Assembler.instruction, bind_of_ok (register_eq_ok.2 hs)]
    rfl
  | @addiu t s i rt rs v ht hs hi =>
    obtain ⟨hv, hhalf⟩ := (signedHalf_eq_ok_of_trim (m := .addiu) (hops i (by simp))).2
      ⟨hi, hrange, rfl⟩
    change Assembler.instruction .addiu [t, s, i] = _
    rw [Assembler.instruction, bind_of_ok (register_eq_ok.2 hs), bind_of_ok (register_eq_ok.2 ht),
      bind_of_ok hv, bind_of_ok hhalf]
    rfl
  | @ori t s i rt rs v ht hs hi =>
    obtain ⟨hv, hhalf⟩ := (unsignedHalf_eq_ok_of_trim (m := .ori) (hops i (by simp))).2
      ⟨hi, hrange, rfl⟩
    change Assembler.instruction .ori [t, s, i] = _
    rw [Assembler.instruction, bind_of_ok (register_eq_ok.2 hs), bind_of_ok (register_eq_ok.2 ht),
      bind_of_ok hv, bind_of_ok hhalf]
    rfl
  | @lui t i rt v ht hi =>
    obtain ⟨hv, hhalf⟩ := (unsignedHalf_eq_ok_of_trim (m := .lui) (hops i (by simp))).2
      ⟨hi, hrange, rfl⟩
    change Assembler.instruction .lui [t, i] = _
    rw [Assembler.instruction, bind_of_ok (register_eq_ok.2 ht), bind_of_ok hv, bind_of_ok hhalf]
    rfl
  | @memory op t p rt base v ht hp =>
    have hhalf := (signedHalf_eq_ok (m := .memory op)).2 ⟨hrange, rfl⟩
    obtain ⟨hlow, hhigh⟩ := hrange
    have hplace := (memoryOperand_eq_ok (hops p (by simp)) (by omega)).2 hp
    change Assembler.instruction (.memory op) [t, p] = _
    rw [Assembler.instruction, bind_of_ok hplace]
    dsimp only
    rw [bind_of_ok (register_eq_ok.2 ht), bind_of_ok hhalf]
    rfl
  | @branch op s t i rs rt v hs ht hi =>
    obtain ⟨hv, hhalf⟩ := (signedHalf_eq_ok_of_trim (m := .branch op) (hops i (by simp))).2
      ⟨hi, hrange, rfl⟩
    change Assembler.instruction (.branch op) [s, t, i] = _
    rw [Assembler.instruction, bind_of_ok (register_eq_ok.2 hs), bind_of_ok (register_eq_ok.2 ht),
      bind_of_ok hv, bind_of_ok hhalf]
    rfl
  | @jump op i v hi =>
    have htarget := (jumpTarget_eq_ok (hops i (by simp))).2 ⟨v, hi, hrange, rfl⟩
    change Assembler.instruction (.jump op) [i] = _
    rw [Assembler.instruction, bind_of_ok htarget]
    rfl

theorem trim_of_mem_operands {op : Text} (h : op ∈ operands t) : trim op = op := by
  rw [operands] at h
  split at h
  · cases h
  · obtain ⟨piece, -, rfl⟩ := List.mem_map.1 h
    exact trim_trim piece

/-- A line is read as what it says, when that is in range. -/
theorem parse_eq_ok :
    parse l = .ok i ↔ ∃ st : Statement, Says Spelled l st ∧ st.InRange ∧ st.instruction = i := by
  rw [parse_eq]
  cases hm : Mnemonic.ofText? (command l).1 with
  | none =>
    refine iff_of_false (fun h => by cases h) ?_
    rintro ⟨st, h, -⟩
    exact absurd (hm.symm.trans h.mnemonic) (by simp)
  | some m =>
    dsimp only
    constructor
    · intro h
      obtain ⟨st, rfl, hops, hrange, rfl⟩ :=
        exists_statement_of_instruction (fun op => trim_of_mem_operands) h
      exact ⟨st, ⟨hm, hops⟩, hrange, rfl⟩
    · rintro ⟨st, h, hrange, rfl⟩
      obtain rfl : st.mnemonic = m := Option.some.inj (h.mnemonic.symm.trans hm)
      exact h.operands.instruction_eq (fun op => trim_of_mem_operands) hrange

theorem assemble_eq_ok : assemble l = .ok w ↔
    ∃ st : Statement, Says Spelled l st ∧ st.InRange ∧ st.instruction.word = w := by
  rw [assemble, map_eq_ok]
  simp only [parse_eq_ok]
  constructor
  · rintro ⟨i, ⟨st, h, hrange, rfl⟩, rfl⟩
    exact ⟨st, h, hrange, rfl⟩
  · rintro ⟨st, h, hrange, rfl⟩
    exact ⟨_, ⟨st, h, hrange, rfl⟩, rfl⟩

end Reading

/-- A line is assembled when what it says is in range, with a number that is well signed or that has
a minus sign inside; no spelling is of both kinds. So the lines that are assembled are just those
with well signed numbers, unless it is a minus sign inside that makes a line say something. -/
theorem assemble_iff_wellSigned_or_minusInside (l : Text) :
    (∀ w, assemble l = .ok w ↔ ∃ st : Statement,
      (Says WellSigned l st ∨ Says MinusInside l st) ∧ st.InRange ∧ st.instruction.word = w) ∧
    (∀ t v v', ¬(WellSigned t v ∧ MinusInside t v')) ∧
    ((∀ w, assemble l = .ok w ↔ ∃ st : Statement,
      Says WellSigned l st ∧ st.InRange ∧ st.instruction.word = w) ↔
        ¬∃ st : Statement, Says MinusInside l st ∧ st.InRange ∧ ¬Says WellSigned l st) := by
  have hassemble (w : UInt32) : assemble l = .ok w ↔ ∃ st : Statement,
      (Says WellSigned l st ∨ Says MinusInside l st) ∧ st.InRange ∧ st.instruction.word = w := by
    simp only [← says_or]
    exact assemble_eq_ok
  refine ⟨hassemble, fun t v v' ⟨h, h'⟩ => h.not_minusInside h', fun h => ?_, fun h w => ?_⟩
  · rintro ⟨st, hinside, hrange, hnot⟩
    obtain ⟨st', hwell, -, -⟩ := (h _).1 ((hassemble _).2 ⟨st, .inr hinside, hrange, rfl⟩)
    have hst : st = st' :=
      Says.unique spelled_unambiguous (says_or.2 (.inr hinside)) (says_or.2 (.inl hwell))
    exact hnot (hst ▸ hwell)
  · rw [hassemble]
    refine exists_congr fun st => and_congr_left fun ⟨hrange, _⟩ => ⟨fun hsays => ?_, .inl⟩
    exact hsays.elim id fun hinside => by_contra fun hnot => h ⟨st, hinside, hrange, hnot⟩

/-- Two minus signs are read as none. -/
theorem assemble_minus_minus :
    assemble "addiu t0, t0, --5" = .ok 0x25080005 ∧
      ∀ st, ¬Says WellSigned "addiu t0, t0, --5" st := by
  refine ⟨by decide +kernel, fun st h => ?_⟩
  have hnumber {v : ℤ} : ¬WellSigned "--5" v := fun h => h.minus_not_mem_tail (by decide)
  have hops : operands (command "addiu t0, t0, --5").2 = ["t0", "t0", "--5"] := by decide +kernel
  have hoperands := h.operands
  rw [hops] at hoperands
  cases hoperands with
  | addiu ht hs hi | ori ht hs hi | branch op hs ht hi => exact hnumber hi

end Assembler

end CartPatch.Mips
