import CartPatch.Proofs.Mips.Immediate

/-!
Operands are read back: registers by name, printed numbers as the numbers that they stand for, and
an offset with the register behind it. From these come the lines of each format, `parse_lui` to
`parse_jump`, and then the lines as patches write them: a head with the mnemonic and all registers
but the last operand, `parse_luiText` to `parse_memoryText`.
-/

namespace CartPatch.Mips.Assembler

open Text Numeral Outcome

theorem isOperand_register (r : Register) : IsOperand (r.name : Text) := by
  revert r
  decide +kernel

theorem register_name (r : Register) : register (r.name : Text) = .ok r := by
  simp [register, Register.ofText?_name]

theorem capitalHex_plain {width n : ℕ} : ∀ c ∈ capitalHex width n, isBlank c = false ∧ c ≠ ',' := by
  have hall : ∀ c ∈ capitalDigits, isBlank c = false ∧ c ≠ ',' :=
    List.all_iff_forall_prop.1 (by decide)
  exact fun c hc => hall c (mem_capitalHex hc)

theorem isOperand_capitalHex (width n : ℕ) : IsOperand ("0x" ++ capitalHex width n) :=
  (compact_capitalHex width n).isOperand

theorem isOperand_decimal (n : ℕ) : IsOperand (decimal n) := (compact_decimal n).isOperand

theorem isOperand_offsetText (offset : Int16) : IsOperand (offsetText offset) :=
  (compact_offsetText offset).isOperand

theorem paren_not_mem_capitalHex (width n : ℕ) : '(' ∉ capitalHex width n :=
  fun hc => (compact_capitalHex width n).paren_not_mem (List.mem_append_right _ hc)

theorem paren_not_mem_offsetText (offset : Int16) : '(' ∉ offsetText offset :=
  (compact_offsetText offset).paren_not_mem

theorem immediate_capitalHex {width n : ℕ} (hn : n < 0x8000000000000000) :
    immediate ("0x" ++ capitalHex width n) = .ok (n : ℤ) :=
  (compact_capitalHex width n).immediate_eq (by omega)

theorem immediate_minus_capitalHex {width n : ℕ} (hn : n < 0x8000000000000000) :
    immediate ("-0x" ++ capitalHex width n) = .ok (-(n : ℤ)) :=
  (compact_minus_capitalHex width n).immediate_eq (by omega)

theorem immediate_decimal {n : ℕ} (hn : n < 0x8000000000000000) :
    immediate (decimal n) = .ok (n : ℤ) :=
  (compact_decimal n).immediate_eq (by omega)

theorem immediate_offsetText (offset : Int16) :
    immediate (offsetText offset) = .ok offset.toInt := by
  have hlow := offset.le_toInt
  have hhigh := offset.toInt_lt
  exact (compact_offsetText offset).immediate_eq (by omega)

theorem isOperand_place {t : Text} (base : Register) (hop : IsOperand t) :
    IsOperand (t ++ '(' :: ((base.name : Text) ++ [')'])) := by
  apply hop.append
  intro c hc
  rcases List.mem_cons.1 hc with rfl | hc
  · decide
  · rcases List.mem_append.1 hc with hc | hc
    · exact (isOperand_register base).plain c hc
    · obtain rfl := List.mem_singleton.1 hc
      decide

theorem memoryOperand_append {t : Text} {value : ℤ} (base : Register) (hop : IsOperand t)
    (hopen : '(' ∉ t) (hvalue : immediate t = .ok value) :
    memoryOperand (t ++ '(' :: ((base.name : Text) ++ [')'])) = .ok (value, base) := by
  have htrim := (isOperand_place base hop).tight.trim_eq
  have hcut := cut?_of_not_mem hopen ((base.name : Text) ++ [')'])
  have hne : t.isEmpty = false := by simpa using hop.ne_nil
  simp [memoryOperand, htrim, hcut, hop.tight.trim_eq, hne, hvalue, register_name, bind,
    Except.bind, pure, Except.pure]

theorem jumpTarget_capitalHex (address : UInt32) :
    jumpTarget ("0x" ++ capitalHex 8 address.toNat) =
      if address.toNat % 4 = 0 then .ok (.ofAddress address)
      else .error (.misalignedTarget address) := by
  have hlt := address.toNat_lt
  have hrange : ¬((address.toNat : ℤ) < 0 ∨ 0x100000000 ≤ (address.toNat : ℤ)) := by omega
  rw [jumpTarget, immediate_capitalHex (by omega)]
  simp only [bind, Except.bind, if_neg hrange, Int.toNat_natCast, UInt32.ofNat_toNat]
  by_cases h : address.toNat % 4 = 0
  · rw [if_neg (by omega), if_pos h]
  · rw [if_pos (by omega), if_neg h]

theorem signedHalf_natCast (m : Mnemonic) {n : ℕ} (hn : n < 0x8000) :
    signedHalf m n = .ok (Int16.ofNat n) := by
  have hrange : -0x8000 ≤ (n : ℤ) ∧ (n : ℤ) < 0x8000 := by omega
  rw [signedHalf, if_pos hrange, Int16.ofInt_eq_ofNat]

theorem signedHalf_toInt (m : Mnemonic) (offset : Int16) :
    signedHalf m offset.toInt = .ok offset := by
  have hrange : -0x8000 ≤ offset.toInt ∧ offset.toInt < 0x8000 :=
    ⟨offset.le_toInt, offset.toInt_lt⟩
  rw [signedHalf, if_pos hrange, Int16.ofInt_toInt]

theorem unsignedHalf_natCast (m : Mnemonic) {n : ℕ} (hn : n < 0x10000) :
    unsignedHalf m n = .ok (UInt16.ofNat n) := by
  have hrange : (0 : ℤ) ≤ n ∧ (n : ℤ) < 0x10000 := by omega
  rw [unsignedHalf, if_pos hrange, Int.toNat_natCast]

theorem unsignedHalf_of_large (m : Mnemonic) {n : ℕ} (hn : 0x10000 ≤ n) :
    unsignedHalf m n = .error (.immediateOutOfRange m n) := by
  rw [unsignedHalf, if_neg (by omega)]

section Lines

variable {t : Text} {value : ℤ} (hop : IsOperand t) (hvalue : immediate t = .ok value)
include hop hvalue

theorem parse_lui (rt : Register) {half : UInt16} (hhalf : unsignedHalf .lui value = .ok half) :
    parse (line .lui [(rt.name : Text), t]) = .ok (.lui rt half) := by
  have hops : ∀ o ∈ [(rt.name : Text), t], IsOperand o := by simp [isOperand_register, hop]
  rw [parse_line _ (by simp) hops]
  simp only [instruction, register_name, hvalue, hhalf, bind, Except.bind, pure, Except.pure]

theorem parse_ori (rt rs : Register) {half : UInt16} (hhalf : unsignedHalf .ori value = .ok half) :
    parse (line .ori [(rt.name : Text), (rs.name : Text), t]) = .ok (.ori rt rs half) := by
  have hops : ∀ o ∈ [(rt.name : Text), (rs.name : Text), t], IsOperand o := by
    simp [isOperand_register, hop]
  rw [parse_line _ (by simp) hops]
  simp only [instruction, register_name, hvalue, hhalf, bind, Except.bind, pure, Except.pure]

theorem parse_ori_of_error (rt rs : Register) {e : AssemblyError}
    (hhalf : unsignedHalf .ori value = .error e) :
    parse (line .ori [(rt.name : Text), (rs.name : Text), t]) = .error e := by
  have hops : ∀ o ∈ [(rt.name : Text), (rs.name : Text), t], IsOperand o := by
    simp [isOperand_register, hop]
  rw [parse_line _ (by simp) hops]
  simp only [instruction, register_name, hvalue, hhalf, bind, Except.bind]

theorem parse_addiu (rt rs : Register) {half : Int16} (hhalf : signedHalf .addiu value = .ok half) :
    parse (line .addiu [(rt.name : Text), (rs.name : Text), t]) = .ok (.addiu rt rs half) := by
  have hops : ∀ o ∈ [(rt.name : Text), (rs.name : Text), t], IsOperand o := by
    simp [isOperand_register, hop]
  rw [parse_line _ (by simp) hops]
  simp only [instruction, register_name, hvalue, hhalf, bind, Except.bind, pure, Except.pure]

theorem parse_branch (op : BranchOp) (rs rt : Register) {half : Int16}
    (hhalf : signedHalf (.branch op) value = .ok half) :
    parse (line (.branch op) [(rs.name : Text), (rt.name : Text), t]) =
      .ok (.branch op rs rt half) := by
  have hops : ∀ o ∈ [(rs.name : Text), (rt.name : Text), t], IsOperand o := by
    simp [isOperand_register, hop]
  rw [parse_line _ (by simp) hops]
  simp only [instruction, register_name, hvalue, hhalf, bind, Except.bind, pure, Except.pure]

theorem parse_memory (op : MemoryOp) (rt base : Register) (hopen : '(' ∉ t) {half : Int16}
    (hhalf : signedHalf (.memory op) value = .ok half) :
    parse (line (.memory op) [(rt.name : Text), t ++ '(' :: ((base.name : Text) ++ [')'])]) =
      .ok (.memory op rt half base) := by
  have hops : ∀ o ∈ [(rt.name : Text), t ++ '(' :: ((base.name : Text) ++ [')'])], IsOperand o := by
    simp only [List.forall_mem_cons, List.not_mem_nil, false_implies, implies_true, and_true]
    exact ⟨isOperand_register rt, isOperand_place base hop⟩
  rw [parse_line _ (by simp) hops]
  simp only [instruction, memoryOperand_append base hop hopen hvalue, register_name, hhalf, bind,
    Except.bind, pure, Except.pure]

end Lines

section Heads

variable (head : Text)

theorem parse_luiText (rt : Register) (hhead : head = "lui " ++ (rt.name : Text) ++ ", 0x") {n : ℕ}
    (hn : n < 0x10000) : parse (head ++ capitalHex 4 n) = .ok (.lui rt (UInt16.ofNat n)) := by
  have hline : head ++ capitalHex 4 n = line .lui [(rt.name : Text), "0x" ++ capitalHex 4 n] := by
    simp [line, operandText, hhead, Mnemonic.name]
  rw [hline]
  exact parse_lui (isOperand_capitalHex 4 n) (immediate_capitalHex (by omega)) rt
    (unsignedHalf_natCast .lui hn)

theorem parse_oriText (rt rs : Register)
    (hhead : head = "ori " ++ (rt.name : Text) ++ ", " ++ (rs.name : Text) ++ ", 0x")
    (width : ℕ) {n : ℕ} (hn : n < 0x10000) :
    parse (head ++ capitalHex width n) = .ok (.ori rt rs (UInt16.ofNat n)) := by
  have hline : head ++ capitalHex width n =
      line .ori [(rt.name : Text), (rs.name : Text), "0x" ++ capitalHex width n] := by
    simp [line, operandText, hhead, Mnemonic.name]
  rw [hline]
  exact parse_ori (isOperand_capitalHex width n) (immediate_capitalHex (by omega)) rt rs
    (unsignedHalf_natCast .ori hn)

theorem parse_oriText_of_large (rt rs : Register)
    (hhead : head = "ori " ++ (rt.name : Text) ++ ", " ++ (rs.name : Text) ++ ", 0x")
    (width : ℕ) {n : ℕ} (hlarge : 0x10000 ≤ n) (hn : n < 0x8000000000000000) :
    parse (head ++ capitalHex width n) = .error (.immediateOutOfRange .ori n) := by
  have hline : head ++ capitalHex width n =
      line .ori [(rt.name : Text), (rs.name : Text), "0x" ++ capitalHex width n] := by
    simp [line, operandText, hhead, Mnemonic.name]
  rw [hline]
  exact parse_ori_of_error (isOperand_capitalHex width n) (immediate_capitalHex hn) rt rs
    (unsignedHalf_of_large .ori hlarge)

theorem parse_branchText (op : BranchOp) (rs rt : Register)
    (hhead : head = ((Mnemonic.branch op).name : Text) ++ ' ' :: (rs.name : Text) ++ ", " ++
      (rt.name : Text) ++ ", ") {n : ℕ} (hn : n < 0x8000) :
    parse (head ++ decimal n) = .ok (.branch op rs rt (Int16.ofNat n)) := by
  have hline : head ++ decimal n =
      line (.branch op) [(rs.name : Text), (rt.name : Text), decimal n] := by
    simp [line, operandText, hhead]
  rw [hline]
  exact parse_branch (isOperand_decimal n) (immediate_decimal (by omega)) op rs rt
    (signedHalf_natCast _ hn)

theorem parse_memoryText (tail : Text) (op : MemoryOp) (rt base : Register)
    (hhead : head = ((Mnemonic.memory op).name : Text) ++ ' ' :: (rt.name : Text) ++ ", ")
    (htail : tail = '(' :: ((base.name : Text) ++ [')'])) (offset : Int16) :
    parse (head ++ offsetText offset ++ tail) = .ok (.memory op rt offset base) := by
  have hline : head ++ offsetText offset ++ tail =
      line (.memory op) [(rt.name : Text), offsetText offset ++ tail] := by
    simp [line, operandText, hhead]
  rw [hline, htail]
  exact parse_memory (isOperand_offsetText offset) (immediate_offsetText offset) op rt base
    (paren_not_mem_offsetText offset) (signedHalf_toInt _ offset)

end Heads

theorem parse_jump (op : JumpOp) (address : UInt32) :
    parse (line (.jump op) ["0x" ++ capitalHex 8 address.toNat]) =
      if address.toNat % 4 = 0 then .ok (.jump op (.ofAddress address))
      else .error (.misalignedTarget address) := by
  have hops : ∀ o ∈ [("0x" ++ capitalHex 8 address.toNat : Text)], IsOperand o := by
    simp only [List.mem_singleton, forall_eq]
    exact isOperand_capitalHex 8 address.toNat
  rw [parse_line _ (by simp) hops]
  simp only [instruction, jumpTarget_capitalHex]
  split <;> rfl

/-- Lines that are read as instructions, one each. -/
def Assembles (lines : List Text) (is : List Instruction) : Prop := lines.map parse = is.map .ok

@[simp] theorem assembles_nil : Assembles [] [] := rfl

theorem assembles_cons {l : Text} {i : Instruction} {lines : List Text} {is : List Instruction} :
    Assembles (l :: lines) (i :: is) ↔ parse l = .ok i ∧ Assembles lines is := by
  simp [Assembles]

theorem Assembles.append {lines lines' : List Text} {is is' : List Instruction}
    (h : Assembles lines is) (h' : Assembles lines' is') :
    Assembles (lines ++ lines') (is ++ is') := by
  unfold Assembles at *
  rw [List.map_append, List.map_append, h, h']

theorem Assembles.exists_instruction {lines : List Text} {is : List Instruction} {n : ℕ}
    (h : Assembles lines is) (hn : n < lines.length) :
    ∃ line i, lines[n]? = some line ∧ is[n]? = some i ∧ parse line = .ok i := by
  have hparse : lines[n]?.map parse = is[n]?.map .ok := by
    rw [← List.getElem?_map, ← List.getElem?_map, h]
  rw [List.getElem?_eq_getElem hn, Option.map_some] at hparse
  obtain ⟨i, hi, hline⟩ := Option.map_eq_some_iff.1 hparse.symm
  exact ⟨_, i, List.getElem?_eq_getElem hn, hi, hline.symm⟩

theorem Assembles.assembleAll_eq {lines : List Text} {is : List Instruction}
    (h : Assembles lines is) : assembleAll lines = .ok (is.map Instruction.word) := by
  induction lines generalizing is with
  | nil =>
    obtain rfl : is = [] := by simpa [Assembles, eq_comm] using h
    rfl
  | cons l lines ih =>
    cases is with
    | nil => simp [Assembles] at h
    | cons i is =>
      obtain ⟨hl, hrest⟩ := assembles_cons.1 h
      simp [assembleAll, assemble, hl, ih hrest, Except.map, bind, Except.bind, pure, Except.pure]

theorem Assembles.assembleAll_of_error {front : List Text} {is : List Instruction}
    (hfront : Assembles front is) {l : Text} {e : AssemblyError} (hl : parse l = .error e)
    (back : List Text) : assembleAll (front ++ l :: back) = .error e := by
  induction front generalizing is with
  | nil => simp [assembleAll, assemble, hl, Except.map, bind, Except.bind]
  | cons l' front ih =>
    cases is with
    | nil => simp [Assembles] at hfront
    | cons i is =>
      obtain ⟨hl', hrest⟩ := assembles_cons.1 hfront
      simp [assembleAll, assemble, hl', ih hrest, Except.map, bind, Except.bind]

theorem length_of_assembleAll {lines : List Text} {ws : List UInt32}
    (h : assembleAll lines = .ok ws) : ws.length = lines.length := by
  induction lines generalizing ws with
  | nil =>
    cases h
    rfl
  | cons l lines ih =>
    obtain ⟨w, -, h⟩ := bind_eq_ok.1 h
    obtain ⟨ws', hrest, h⟩ := bind_eq_ok.1 h
    cases h
    simp [ih hrest]

end CartPatch.Mips.Assembler
