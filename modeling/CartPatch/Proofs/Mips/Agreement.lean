import CartPatch.Proofs.Mips.Machine

/-!
States that differ in some registers only. An instruction that neither reads nor writes one of these
registers does the same in both states and leaves them as much alike as before; so does a program whose
instructions all keep away from them (`Machine.Agrees.step`). Registers are compared as they are held,
`zero` included, so what agrees also reads the same.
-/

namespace CartPatch.Mips

def Instruction.registers : Instruction → List Register
  | nop | jump .j _ => []
  | jr rs => [rs]
  | addiu rt rs _ | ori rt rs _ | branch _ rs rt _ => [rt, rs]
  | lui rt _ => [rt]
  | memory _ rt _ base => [rt, base]
  | jump .jal _ => [.ra]

/-- An instruction that has nothing to do with some registers. -/
def Instruction.Avoids (hidden : List Register) (i : Instruction) : Prop :=
  ∀ r ∈ hidden, r ∉ i.registers
  deriving Decidable

theorem Instruction.Avoids.not_mem {hidden : List Register} {i : Instruction} (h : i.Avoids hidden)
    {r : Register} (hr : r ∈ i.registers) : r ∉ hidden := fun hhidden => h r hhidden hr

def Program.Avoids (hidden : List Register) (p : Program) : Prop :=
  ∀ a w i, p a = some w → Instruction.ofWord? w = some i → i.Avoids hidden

theorem Program.avoids_of_words {hidden : List Register} {p : Program} {is : List Instruction}
    (hwords : ∀ a w, p a = some w → w ∈ is.map Instruction.word)
    (his : ∀ i ∈ is, i.Avoids hidden) : p.Avoids hidden := by
  intro a w i hw hi
  obtain ⟨j, hj, rfl⟩ := List.mem_map.1 (hwords a w hw)
  rw [Instruction.ofWord?_word] at hi
  cases hi
  exact his _ hj

/-- Equal memory, and equal values in all registers but some. -/
structure Data.Agrees (hidden : List Register) (d d' : Data) : Prop where
  registers : ∀ r, r ∉ hidden → d.registers r = d'.registers r
  memory : d.memory = d'.memory

structure Machine.Agrees (hidden : List Register) (s s' : Machine) : Prop where
  pc : s.pc = s'.pc
  nextPc : s.nextPc = s'.nextPc
  data : s.data.Agrees hidden s'.data

variable {hidden : List Register}

namespace Data.Agrees

variable {d d' : Data} {r : Register} {i : Instruction}

theorem refl (d : Data) : d.Agrees hidden d := ⟨fun _ _ => rfl, rfl⟩

theorem reg_eq (h : d.Agrees hidden d') (hr : r ∉ hidden) : d.reg r = d'.reg r := by
  rw [reg, reg, h.registers r hr]

theorem set (h : d.Agrees hidden d') (r : Register) (v : UInt32) :
    (d.set r v).Agrees hidden (d'.set r v) := by
  refine ⟨fun r' hr' => ?_, h.memory⟩
  show Function.update d.registers r v r' = Function.update d'.registers r v r'
  rw [Function.update_apply, Function.update_apply, h.registers r' hr']

theorem store (h : d.Agrees hidden d') (a : UInt32) (bytes : Bytes) :
    (d.store a bytes).Agrees hidden (d'.store a bytes) :=
  ⟨h.registers, congrArg (Memory.write · a bytes) h.memory⟩

/-- A register that is not compared may take any value. -/
theorem set_left (h : d.Agrees hidden d') (hr : r ∈ hidden) (v : UInt32) :
    (d.set r v).Agrees hidden d' := by
  refine ⟨fun r' hr' => ?_, h.memory⟩
  show Function.update d.registers r v r' = d'.registers r'
  rw [Function.update_of_ne (ne_of_mem_of_not_mem hr hr').symm, h.registers r' hr']

theorem perform (h : d.Agrees hidden d') (op : MemoryOp) (hr : r ∉ hidden) (a : UInt32) :
    (op.perform r a d).Agrees hidden (op.perform r a d') := by
  cases op <;> simp only [MemoryOp.perform, h.memory, h.reg_eq hr] <;>
    first | exact h.set _ _ | exact h.store _ _

theorem effect (h : d.Agrees hidden d') (hi : i.Avoids hidden) :
    Option.Rel (Data.Agrees hidden) (i.effect d) (i.effect d') := by
  have hreg {r : Register} (hr : r ∈ i.registers) : d.reg r = d'.reg r := h.reg_eq (hi.not_mem hr)
  cases i with
  | nop | jr | branch | jump => exact .some h
  | lui rt value => exact .some (h.set rt _)
  | addiu rt rs value | ori rt rs value =>
    have hrs : d.reg rs = d'.reg rs := hreg (by simp [Instruction.registers])
    simp only [Instruction.effect, hrs]
    exact .some (h.set rt _)
  | memory op rt offset base =>
    have hbase : d.reg base = d'.reg base := hreg (by simp [Instruction.registers])
    simp only [Instruction.effect, hbase]
    split
    · exact .some (h.perform op (hi.not_mem (by simp [Instruction.registers])) _)
    · exact .none

theorem target_eq (h : d.Agrees hidden d') (hi : i.Avoids hidden) (pc : UInt32) :
    i.target pc d = i.target pc d' := by
  have hreg {r : Register} (hr : r ∈ i.registers) : d.reg r = d'.reg r := h.reg_eq (hi.not_mem hr)
  cases i with
  | jr rs =>
    have hrs : d.reg rs = d'.reg rs := hreg (by simp [Instruction.registers])
    simp only [Instruction.target, hrs]
  | branch op rs rt offset =>
    have hrs : d.reg rs = d'.reg rs := hreg (by simp [Instruction.registers])
    have hrt : d.reg rt = d'.reg rt := hreg (by simp [Instruction.registers])
    cases op <;> simp only [Instruction.target, hrs, hrt]
  | _ => rfl

theorem link (h : d.Agrees hidden d') (i : Instruction) (pc : UInt32) :
    (i.link pc d).Agrees hidden (i.link pc d') := by
  cases i with
  | jump op target =>
    cases op with
    | j => exact h
    | jal => exact h.set .ra _
  | _ => exact h

end Data.Agrees

theorem Machine.Agrees.refl (s : Machine) : s.Agrees hidden s := ⟨rfl, rfl, .refl s.data⟩

/-- One step goes the same way in both states, or in neither. -/
theorem Machine.Agrees.step {p : Program} {s s' : Machine} (h : s.Agrees hidden s')
    (hp : p.Avoids hidden) : Option.Rel (Machine.Agrees hidden) (step p s) (step p s') := by
  unfold Mips.step
  rw [← h.pc]
  cases hword : p s.pc with
  | none => exact .none
  | some w =>
    simp only [Option.bind_eq_bind, Option.bind_some]
    cases hi : Instruction.ofWord? w with
    | none => exact .none
    | some i =>
      have havoids := hp _ w i hword hi
      have heffect := h.data.effect havoids
      have htarget := h.data.target_eq havoids s.pc
      rw [Option.bind_some, Option.bind_some]
      generalize i.effect s.data = result at heffect ⊢
      generalize i.effect s'.data = result' at heffect ⊢
      cases heffect with
      | none => exact .none
      | some hdata => exact .some ⟨h.nextPc, by rw [htarget, h.nextPc], hdata.link i s.pc⟩

end CartPatch.Mips
