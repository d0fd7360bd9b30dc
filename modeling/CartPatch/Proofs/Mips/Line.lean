import Mathlib.Data.List.Basic
import CartPatch.Mips.Assembler
import CartPatch.Mips.Address
import CartPatch.Proofs.Text.Cut
import CartPatch.Proofs.Text.Numeral

/-!
Lines of assembly text that are written the usual way: a mnemonic, a space, and operands with a
comma and a space between them. `parse_line` reads such a line back as far as its operands, and
one statement for each kind of operand reads the operand.
-/

namespace CartPatch.Mips.Assembler

open Text

/-- A text that can stand between commas: it has no blanks, no comma and at least one character. -/
structure IsOperand (t : Text) : Prop where
  ne_nil : t ≠ []
  plain : ∀ c ∈ t, isBlank c = false ∧ c ≠ ','

-- Not the instance for a quantifier over characters: it would try every one of them.
instance (t : Text) : Decidable (IsOperand t) :=
  decidable_of_iff (t ≠ [] ∧ t.all fun c => isBlank c = false ∧ c ≠ ',')
    ⟨fun h => ⟨h.1, List.all_iff_forall_prop.1 h.2⟩,
      fun h => ⟨h.ne_nil, List.all_iff_forall_prop.2 h.plain⟩⟩

def operandText : List Text → Text
  | [] => []
  | [op] => op
  | op :: ops => op ++ ',' :: ' ' :: operandText ops

def line (m : Mnemonic) (ops : List Text) : Text := (m.name : Text) ++ ' ' :: operandText ops

theorem IsOperand.tight {t : Text} (h : IsOperand t) : Tight t :=
  tight_of_forall h.ne_nil fun c hc => (h.plain c hc).1

theorem IsOperand.append {s t : Text} (hs : IsOperand s) (ht : ∀ c ∈ t, isBlank c = false ∧ c ≠ ',') :
    IsOperand (s ++ t) := by
  refine ⟨by simp [hs.ne_nil], ?_⟩
  intro c hc
  rcases List.mem_append.1 hc with hc | hc
  · exact hs.plain c hc
  · exact ht c hc

theorem tight_operandText {ops : List Text} (hne : ops ≠ []) (h : ∀ op ∈ ops, IsOperand op) :
    Tight (operandText ops) := by
  induction ops with
  | nil => exact absurd rfl hne
  | cons op ops ih =>
    have hop := (h op List.mem_cons_self).tight
    cases ops with
    | nil => exact hop
    | cons next ops =>
      have hrest := ih (by simp) fun o ho => h o (List.mem_cons_of_mem op ho)
      exact hop.around hrest [',', ' ']

theorem map_trim_splitOn_operandText {ops : List Text} (hne : ops ≠ [])
    (h : ∀ op ∈ ops, IsOperand op) : ((operandText ops).splitOn ',').map trim = ops := by
  induction ops with
  | nil => exact absurd rfl hne
  | cons op ops ih =>
    have hop := h op List.mem_cons_self
    have hcomma : ',' ∉ op := fun hc => (hop.plain ',' hc).2 rfl
    cases ops with
    | nil => simp [operandText, List.splitOn_eq_singleton hcomma, hop.tight.trim_eq]
    | cons next ops =>
      have hrest := ih (by simp) fun o ho => h o (List.mem_cons_of_mem op ho)
      have hspace (t : Text) : ((' ' :: t).splitOn ',').map trim = (t.splitOn ',').map trim := by
        rw [List.splitOn_cons_eq_if_modifyHead, if_neg (by decide)]
        cases t.splitOn ',' with
        | nil => rfl
        | cons piece pieces => simp [trim_space_cons]
      rw [operandText, List.splitOn_append_cons_self_of_not_mem hcomma, List.map_cons, hspace, hrest,
        hop.tight.trim_eq]
      simp

theorem operands_operandText {ops : List Text} (hne : ops ≠ []) (h : ∀ op ∈ ops, IsOperand op) :
    operands (operandText ops) = ops := by
  have htight := tight_operandText hne h
  rw [operands, htight.trim_eq, if_neg (by simpa using htight.ne_nil)]
  exact map_trim_splitOn_operandText hne h

theorem isOperand_name (m : Mnemonic) : IsOperand (m.name : Text) := by
  cases m with
  | memory op => cases op <;> decide
  | branch op => cases op <;> decide
  | jump op => cases op <;> decide
  | _ => decide

def command (l : Text) : Text × Text := (cut? isBlank (trim l)).getD (trim l, [])

theorem parse_eq (l : Text) : parse l = match Mnemonic.ofText? (command l).1 with
    | none => .error (.unknownMnemonic (command l).1)
    | some m => instruction m (operands (command l).2) := rfl

theorem command_line (m : Mnemonic) {ops : List Text} (hne : ops ≠ [])
    (h : ∀ op ∈ ops, IsOperand op) : command (line m ops) = ((m.name : Text), operandText ops) := by
  have hname := isOperand_name m
  have hcut : cut? isBlank (line m ops) = some ((m.name : Text), operandText ops) :=
    cut?_append_cons _ (fun c hc => (hname.plain c hc).1) (by decide)
  have htight : Tight (line m ops) := hname.tight.around (tight_operandText hne h) [' ']
  rw [command, htight.trim_eq, hcut, Option.getD_some]

theorem parse_line (m : Mnemonic) {ops : List Text} (hne : ops ≠ [])
    (h : ∀ op ∈ ops, IsOperand op) : parse (line m ops) = instruction m ops := by
  simp only [parse_eq, command_line m hne h, Mnemonic.ofText?_name, operands_operandText hne h]

end CartPatch.Mips.Assembler
