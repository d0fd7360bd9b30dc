import CartPatch.Cheat.Listing
import CartPatch.Proofs.Mips.Memory

/-!
What a list of codes does to memory, code by code. A write stores its value; a comparison that
fails has the one code behind it skipped, and at the end of the list there is nothing to skip.

A list changes and reads memory only where its codes point (`interpretFrom_of_not_touches`,
`interpretFrom_congr`).
-/

namespace CartPatch.Cheat

open Mips

namespace Code

/-- The number of bytes that a code writes or compares. -/
def width (c : Code) : ℕ := if c.opcode.isByteSized then 1 else 2

/-- Whether a code points at a byte of memory. -/
def Touches (c : Code) (x : UInt32) : Prop := Within c.address c.width x

def bytes (c : Code) : Bytes :=
  if c.opcode.isByteSized then [UInt8.ofNat c.value.toNat] else Bytes.ofHalf c.value

def write (c : Code) (m : Memory) : Memory := m.write c.address c.bytes

def isHeld (c : Code) (m : Memory) : Bool :=
  if c.opcode.isByteSized then (m c.address).toNat == c.value.toNat
  else m.half c.address == c.value

/-- Whether a comparison lets the code behind it run. -/
def passes (c : Code) (m : Memory) : Bool :=
  match c.opcode with
  | .ifNot8 | .ifNot16 => !c.isHeld m
  | _ => c.isHeld m

@[simp] theorem length_bytes (c : Code) : c.bytes.length = c.width := by
  unfold bytes width
  split <;> rfl

theorem write_of_not_touches {c : Code} {m : Memory} {x : UInt32} (h : ¬c.Touches x) :
    c.write m x = m x :=
  Memory.write_of_not_within (by rwa [length_bytes])

theorem write_congr {c : Code} {m m' : Memory} {x : UInt32} (h : m x = m' x) :
    c.write m x = c.write m' x := by
  by_cases hx : Within c.address c.bytes.length x
  · exact Memory.write_of_within hx
  · rw [write, write, Memory.write_of_not_within hx, Memory.write_of_not_within hx, h]

theorem isHeld_congr {c : Code} {m m' : Memory} (h : ∀ x, c.Touches x → m x = m' x) :
    c.isHeld m = c.isHeld m' := by
  unfold Touches width at h
  unfold isHeld
  split at h
  · have hbyte : m c.address = m' c.address := h _ (by simp [Within])
    simp_all
  · have hhalf : m.half c.address = m'.half c.address := Memory.half_congr h
    simp_all

theorem passes_congr {c : Code} {m m' : Memory} (h : ∀ x, c.Touches x → m x = m' x) :
    c.passes m = c.passes m' := by
  unfold passes
  rw [isHeld_congr h]

end Code

/-- The memory behind a list of codes, where the first code may be one to skip. -/
def interpretFrom : Bool → List Code → Memory → Memory
  | _, [], m => m
  | true, _ :: cs, m => interpretFrom false cs m
  | false, c :: cs, m =>
    if c.opcode.isConditional then interpretFrom (!c.passes m) cs m
    else interpretFrom false cs (c.write m)

def interpret (codes : List Code) (m : Memory) : Memory := interpretFrom false codes m

theorem interpretFrom_of_not_touches {codes : List Code} {m : Memory} {x : UInt32} (skip : Bool)
    (h : ∀ c ∈ codes, ¬c.Touches x) : interpretFrom skip codes m x = m x := by
  induction codes generalizing skip m with
  | nil => rfl
  | cons c cs ih =>
    have hrest := fun c' hc' => h c' (List.mem_cons_of_mem c hc')
    cases skip with
    | true => exact ih false hrest
    | false =>
      unfold interpretFrom
      split
      · exact ih _ hrest
      · rw [ih false hrest]
        exact Code.write_of_not_touches (h c List.mem_cons_self)

/-- Where no code points at the bytes of a region, what they hold does not matter outside it. -/
theorem interpretFrom_congr {codes : List Code} {m m' : Memory} {region : UInt32 → Prop}
    (skip : Bool) (h : ∀ c ∈ codes, ∀ x, c.Touches x → ¬region x)
    (hm : ∀ x, ¬region x → m x = m' x) {x : UInt32} (hx : ¬region x) :
    interpretFrom skip codes m x = interpretFrom skip codes m' x := by
  induction codes generalizing skip m m' with
  | nil => exact hm x hx
  | cons c cs ih =>
    have hrest := fun c' hc' => h c' (List.mem_cons_of_mem c hc')
    cases skip with
    | true => exact ih false hrest hm
    | false =>
      have hpasses : c.passes m = c.passes m' :=
        Code.passes_congr fun y hy => hm y (h c List.mem_cons_self y hy)
      unfold interpretFrom
      split
      · rw [hpasses]
        exact ih _ hrest hm
      · exact ih false hrest fun y hy => Code.write_congr (hm y hy)

/-- The memory behind several lists of codes. The end of a list ends what a comparison skips. -/
def interpretAll (lists : List (List Code)) (m : Memory) : Memory :=
  lists.foldl (fun m codes => interpret codes m) m

theorem interpretAll_of_not_touches {lists : List (List Code)} {m : Memory} {x : UInt32}
    (h : ∀ codes ∈ lists, ∀ c ∈ codes, ¬c.Touches x) : interpretAll lists m x = m x := by
  induction lists generalizing m with
  | nil => rfl
  | cons codes lists ih =>
    have hrest := ih (m := interpret codes m) fun l hl => h l (List.mem_cons_of_mem codes hl)
    have hfirst := interpretFrom_of_not_touches (m := m) false (h codes List.mem_cons_self)
    exact hrest.trans hfirst

theorem interpretAll_congr {lists : List (List Code)} {m m' : Memory} (region : UInt32 → Prop)
    (h : ∀ codes ∈ lists, ∀ c ∈ codes, ∀ x, c.Touches x → ¬region x)
    (hm : ∀ x, ¬region x → m x = m' x) {x : UInt32} (hx : ¬region x) :
    interpretAll lists m x = interpretAll lists m' x := by
  induction lists generalizing m m' with
  | nil => exact hm x hx
  | cons codes lists ih =>
    have hrest := fun l hl => h l (List.mem_cons_of_mem codes hl)
    exact ih hrest fun y hy => interpretFrom_congr false (h codes List.mem_cons_self) hm hy

end CartPatch.Cheat
