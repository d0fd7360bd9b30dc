import CartPatch.Bytes
import CartPatch.Event.Kind
import CartPatch.Text.Numeral

/-!
Event tables: the list of events of one board space, as it lies in the image.

An entry takes eight bytes: a half word for the activation, one for the execution, and a word for
the address. A table ends with the first entry whose activation is zero, so no other entry may have
that activation; nor may an entry be without an address.
-/

namespace CartPatch.Event

/-- One event of a table. The two kinds are numbers here, for a table may hold unknown ones. -/
structure Entry where
  activation : UInt16
  execution : UInt16
  address : UInt32
  deriving DecidableEq, Repr

namespace Entry

/-- The entry of zeros, which ends a table. -/
def terminator : Entry := ⟨0, 0, 0⟩

/-- The number of bytes of an entry. -/
def size : Nat := 8

def bytes (e : Entry) : Bytes :=
  Bytes.ofHalf e.activation ++ Bytes.ofHalf e.execution ++ Bytes.ofWord e.address

@[simp] theorem length_bytes (e : Entry) : e.bytes.length = size := rfl

/-- The name of a kind, or its number behind the word for such numbers. -/
def kindText (known : Option String) (word : String) (number : UInt16) : Text :=
  match known with
  | some name => name
  | none => word ++ "(" ++ Numeral.decimal number.toNat ++ ")"

/-- The entry in columns: activation, execution and address. -/
def text (e : Entry) : Text :=
  let activation := kindText ((Activation.ofNumber? e.activation).map (·.name)) "Activation"
    e.activation
  let execution := kindText ((Execution.ofNumber? e.execution).map (·.name)) "Execution"
    e.execution
  Text.padRight 16 ' ' activation ++ ' ' :: Text.padRight 12 ' ' execution ++ " 0x" ++
    Numeral.hex 8 e.address.toNat

end Entry

inductive TableError where
  | addressRequired (index : Nat) (entry : Entry)
  | missingActivation (index : Nat)
  | truncated (offset : Nat)
  | bufferTooSmall (offset needed available : Nat)
  deriving DecidableEq, Repr

namespace TableError

def message : TableError → String
  | addressRequired index entry =>
    let kinds := toString entry.activation.toNat ++ "/" ++ toString entry.execution.toNat
    s!"Event table entry {index} has type {kinds} but no address"
  | missingActivation index =>
    s!"Event table entry {index} has activation type 0, which reads back as the terminator"
  | truncated offset =>
    "Event table at 0x" ++ String.ofList (Numeral.hex 0 offset)
      ++ " runs past the end of the buffer"
  | bufferTooSmall offset needed available =>
    s!"Event table needs {needed} bytes at 0x" ++ String.ofList (Numeral.hex 0 offset)
      ++ s!", buffer has {available}"

end TableError

abbrev Table := List Entry

namespace Table

/-- The number of bytes of a table with `count` entries and the terminator behind them. -/
def byteLength (count : Nat) : Nat := count * Entry.size + Entry.size

def image (table : Table) : Bytes := (table ++ [Entry.terminator]).flatMap Entry.bytes

/-- The entries at the beginning of a byte string, up to the terminator; none when the byte string
ends before a terminator. -/
def entries? : Bytes → Option Table
  | a :: b :: c :: d :: e :: f :: g :: h :: rest =>
    if Bytes.half a b = 0 then some []
    else (entries? rest).map (⟨Bytes.half a b, Bytes.half c d, Bytes.word e f g h⟩ :: ·)
  | _ => none

def parse (buffer : Bytes) (offset : Nat) : Except TableError Table :=
  match entries? (buffer.drop offset) with
  | some table => .ok table
  | none => .error (.truncated offset)

def fault? (index : Nat) (e : Entry) : Option TableError :=
  if e.activation = 0 then some (.missingActivation index)
  else if e.address = 0 then some (.addressRequired index e)
  else none

/-- Checks every entry and reports the first that cannot be written. -/
def validate (table : Table) : Except TableError Unit :=
  match table.zipIdx.findSome? (fun (e, index) => fault? index e) with
  | some fault => .error fault
  | none => .ok ()

/-- Writes a table into a buffer at an offset. Either the whole table is written or nothing. -/
def write (table : Table) (buffer : Bytes) (offset : Nat) : Except TableError Bytes := do
  table.validate
  let needed := byteLength table.length
  if offset + needed ≤ buffer.length then return buffer.overwrite offset table.image
  else .error (.bufferTooSmall offset needed (buffer.length - offset))

def toBytes (table : Table) : Except TableError Bytes := table.validate.map fun _ => table.image

def text (table : Table) : Text := Text.unlines (table.map Entry.text)

theorem length_image (table : Table) : table.image.length = byteLength table.length := by
  induction table with
  | nil => rfl
  | cons e table ih =>
    simp only [image, List.cons_append, List.flatMap_cons, List.length_append,
      Entry.length_bytes] at ih ⊢
    simp only [ih, byteLength, List.length_cons, Nat.succ_mul]
    omega

end Table

end CartPatch.Event
