import CartPatch.Cheat.Session
import CartPatch.Hook.Trampoline
import CartPatch.SymbolTable

/-!
Patches: hooking a routine into the image of a game.

The first four instructions of the site give way to a jump to the trampoline. They move to the end
of the stored routine, which is a packed file, and from there they are recovered when an image that
is hooked already is patched again. Everything that can fail is checked before anything is
written; only storing the routine can fail after that, and it is written before the image.
-/

namespace CartPatch.Hook

open Mips Storage

inductive HookError where
  | missingPrimitive (cause : SymbolError)
  | assembly (cause : AssemblyError)
  | store (cause : StoreError)
  | imageTooSmall (offset needed size : Nat)
  | missingDisplacedCode (size : Nat)
  deriving DecidableEq, Repr

namespace HookError

def message : HookError → String
  | missingPrimitive cause => "Missing platform read primitive: " ++ cause.message
  | assembly cause => "Hook encode error: " ++ cause.message
  | store cause => "Packed file system error: " ++ cause.message
  | imageTooSmall offset needed size =>
    "ROM is 0x" ++ String.ofList (Numeral.hex 0 size) ++ " bytes but the patch at 0x"
      ++ String.ofList (Numeral.hex 0 offset) ++ " needs 0x" ++ String.ofList (Numeral.hex 0 needed)
  | missingDisplacedCode size =>
    s!"ROM is already hooked but the stored routine is too short ({size} bytes)"

end HookError

/-- The symbol of the platform's routine that loads a packed file. -/
def readPrimitiveName : Text := "ReadMainFS"

/-- The number of instructions at the site that give way to the jump. -/
def displacedCount : Nat := 4

structure Patch where
  /-- The words written at the site. -/
  site : List UInt32
  /-- The routine stored as a packed file. -/
  stored : Bytes
  /-- The instructions that the site held before it was first hooked. -/
  displaced : List UInt32
  deriving DecidableEq, Repr

def assembleLines (lines : List Text) : Except HookError (List UInt32) :=
  (Assembler.assembleAll lines).mapError .assembly

def part (image : Bytes) (offset size : Nat) : Except HookError Bytes :=
  match image.slice? offset size with
  | some bytes => .ok bytes
  | none => .error (.imageTooSmall offset size image.length)

def writeWords (image : Bytes) (offset : Nat) (ws : List UInt32) : Except HookError Bytes := do
  let _ ← part image offset (4 * ws.length)
  return image.overwrite offset (Bytes.ofWords ws)

/-- The displaced instructions in a stored routine: the last words but the jump back, which takes
two. -/
def displacedWords (stored : Bytes) : Except HookError (List UInt32) :=
  if stored.length < (displacedCount + 2) * 4 then .error (.missingDisplacedCode stored.length)
  else
    let last := Bytes.words (stored.drop (stored.length - (displacedCount + 2) * 4))
    .ok (last.take displacedCount)

/-- The instructions that the site held before it was first hooked: those that it holds now, or,
when it holds the jump to the trampoline, those in the routine that was stored then. -/
def originalWords (current : List UInt32) (jump : UInt32) (stored : Except StoreError Bytes) :
    Except HookError (List UInt32) :=
  if current.head? = some jump then do displacedWords (← stored.mapError .store) else .ok current

/-- Works out the patch that hooks a routine into an image. `stored` is what the slot of the
descriptor reads as; it matters only when the image is hooked already. -/
def plan (image : Bytes) (d : Descriptor) (routine : Bytes) (stored : Except StoreError Bytes) :
    Except HookError Patch := do
  let current ← part image d.siteOffset (4 * displacedCount)
  let jump ← (Assembler.assemble d.siteJump).mapError .assembly
  let displaced ← originalWords current.words jump stored
  let before ← assembleLines prologueLines
  let after ← assembleLines epilogueLines
  let back ← assembleLines d.returnLines
  return {
    site := jump :: List.replicate (displacedCount - 1) Instruction.nop.word
    stored := Bytes.ofWords before ++ routine ++ Bytes.ofWords (after ++ displaced ++ back)
    displaced }

def codeWords (d : Descriptor) (readPrimitive : UInt32) : Except HookError (List UInt32) :=
  (assembleLines (d.trampolineLines readPrimitive)).map (d.sentinel :: ·)

def writeCode (image : Bytes) (d : Descriptor) (readPrimitive : UInt32) :
    Except HookError (Nat × Bytes) := do
  let code ← codeWords d readPrimitive
  return (4 * code.length, ← writeWords image d.codeOffset code)

/-- Works out the patch that hooks the cheats of a session into an image, and the image with the
site and the code of the hook written. -/
def planCheats (image : Bytes) (d : Descriptor) (build : Build) (symbols : SymbolTable)
    (session : Cheat.Session) (stored : Except StoreError Bytes) :
    Except HookError (Patch × Bytes) := do
  let readPrimitive ← (symbols.address build readPrimitiveName).mapError .missingPrimitive
  let code ← codeWords d readPrimitive
  let _ ← part image d.codeOffset (4 * code.length)
  let patch ← plan image d session.joined stored
  let image ← writeWords image d.siteOffset patch.site
  let image ← writeWords image d.codeOffset code
  return (patch, image)

variable {σ : Type} [SlotStore σ]

def storeRoutine (store : σ) (d : Descriptor) (patch : Patch) : Except HookError Unit × σ :=
  let (result, store) := SlotStore.write store d.slot patch.stored
  (result.mapError .store, store)

def apply (image : Bytes) (d : Descriptor) (routine : Bytes) (store : σ) :
    Except HookError (Patch × Bytes) × σ :=
  let planned := do
    let patch ← plan image d routine (SlotStore.read store d.slot)
    return (patch, ← writeWords image d.siteOffset patch.site)
  match planned with
  | .error e => (.error e, store)
  | .ok (patch, image) =>
    let (result, store) := storeRoutine store d patch
    (result.map fun _ => (patch, image), store)

/-- Hooks the cheats of a session into an image and stores them. Also gives the store as it is
afterwards. -/
def embed (image : Bytes) (d : Descriptor) (build : Build) (symbols : SymbolTable)
    (session : Cheat.Session) (store : σ) : Except HookError (Patch × Bytes) × σ :=
  match planCheats image d build symbols session (SlotStore.read store d.slot) with
  | .error e => (.error e, store)
  | .ok (patch, image) =>
    let (result, store) := storeRoutine store d patch
    (result.map fun _ => (patch, image), store)

end CartPatch.Hook
