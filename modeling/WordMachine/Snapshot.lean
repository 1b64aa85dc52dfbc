import WordMachine.Json.Reader
import WordMachine.Json.Writer
import WordMachine.Registers

/-! # Snapshots

What a machine shows of itself at one moment, its forms for people, and its JSON form. A
snapshot is dumped as a JSON object over several lines and is read back from an object
that has every field, of which only the last error may be missing, or from an array of
the fields in their order.
-/
namespace WordMachine

inductive Status where
  | new
  | running
  | finished
  deriving Repr, DecidableEq

namespace Status

def text : Status → String
  | new => "new"
  | running => "running"
  | finished => "finished"

/-- The status as a JSON document names it. -/
def tag : Status → String
  | new => "New"
  | running => "Running"
  | finished => "Finished"

/-- The status that a JSON document names. -/
def ofTag? (s : String) : Option Status :=
  if s = "New" then some new
  else if s = "Running" then some running
  else if s = "Finished" then some finished
  else none

/-- The status that a JSON value gives: its name, or an object of its name and null. -/
def ofJson? : Json → Option Status
  | .text (some s) => ofTag? s
  | .object [(some s, .null)] => ofTag? s
  | _ => none

end Status

structure Snapshot where
  status : Status
  address : Word
  registers : Registers
  stackDepth : Nat
  /-- The top of the stack, the newest entry first. -/
  stackHead : List Word
  counter : Nat
  errorCount : Nat
  /-- The wording of the last recorded fault. -/
  lastError : Option String
  deriving Repr, DecidableEq

namespace Snapshot

/-- The snapshot of a machine that holds zeros and has done nothing. -/
def blank : Snapshot := ⟨.new, 0, .zeros, 0, [], 0, 0, none⟩

def ofWord (w : Word) : Json := .ofNat w.toNat

/-- A word that a JSON value gives. -/
def word? (value : Json) : Option Word := (value.natBelow? 0x10000).map Nat.toUInt16

/-- A 64-bit count that a JSON value gives. -/
def count? (value : Json) : Option Nat := value.natBelow? UInt64.size

/-- The register bank that a JSON array of exactly eight words gives. -/
def registers? (value : Json) : Option Registers := do
  let words ← Json.listOf? word? value
  if h : words.length = registerCount then some ⟨⟨words.toArray, by simpa using h⟩⟩ else none

/-- A snapshot as a JSON object. -/
def toJson (s : Snapshot) : Json :=
  .object [
    (some "status", .ofString s.status.tag),
    (some "address", ofWord s.address),
    (some "registers", .array (s.registers.toList.map ofWord)),
    (some "stack_len", .ofNat s.stackDepth),
    (some "stack_head", .array (s.stackHead.map ofWord)),
    (some "counter", .ofNat s.counter),
    (some "error_count", .ofNat s.errorCount),
    (some "last_error", Json.ofOption .ofString s.lastError)]

/-- The snapshot whose fields are these values. -/
def ofFields? (status address registers stackDepth stackHead counter errorCount lastError : Json) :
    Option Snapshot := do
  return {
    status := ← Status.ofJson? status
    address := ← word? address
    registers := ← registers? registers
    stackDepth := ← count? stackDepth
    stackHead := ← Json.listOf? word? stackHead
    counter := ← count? counter
    errorCount := ← count? errorCount
    lastError := ← Json.optionOf? Json.string? lastError }

def ofJson? : Json → Option Snapshot
  | .object members => do
    let named ← Json.namedMembers? members
    let lastError ← Json.member? named "last_error"
    ofFields? (← ← Json.member? named "status") (← ← Json.member? named "address")
      (← ← Json.member? named "registers") (← ← Json.member? named "stack_len")
      (← ← Json.member? named "stack_head") (← ← Json.member? named "counter")
      (← ← Json.member? named "error_count") (lastError.getD .null)
  | .array [status, address, registers, stackDepth, stackHead, counter, errorCount, lastError] =>
    ofFields? status address registers stackDepth stackHead counter errorCount lastError
  | _ => none

def parse? (document : String) : Option Snapshot := do ofJson? (← Json.parse? document)

/-- A snapshot as a JSON document over several lines. -/
def dump (s : Snapshot) : String := s.toJson.pretty

/-- The registers in decimal. -/
def registerTexts (s : Snapshot) : List String := s.registers.toList.map fun w => toString w.toNat

/-- The registers by name, one a line. -/
def registerLines (s : Snapshot) : String :=
  "\n".intercalate (s.registerTexts.mapIdx fun i value => "r" ++ toString i ++ ": " ++ value)

/-- The snapshot in one line. -/
def statusLine (s : Snapshot) : String :=
  "[status]: " ++ s.status.text ++ " [addr]: " ++ Hex.render s.address
    ++ " [cnt]: " ++ toString s.counter ++ " [stack depth]: " ++ toString s.stackDepth
    ++ " [errors]: " ++ toString s.errorCount

end Snapshot

end WordMachine
