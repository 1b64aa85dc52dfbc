import WordMachine.Json.Reader
import WordMachine.Json.Writer

/-! # Configuration

How a machine is paced, how much of its stack its snapshots show, and after how many
instructions it stops. A configuration is read from a JSON object, whose members may come
in any order, be missing, or be unknown, or from an array of the fields in their order.
-/
namespace WordMachine

structure Config where
  /-- Delay between instructions in microseconds; zero is none. -/
  pacingMicros : UInt64
  /-- How many stack entries a snapshot shows. -/
  stackHeadLength : UInt64
  /-- After how many instructions a run ends, if ever. -/
  maxSteps : Option UInt64
  deriving Repr, DecidableEq

namespace Config

def defaultStackHead : UInt64 := 10

def defaultPacing : UInt64 := 10

def default : Config := ⟨defaultPacing, defaultStackHead, none⟩

/-- Whole seconds of the delay between instructions. -/
def pacingSeconds (config : Config) : Nat := config.pacingMicros.toNat / 1000000

/-- Microseconds of the delay beyond its whole seconds. -/
def pacingSubsecMicros (config : Config) : Nat := config.pacingMicros.toNat % 1000000

/-- A 64-bit number of a configuration. -/
def uint64? (value : Json) : Option UInt64 := (value.natBelow? UInt64.size).map Nat.toUInt64

/-- A field that may be missing. -/
def field {α : Type} (read : Json → Option α) (fallback : α) : Option Json → Option α
  | none => some fallback
  | some value => read value

/-- The settings whose fields are these values, where they are there. -/
def ofFields? (pacing head steps : Option Json) : Option Config := do
  return {
    pacingMicros := ← field uint64? default.pacingMicros pacing
    stackHeadLength := ← field uint64? default.stackHeadLength head
    maxSteps := ← field (Json.optionOf? uint64?) default.maxSteps steps }

/-- The settings that a JSON value gives. -/
def ofJson? : Json → Option Config
  | .object members => do
    let named ← Json.namedMembers? members
    ofFields? (← Json.member? named "pacing_micros") (← Json.member? named "stack_head_len")
      (← Json.member? named "max_steps")
  | .array items => if items.length ≤ 3 then ofFields? items[0]? items[1]? items[2]? else none
  | _ => none

def parse? (document : String) : Option Config := do ofJson? (← Json.parse? document)

def ofUInt64 (n : UInt64) : Json := .ofNat n.toNat

def toJson (config : Config) : Json :=
  .object [
    (some "pacing_micros", ofUInt64 config.pacingMicros),
    (some "stack_head_len", ofUInt64 config.stackHeadLength),
    (some "max_steps", Json.ofOption ofUInt64 config.maxSteps)]

/-- The settings as a document on one line. -/
def text (config : Config) : String := config.toJson.compact

end Config

end WordMachine
