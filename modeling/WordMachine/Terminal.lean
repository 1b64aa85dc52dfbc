import WordMachine.Text.Utf8

/-! # The terminal

Bytes leave the machine through a device that may take them in parts, be interrupted, or
fail, as its script says. What the device accepts is appended to a transcript that the
machine shares with whoever shows it. An emission writes a whole byte string, retrying
interrupted writes and continuing after partial ones, and then flushes once; it stops at
the first failure.
-/
namespace WordMachine

/-- The bytes accepted so far and not yet taken away. -/
structure Transcript where
  bytes : Array UInt8
  deriving Repr, DecidableEq

namespace Transcript

def empty : Transcript := ⟨#[]⟩

def append (t : Transcript) (data : List UInt8) : Transcript := ⟨t.bytes.appendList data⟩

def contents (t : Transcript) : List UInt8 := t.bytes.toList

/-- The contents as text, with a replacement character for each part that is none. -/
def text (t : Transcript) : String := Utf8.decode t.contents

def drain (t : Transcript) : List UInt8 × Transcript := (t.contents, empty)

end Transcript

inductive WriteOutcome where
  | all
  /-- At most so many bytes are accepted. -/
  | atMost (limit : Nat)
  | interrupted
  | failure (reason : String)
  deriving Repr, DecidableEq

inductive FlushOutcome where
  | done
  | interrupted
  | failure (reason : String)
  deriving Repr, DecidableEq

/-- A device by what it does with the next writes and flushes; afterwards all succeed. -/
structure Device where
  writes : List WriteOutcome
  flushes : List FlushOutcome
  deriving Repr, DecidableEq

structure Emission where
  /-- The bytes that the device accepted. -/
  delivered : List UInt8
  /-- Whether the device was flushed, which it is once all bytes are accepted. -/
  flushed : Bool
  /-- Why the emission failed, if it did. -/
  failure : Option String
  deriving Repr, DecidableEq

namespace Device

/-- The device on which everything succeeds. -/
def perfect : Device := ⟨[], []⟩

/-- Writes bytes until all are accepted or a write fails; gives the bytes accepted, the
outcomes left, and the reason of a failure. -/
def writeAll : List WriteOutcome → List UInt8 → List UInt8 × List WriteOutcome × Option String
  | writes, [] => ([], writes, none)
  | [], data => (data, [], none)
  | .all :: writes, data => (data, writes, none)
  | .atMost 0 :: writes, _ => ([], writes, some "failed to write whole buffer")
  | .atMost limit :: writes, data =>
    let (delivered, rest, failure) := writeAll writes (data.drop limit)
    (data.take limit ++ delivered, rest, failure)
  | .interrupted :: writes, data => writeAll writes data
  | .failure reason :: writes, _ => ([], writes, some reason)

/-- Flushes once; gives the outcomes left and the reason of a failure. -/
def flush : List FlushOutcome → List FlushOutcome × Option String
  | [] => ([], none)
  | .done :: flushes => (flushes, none)
  | .interrupted :: flushes => (flushes, some "operation interrupted")
  | .failure reason :: flushes => (flushes, some reason)

def emit (device : Device) (data : List UInt8) : Emission × Device :=
  match writeAll device.writes data with
  | (delivered, writes, some reason) =>
    (⟨delivered, false, some reason⟩, { device with writes })
  | (delivered, writes, none) =>
    let (flushes, failure) := flush device.flushes
    (⟨delivered, true, failure⟩, ⟨writes, flushes⟩)

end Device

/-- A device, and the transcript that it writes to once it is connected. -/
structure Terminal where
  /-- A terminal that is not connected drops every byte. -/
  connected : Bool
  device : Device
  transcript : Transcript
  deriving Repr, DecidableEq

namespace Terminal

/-- The terminal of a new machine, which drops everything. -/
def unconnected : Terminal := ⟨false, .perfect, .empty⟩

/-- Puts a device in front of the transcript. -/
def connect (terminal : Terminal) (device : Device) : Terminal :=
  { terminal with connected := true, device }

/-- Writes bytes to the device and flushes it; gives the reason of a failure. -/
def emit (terminal : Terminal) (data : List UInt8) : Option String × Terminal :=
  let (emission, device) := terminal.device.emit data
  let transcript :=
    if terminal.connected then terminal.transcript.append emission.delivered
    else terminal.transcript
  (emission.failure, { terminal with device, transcript })

def drain (terminal : Terminal) : List UInt8 × Terminal :=
  let (data, transcript) := terminal.transcript.drain
  (data, { terminal with transcript })

end Terminal

end WordMachine
