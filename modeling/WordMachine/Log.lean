import WordMachine.Instruction.Basic
import WordMachine.Store
import WordMachine.Text.Quoted

/-! # The event log

The machine reports what it does as events. A log keeps the events that are at least as
severe as its threshold; a log without a threshold keeps none. Each event has one line
of text: its level, its message, and its fields. Characters of the message that could give
a terminal orders stand in the line as their codes.
-/
namespace WordMachine

inductive Level where
  | error | warn | info | debug | trace
  deriving Repr, DecidableEq

def Level.name : Level → String
  | error => "ERROR"
  | warn => "WARN"
  | info => "INFO"
  | debug => "DEBUG"
  | trace => "TRACE"

/-- How far a level is from the most severe one. -/
def Level.rank (level : Level) : Nat := level.ctorIdx

inductive Event where
  /-- A word was read through the address space. -/
  | read (address : Word) (target : Target)
  /-- A word was stored through the address space; `value` is the stored word. -/
  | write (address : Word) (target : Target) (value : Word)
  /-- A machine came into being. -/
  | created
  /-- A program image of so many words was copied into RAM. -/
  | imageLoaded (words : Nat)
  /-- The first step began. -/
  | started
  /-- An instruction was decoded and is about to be executed. -/
  | fetched (opcode : Opcode) (address : Word) (counter : Nat) (operands : List Word)
  /-- A fault was recorded. -/
  | recorded (fault : Fault) (address : Word) (counter : Nat)
  /-- The instruction at an address found no more input. -/
  | exhausted (address : Word)
  /-- A run ended on request. -/
  | stopped (address : Word) (counter : Nat)
  /-- A run ended. -/
  | finished (address : Word) (counter : Nat) (errors : Nat)
  deriving Repr, DecidableEq

namespace Event

@[inline] def level : Event → Level
  | read .. | write .. => .trace
  | created | imageLoaded .. | fetched .. => .debug
  | started | stopped .. | finished .. => .info
  | exhausted .. => .warn
  | recorded .. => .error

def targetText : Target → String
  | .memory address => "Memory(" ++ toString address.toNat ++ ")"
  | .register index => "Register(" ++ toString index ++ ")"

def wordsText (words : List Word) : String :=
  "[" ++ ", ".intercalate (words.map fun w => toString w.toNat) ++ "]"

def message : Event → String
  | read .. => "read"
  | write .. => "write"
  | created => "vm created"
  | imageLoaded .. => "program image loaded"
  | started => "started"
  | fetched opcode .. => opcode.mnemonic
  | recorded fault .. => fault.message
  | exhausted .. => "input exhausted, stopping"
  | stopped .. => "stop requested"
  | finished .. => "finished"

/-- The named fields of an event. -/
def fields : Event → List (String × String)
  | read address target => [("addr", toString address.toNat), ("target", targetText target)]
  | write address target value =>
    [("addr", toString address.toNat), ("target", targetText target),
      ("value", toString value.toNat)]
  | created | started => []
  | imageLoaded words => [("words", toString words)]
  | fetched _ address counter operands =>
    [("addr", toString address.toNat), ("cnt", toString counter), ("ops", wordsText operands)]
  | recorded _ address counter | stopped address counter =>
    [("addr", toString address.toNat), ("cnt", toString counter)]
  | exhausted address => [("addr", toString address.toNat)]
  | finished address counter errors =>
    [("addr", toString address.toNat), ("cnt", toString counter), ("errors", toString errors)]

/-- The ASCII characters that can give a terminal orders: bell, backspace, form feed, escape
and delete. -/
def terminalOrders : List Char := ['\x07', '\x08', '\x0c', '\x1b', '\x7f']

/-- A character of a message as it stands in a line: what could give a terminal orders, which
the controls from 80 to 9f also can, as its code, and all else as itself. -/
def disarmed (c : Char) : String :=
  if c ∈ terminalOrders then
    "\\x" ++ (if c.toNat < 16 then "0" else "") ++ Text.codeDigits c
  else if 0x80 ≤ c.toNat ∧ c.toNat ≤ 0x9F then "\\u\x7b" ++ Text.codeDigits c ++ "\x7d"
  else c.toString

def line (event : Event) : String :=
  event.level.name ++ " " ++ String.join (event.message.toList.map disarmed)
    ++ String.join (event.fields.map fun (name, value) => " " ++ name ++ "=" ++ value)

end Event

/-- The events kept so far, the newest first. -/
structure Log where
  threshold : Option Level
  newest : List Event
  deriving Repr, DecidableEq

namespace Log

def empty (threshold : Option Level) : Log := ⟨threshold, []⟩

/-- Whether events of a level are kept. -/
@[inline] def keeps (log : Log) (level : Level) : Bool :=
  match log.threshold with
  | some threshold => level.rank ≤ threshold.rank
  | none => false

/-- Adds an event, if its level is kept. -/
@[inline] def add (log : Log) (event : Event) : Log :=
  if log.keeps event.level then { log with newest := event :: log.newest } else log

/-- The events kept, the oldest first. -/
def events (log : Log) : List Event := log.newest.reverse

def lines (log : Log) : List String := log.events.map Event.line

end Log

end WordMachine
