import WordMachine.Config
import WordMachine.Core
import WordMachine.Image
import WordMachine.Instruction.Text
import WordMachine.Snapshot
import WordMachine.Terminal

/-! # Machines

A machine is a core together with a program counter, a status, the last recorded fault,
counters, a terminal and settings. Its monitor holds the snapshot published last and
whether someone asked the machine to stop. This module makes machines, looks at them from
outside, and exchanges their parts; `WordMachine.Machine.Step` sets them going.
-/
namespace WordMachine

/-- What observers of a machine share with it. -/
structure Monitor where
  /-- The snapshot published last. -/
  latest : Snapshot
  stopRequested : Bool
  deriving Repr, DecidableEq

structure Machine where
  core : Core
  pc : Word
  status : Status
  lastFault : Option Fault
  /-- The wording of the last fault, made once and shared by the snapshots. -/
  faultText : Option String
  errorCount : Nat
  /-- How many instructions were counted. -/
  counter : Nat
  lastInstruction : Option Instruction
  terminal : Terminal
  config : Config
  monitor : Monitor
  deriving DecidableEq

namespace Machine

def snapshot (m : Machine) : Snapshot where
  status := m.status
  address := m.pc
  registers := m.core.store.registers
  stackDepth := m.core.stack.depth
  stackHead := m.core.stack.head m.config.stackHeadLength.toNat
  counter := m.counter
  errorCount := m.errorCount
  lastError := m.faultText

def publish (m : Machine) : Machine :=
  let latest := m.snapshot
  { m with monitor := { m.monitor with latest } }

@[inline] def report (m : Machine) (event : Event) : Machine :=
  { m with core := m.core.report event }

/-- A machine of zeros that has done nothing and is connected to nothing. -/
def create (config : Config) (threshold : Option Level) : Machine :=
  let blank : Machine := {
    core := .blank (.empty threshold), pc := 0, status := .new, lastFault := none,
    faultText := none, errorCount := 0, counter := 0, lastInstruction := none,
    terminal := .unconnected, config, monitor := ⟨.blank, false⟩ }
  blank.publish.report .created

/-- A machine whose memory holds the image read from a source. -/
def ofImage (source : Input) (config : Config) (threshold : Option Level) :
    Except ImageError Machine :=
  let m := create config threshold
  match Image.load source m.core.store.ram m.core.log with
  | .error error => .error error
  | .ok (_, ram, log) =>
    .ok { m with core := { m.core with store := { m.core.store with ram }, log } }

def isHalted (m : Machine) : Bool := m.status = .finished

def lastText (m : Machine) : Option String := m.lastInstruction.map Instruction.text

/-- Whether the next instruction is to read from an input that has nothing left. -/
def awaitsInput (m : Machine) : Bool :=
  match Instruction.decodeIn? m.core.store.ram m.pc with
  | some (.ok i) => i.opcode = .input && m.core.input.isSpent
  | _ => false

def peek (m : Machine) (address : Word) : Except Fault Word := m.core.store.peek address

/-- Stores a word where an address says; a fault stores nothing. -/
def poke (m : Machine) (address word : Word) : Except Fault Machine :=
  match (Action.write address word).run m.core with
  | (.ok (), core) => .ok { m with core }
  | (.error fault, _) => .error fault

def requestStop (m : Machine) : Machine :=
  { m with monitor := { m.monitor with stopRequested := true } }

def setInput (m : Machine) (input : Input) : Machine := { m with core := { m.core with input } }

/-- Puts a device in front of the machine's transcript. -/
def setTerminal (m : Machine) (device : Device) : Machine :=
  { m with terminal := m.terminal.connect device }

def drain (m : Machine) : List UInt8 × Machine :=
  let (data, terminal) := m.terminal.drain
  (data, { m with terminal })

/-- Changes the store from outside; a missing result changes nothing. -/
def modifyStore? (m : Machine) (f : Store → Option Store) : Option Machine := do
  let store ← f m.core.store
  return { m with core := { m.core with store } }

/-- Copies words to address 0, if they all fit. -/
def load? (m : Machine) (words : List Word) : Option Machine :=
  m.modifyStore? fun store => (store.ram.load? words).map ({ store with ram := · })

/-- Stores a word verbatim in a memory cell. -/
def setCell? (m : Machine) (address word : Word) : Option Machine :=
  m.modifyStore? fun store => (store.ram.set? address word).map ({ store with ram := · })

/-- Stores a word verbatim in a register. -/
def setRegister? (m : Machine) (index : Nat) (word : Word) : Option Machine :=
  m.modifyStore? fun store =>
    (store.registers.set? index word).map ({ store with registers := · })

/-- Puts a word on the stack from outside. -/
def push (m : Machine) (word : Word) : Machine :=
  { m with core := { m.core with stack := m.core.stack.push word } }

/-- Takes the top of the stack off from outside. -/
def pop (m : Machine) : Except Fault (Word × Machine) :=
  match m.core.stack.pop? with
  | some (word, stack) => .ok (word, { m with core := { m.core with stack } })
  | none => .error .emptyStack

end Machine

end WordMachine
