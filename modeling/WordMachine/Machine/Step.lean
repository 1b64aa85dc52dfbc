import WordMachine.Instruction.Execute
import WordMachine.Machine.Basic

/-! # Stepping

One step decodes the instruction at the program counter, moves the counter past it,
executes it, and commits its effect. A fault is recorded and the machine goes on with the
next instruction. Only `halt`, `ret` on an empty stack, the end of input and the step
limit finish a machine, and a finished machine no longer changes.
-/
namespace WordMachine.Machine

/-- Records a fault: it replaces the last one, is counted, and is reported. -/
def record (m : Machine) (fault : Fault) : Machine :=
  let m := m.report (.recorded fault m.pc m.counter)
  { m with
    lastFault := some fault, faultText := some fault.message, errorCount := m.errorCount + 1 }

def finish (m : Machine) : Machine := { m with status := .finished }

/-- Counts an instruction, and finishes a running machine that has reached its limit. -/
def tick (m : Machine) : Machine :=
  let m := { m with counter := m.counter + 1 }
  match m.config.maxSteps with
  | none => m
  | some limit =>
    if limit.toNat ≤ m.counter ∧ m.status = .running then (m.record (.stepLimit limit)).finish
    else m

/-- Writes bytes to the terminal; a failure is recorded and stops nothing. -/
def emit (m : Machine) (data : List UInt8) : Machine :=
  match m.terminal.emit data with
  | (none, terminal) => { m with terminal }
  | (some reason, terminal) => { m with terminal }.record (.terminal reason)

/-- The line that a machine writes when it halts. -/
def farewell (m : Machine) : String :=
  "TERMINATING: mem ind = " ++ toString m.pc.toNat
    ++ (match m.lastInstruction with
      | some i => ", " ++ i.text
      | none => "")
    ++ "\n"

def halt (m : Machine) : Machine := (m.emit m.farewell.toUTF8.toList).finish

/-- The place of a fault met while decoding. -/
def decodingPlace (address : Word) : String := "decode at " ++ Hex.render address

/-- The place of a fault met while executing. -/
def executingPlace (i : Instruction) : String :=
  i.opcode.mnemonic ++ " at " ++ Hex.render i.address

/-- Commits what executing an instruction answered. -/
def commit (m : Machine) (i : Instruction) : Except Fault Effect → Machine
  | .ok .halt => m.halt
  | .ok .proceed => m.tick
  | .ok (.jump target) => { m with pc := target }.tick
  | .ok (.output byte) => (m.emit [byte]).tick
  | .error .inputExhausted =>
    ((m.report (.exhausted i.address)).record .inputExhausted).finish
  | .error fault => (m.record (.located (executingPlace i) fault)).tick

/-- Executes a decoded instruction and commits its effect. -/
def perform (m : Machine) (i : Instruction) : Machine :=
  let m := { m with pc := Instruction.addressAfter i.address i.length }
  let m := m.report (.fetched i.opcode i.address m.counter i.operands)
  let (result, core) := (i.execute m.pc).run m.core
  { m with core, lastInstruction := some i }.commit i result

/-- Decodes and performs the next instruction; an unknown word is skipped with a fault. -/
def cycle (m : Machine) : Machine :=
  let (decoded, core) := (Instruction.decode Action.read m.pc).run m.core
  match decoded with
  | .ok i => { m with core }.perform i
  | .error fault =>
    ({ m with core, pc := Instruction.addressAfter m.pc 1 }.record
      (.located (decodingPlace m.pc) fault)).tick

def start (m : Machine) : Machine := { m with status := .running }.report .started

/-- Executes one instruction and publishes a snapshot, unless the machine has finished. -/
def step (m : Machine) : Machine :=
  match m.status with
  | .finished => m
  | .new => m.start.cycle.publish
  | .running => m.cycle.publish

/-- Executes one instruction like `step` and tells the status. Of a finished machine it is told
before anything is looked at, of any other after its snapshot was published. -/
def advance (m : Machine) : Status × Machine :=
  match m.status with
  | .finished => (.finished, m)
  | .new =>
    let m := m.start.cycle.publish
    (m.status, m)
  | .running =>
    let m := m.cycle.publish
    (m.status, m)

/-- Executes so many steps; once the machine has finished there are none left to execute. -/
def steps (m : Machine) : Nat → Machine
  | 0 => m
  | n + 1 => if m.isHalted then m else m.step.steps n

theorem step_of_isHalted {m : Machine} (h : m.isHalted = true) : m.step = m := by
  have hstatus : m.status = .finished := by simpa [isHalted] using h
  simp [step, hstatus]

theorem steps_of_isHalted {m : Machine} (h : m.isHalted = true) (n : Nat) : m.steps n = m := by
  cases n with
  | zero => rfl
  | succ n => simp [steps, h]

theorem steps_succ (m : Machine) (n : Nat) : m.steps (n + 1) = m.step.steps n := by
  rw [steps]
  split
  · rename_i h
    rw [step_of_isHalted h, steps_of_isHalted h]
  · rfl

end WordMachine.Machine
