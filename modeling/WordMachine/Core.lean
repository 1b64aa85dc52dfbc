import WordMachine.Input
import WordMachine.Log
import WordMachine.Stack

/-! # What instructions act on

The core is the state that an executing instruction may touch: the store, the stack, the
input and the log. An action on it either returns a value or faults, and what it did
before a fault stays done. The lemmas `run_…` say what actions return and leave.
-/
namespace WordMachine

structure Core where
  store : Store
  stack : Stack
  input : Input
  log : Log
  deriving DecidableEq

/-- An action on the core that may fault. -/
abbrev Action := ExceptT Fault (StateM Core)

namespace Core

/-- A core of zeros with nothing to read. -/
def blank (log : Log) : Core := ⟨.zeros, .empty, .empty, log⟩

@[inline] def report (core : Core) (event : Event) : Core :=
  { core with log := core.log.add event }

end Core

namespace Action

/-- Fails with a fault or returns a value. -/
@[inline] def ofExcept {α : Type} : Except Fault α → Action α
  | .ok value => pure value
  | .error fault => throw fault

/-- Reads the word that an address stands for. -/
def read (address : Word) : Action Word := do
  let target ← ofExcept (Target.of address)
  modify (·.report (.read address target))
  return (← get).store.get target

/-- Stores a word, reduced modulo `0x8000`, where an address says. -/
def write (address word : Word) : Action Unit := do
  let target ← ofExcept (Target.of address)
  let value := word % modulus
  modify fun core =>
    { core.report (.write address target value) with store := core.store.set target value }

/-- The value of an operand word: a literal is itself, any other word is read. -/
def value (raw : Word) : Action Word :=
  if raw < modulus then pure raw else read raw

def push (word : Word) : Action Unit :=
  modify fun core => { core with stack := core.stack.push word }

/-- Takes the top entry off the stack, if there is one. -/
def pop? : Action (Option Word) :=
  modifyGet fun core =>
    match core.stack.pop? with
    | some (word, rest) => (some word, { core with stack := rest })
    | none => (none, core)

def pop : Action Word := do
  match ← pop? with
  | some word => return word
  | none => throw .emptyStack

def nextInput : Action InputEvent :=
  modifyGet fun core =>
    let (event, rest) := core.input.next
    (event, { core with input := rest })

def readByte : Action UInt8 := do
  match ← nextInput with
  | .byte value => return value
  | .failure reason => throw (.input reason)
  | .endOfInput => throw .inputExhausted

/-- A fault ends a sequence of actions, and what was done before it stays done. -/
theorem run_bind {α β : Type} (x : Action α) (f : α → Action β) (core : Core) :
    (x >>= f).run core =
      match x.run core with
      | (.ok a, core) => (f a).run core
      | (.error fault, core) => (.error fault, core) := by
  show (match x.run core with
    | (r, core) => (ExceptT.bindCont f r).run core) = _
  rcases x.run core with ⟨_ | _, _⟩ <;> rfl

theorem run_read (address : Word) (core : Core) :
    (read address).run core =
      match Target.of address with
      | .ok target => (.ok (core.store.get target), core.report (.read address target))
      | .error fault => (.error fault, core) := by
  cases h : Target.of address <;> simp [read, ofExcept, h] <;> rfl

theorem run_write (address word : Word) (core : Core) :
    (write address word).run core =
      match Target.of address with
      | .ok target =>
        (.ok (), { core.report (.write address target (word % modulus)) with
          store := core.store.set target (word % modulus) })
      | .error fault => (.error fault, core) := by
  cases h : Target.of address <;> simp [write, ofExcept, h] <;> rfl

theorem run_value (raw : Word) (core : Core) :
    (value raw).run core = if raw < modulus then (.ok raw, core) else (read raw).run core := by
  unfold value
  split <;> rfl

theorem run_nextInput (core : Core) :
    nextInput.run core = (.ok core.input.next.1, { core with input := core.input.next.2 }) := rfl

theorem run_pop? (core : Core) :
    pop?.run core =
      match core.stack.pop? with
      | some (word, rest) => (.ok (some word), { core with stack := rest })
      | none => (.ok none, core) := by
  show (let r := (match core.stack.pop? with
      | some (word, rest) => (some word, { core with stack := rest })
      | none => (none, core)); (Except.ok r.1, r.2)) = _
  cases core.stack.pop? <;> rfl

theorem run_pop (core : Core) :
    pop.run core =
      match core.stack.pop? with
      | some (word, rest) => (.ok word, { core with stack := rest })
      | none => (.error .emptyStack, core) := by
  rw [pop, run_bind, run_pop?]
  cases core.stack.pop? <;> rfl

theorem run_readByte (core : Core) :
    readByte.run core =
      match core.input.next with
      | (.byte b, rest) => (.ok b, { core with input := rest })
      | (.failure reason, rest) => (.error (.input reason), { core with input := rest })
      | (.endOfInput, rest) => (.error .inputExhausted, { core with input := rest }) := by
  rw [readByte, run_bind, run_nextInput]
  rcases core.input.next with ⟨_ | _ | _, _⟩ <;> rfl

end Action

end WordMachine
