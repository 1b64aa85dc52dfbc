import WordMachine.Text.Hex

/-! # Faults

What can go wrong while instructions are fetched and executed. A fault is a cause, and
its wording is a function of it. A place can be put in front of a fault any number of
times without hiding the cause: `root` finds it again, `message` names every place from
the outermost in, and `chain` lists the wordings from the outside to the cause.
-/
namespace WordMachine

/-- The cause of a failed fetch, execution or emission. -/
inductive Fault where
  | emptyStack
  /-- The low byte of a fetched word is the number of no opcode. -/
  | unknownOpcode (byte : UInt8)
  /-- A word that names neither a RAM cell nor a register. -/
  | invalidAddress (address : Word)
  | divisionByZero
  | inputExhausted
  | stepLimit (limit : UInt64)
  /-- The input source failed, with the failure's own wording. -/
  | input (text : String)
  /-- The terminal failed, with the failure's own wording. -/
  | terminal (text : String)
  | alreadyStarted
  /-- A fault together with the place where it arose. -/
  | located (place : String) (cause : Fault)
  deriving Repr, DecidableEq

namespace Fault

def root : Fault → Fault
  | located _ cause => cause.root
  | fault => fault

def message : Fault → String
  | emptyStack => "attempted to pop off of an empty stack"
  | unknownOpcode byte => "command with opcode [" ++ toString byte.toNat ++ "] not found"
  | invalidAddress address => "invalid address " ++ Hex.render address
  | divisionByZero => "division by zero"
  | inputExhausted => "input source exhausted"
  | stepLimit limit => "step limit of " ++ toString limit.toNat ++ " instructions reached"
  | input text => "failed to read input: " ++ text
  | terminal text => "failed to write to terminal: " ++ text
  | alreadyStarted => "machine has already been started"
  | located place cause => place ++ ": " ++ cause.message

/-- The wordings of a fault and of everything below it, the outermost first. -/
def chain : Fault → List String
  | located place cause => (located place cause).message :: cause.chain
  | input text => [(input text).message, text]
  | terminal text => [(terminal text).message, text]
  | fault => [fault.message]

/-- Puts places in front of a fault, each outside those before it. -/
def within (fault : Fault) (places : List String) : Fault :=
  places.foldl (fun inner place => located place inner) fault

end Fault

end WordMachine
