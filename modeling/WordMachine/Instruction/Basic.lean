import WordMachine.Opcode
import WordMachine.Ram

/-! # Instructions

An instruction is an opcode word followed by as many operand words as the opcode takes.
Decoding reads the words one by one through whatever reader it is given, and operand
addresses continue at 0 above the top of memory.
-/
namespace WordMachine

/-- A decoded instruction. Operands beyond the arity are zero unless they were given. -/
structure Instruction where
  address : Word
  opcode : Opcode
  a : Word
  b : Word
  c : Word
  deriving Repr, DecidableEq

namespace Instruction

/-- An instruction from at most three operand words; missing ones are zero. -/
def ofOperands? (address : Word) (opcode : Opcode) : List Word → Option Instruction
  | [] => some ⟨address, opcode, 0, 0, 0⟩
  | [a] => some ⟨address, opcode, a, 0, 0⟩
  | [a, b] => some ⟨address, opcode, a, b, 0⟩
  | [a, b, c] => some ⟨address, opcode, a, b, c⟩
  | _ => none

def operands (i : Instruction) : List Word := [i.a, i.b, i.c].take i.opcode.arity

def length (i : Instruction) : Nat := 1 + i.opcode.arity

/-- The address that follows an instruction of `length` words, wrapping around the top. -/
def addressAfter (address : Word) (length : Nat) : Word :=
  wrap (address.toUInt32 + length.toUInt32)

/-- Reads operand `index` of an instruction, or gives zero when its opcode takes fewer. -/
@[inline] def readOperand {m : Type → Type} [Monad m] (read : Word → m Word) (address : Word)
    (opcode : Opcode) (index : Nat) : m Word :=
  if index < opcode.arity then read (addressAfter address (1 + index)) else pure 0

/-- Decodes the instruction at an address, reading its words in order. -/
@[inline] def decode {m : Type → Type} [Monad m] [MonadExceptOf Fault m] (read : Word → m Word)
    (address : Word) : m Instruction := do
  match Opcode.ofWord (← read address) with
  | .error fault => throw fault
  | .ok opcode =>
    let a ← readOperand read address opcode 0
    let b ← readOperand read address opcode 1
    let c ← readOperand read address opcode 2
    return { address, opcode, a, b, c }

/-- Decodes the instruction at an address of memory; missing if a word to read is outside. -/
def decodeIn? (ram : Ram) (address : Word) : Option (Except Fault Instruction) :=
  let read (a : Word) : ExceptT Fault Option Word := ExceptT.lift (ram.get? a)
  (decode read address).run

end Instruction

end WordMachine
