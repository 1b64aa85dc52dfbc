import WordMachine.Core

/-! # Executing instructions

What each operation does to the core. Operands are resolved from left to right and only
when the operation needs them, and a destination is looked at last. The program counter
is left alone: an instruction answers with the effect that the machine is to commit.
-/
namespace WordMachine

inductive Effect where
  | proceed
  | jump (target : Word)
  | output (byte : UInt8)
  | halt
  deriving Repr, DecidableEq

namespace Instruction

def assign (target word : Word) : Action Effect := do
  Action.write target word
  return .proceed

/-- Jumps to the address that an operand gives. -/
def jumpTo (operand : Word) : Action Effect := do
  return .jump ((← Action.value operand) % modulus)

/-- Resolves both operands of an operation and stores its result. -/
def combine (i : Instruction) (operation : Word → Word → Except Fault Word) : Action Effect := do
  let x ← Action.value i.b
  let y ← Action.value i.c
  assign i.a (← Action.ofExcept (operation x y))

def flag (condition : Bool) : Word := if condition then 1 else 0

/-- The remainder of a division, which needs a divisor other than zero. -/
def remainder (x y : Word) : Except Fault Word :=
  if y = 0 then .error .divisionByZero else .ok (x % y)

/-- Executes an instruction whose successor in memory is at `next`. -/
def execute (i : Instruction) (next : Word) : Action Effect := do
  match i.opcode with
  | .halt => return .halt
  | .set => assign i.a (← Action.value i.b)
  | .push =>
    Action.push (← Action.value i.a)
    return .proceed
  | .pop => assign i.a (← Action.pop)
  | .eq => i.combine fun x y => .ok (flag (x == y))
  | .gt => i.combine fun x y => .ok (flag (x > y))
  | .jmp => jumpTo i.a
  | .jt => if (← Action.value i.a) % modulus ≠ 0 then jumpTo i.b else return .proceed
  | .jf => if (← Action.value i.a) % modulus = 0 then jumpTo i.b else return .proceed
  | .add => i.combine fun x y => .ok (wrap (x.toUInt32 + y.toUInt32))
  | .mult => i.combine fun x y => .ok (wrap (x.toUInt32 * y.toUInt32))
  | .mod => i.combine remainder
  | .and => i.combine fun x y => .ok (x &&& y)
  | .or => i.combine fun x y => .ok (x ||| y)
  | .not => assign i.a (~~~(← Action.value i.b) % modulus)
  | .rmem => assign i.a (← Action.read (← Action.value i.b))
  | .wmem =>
    let address ← Action.value i.a
    assign address (← Action.value i.b)
  | .call =>
    let target ← Action.value i.a
    Action.push next
    return .jump (target % modulus)
  | .ret =>
    match ← Action.pop? with
    | some address => return .jump (address % modulus)
    | none => return .halt
  | .out => return .output (← Action.value i.a).toUInt8
  | .input => assign i.a (← Action.readByte).toUInt16
  | .noop => return .proceed

end Instruction

end WordMachine
