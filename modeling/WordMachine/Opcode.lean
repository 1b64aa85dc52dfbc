import WordMachine.Fault

/-! # Opcodes

The twenty-two operations. An opcode is numbered by its place in the table `Opcode.all`
and has a fixed number of operand words and a mnemonic. Only the low byte of a fetched
word selects the opcode, and `ofWord_eq_ok_iff` says which.
-/
namespace WordMachine

inductive Opcode where
  | halt | set | push | pop | eq | gt | jmp | jt | jf | add | mult | mod | and | or | not
  | rmem | wmem | call | ret | out | input | noop
  deriving Repr, DecidableEq

namespace Opcode

/-- The operations in the order of their numbers. -/
def all : Array Opcode :=
  #[halt, set, push, pop, eq, gt, jmp, jt, jf, add, mult, mod, and, or, not, rmem, wmem, call,
    ret, out, input, noop]

/-- The number that encodes an operation. -/
def number (op : Opcode) : Nat := op.ctorIdx

/-- The operation that a fetched word selects by its low byte. -/
def ofWord (w : Word) : Except Fault Opcode :=
  match all[w.toUInt8.toNat]? with
  | some op => .ok op
  | none => .error (.unknownOpcode w.toUInt8)

def arity : Opcode → Nat
  | halt | ret | noop => 0
  | push | pop | jmp | call | out | input => 1
  | set | jt | jf | not | rmem | wmem => 2
  | eq | gt | add | mult | mod | and | or => 3

def mnemonic : Opcode → String
  | halt => "halt"
  | set => "set"
  | push => "push"
  | pop => "pop"
  | eq => "eq"
  | gt => "gt"
  | jmp => "jmp"
  | jt => "jt"
  | jf => "jf"
  | add => "add"
  | mult => "mult"
  | mod => "mod"
  | and => "and"
  | or => "or"
  | not => "not"
  | rmem => "rmem"
  | wmem => "wmem"
  | call => "call"
  | ret => "ret"
  | out => "out"
  | input => "in"
  | noop => "noop"

/-- The table lists every operation at its own number. -/
theorem all_getElem?_number (op : Opcode) : all[op.number]? = some op := by
  cases op <;> rfl

theorem number_getElem_all : ∀ i : Fin all.size, all[i].number = i.val := by decide

theorem all_getElem?_eq_some_iff {n : Nat} {op : Opcode} : all[n]? = some op ↔ n = op.number := by
  constructor
  · intro h
    obtain ⟨hn, hop⟩ := Array.getElem?_eq_some_iff.1 h
    rw [← hop]
    exact (number_getElem_all ⟨n, hn⟩).symm
  · rintro rfl
    exact all_getElem?_number op

/-- A word selects an operation exactly when its low byte is the operation's number. -/
theorem ofWord_eq_ok_iff {w : Word} {op : Opcode} :
    ofWord w = .ok op ↔ w.toUInt8.toNat = op.number := by
  rw [← all_getElem?_eq_some_iff, ofWord]
  cases all[w.toUInt8.toNat]? with
  | some found => simp
  | none => simp

end Opcode

end WordMachine
