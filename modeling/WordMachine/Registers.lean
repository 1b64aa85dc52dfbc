import WordMachine.Word

/-! # Registers

A bank of eight words that starts as zeros. Like the memory cells, registers keep the
sixteen bits they are given; `get?` and `set?` refuse an index outside the bank.
-/
namespace WordMachine

structure Registers where
  cells : Vector Word registerCount
  deriving Repr, DecidableEq

namespace Registers

def zeros : Registers := ⟨Vector.replicate registerCount 0⟩

def get? (registers : Registers) (index : Nat) : Option Word := registers.cells[index]?

/-- The word in a register, and zero where there is no such register. -/
def get (registers : Registers) (index : Nat) : Word := (registers.get? index).getD 0

/-- Stores a word verbatim; where there is no such register nothing changes. -/
def set (registers : Registers) (index : Nat) (word : Word) : Registers :=
  ⟨registers.cells.setIfInBounds index word⟩

def set? (registers : Registers) (index : Nat) (word : Word) : Option Registers :=
  if index < registerCount then some (registers.set index word) else none

def toList (registers : Registers) : List Word := registers.cells.toList

end Registers

end WordMachine
