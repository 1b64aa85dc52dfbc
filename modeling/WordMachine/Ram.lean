import WordMachine.Word

/-! # RAM

The memory cells cover every address below `ramSize` and start as zeros. They keep the
sixteen bits they are given; reducing a value is the business of whoever stores it.
`get?`, `set?` and `load?` refuse what lies outside the cells.
-/
namespace WordMachine

/-- The memory cells, at addresses below `ramSize`. -/
structure Ram where
  cells : Vector Word ramSize
  deriving DecidableEq

namespace Ram

def zeros : Ram := ⟨Vector.replicate ramSize 0⟩

def get? (ram : Ram) (address : Word) : Option Word := ram.cells[address.toNat]?

/-- The word at an address, and zero where there is no cell. -/
def get (ram : Ram) (address : Word) : Word := (ram.get? address).getD 0

/-- Stores a word verbatim; where there is no cell nothing changes. -/
def set (ram : Ram) (address word : Word) : Ram := ⟨ram.cells.setIfInBounds address.toNat word⟩

def set? (ram : Ram) (address word : Word) : Option Ram :=
  if address.toNat < ramSize then some (ram.set address word) else none

/-- Stores words verbatim from an address on. -/
def setFrom (ram : Ram) : Nat → List Word → Ram
  | _, [] => ram
  | i, w :: rest => setFrom ⟨ram.cells.setIfInBounds i w⟩ (i + 1) rest

/-- Stores words verbatim from address 0 on, if they all fit. -/
def load? (ram : Ram) (words : List Word) : Option Ram :=
  if words.length ≤ ramSize then some (ram.setFrom 0 words) else none

def toList (ram : Ram) : List Word := ram.cells.toList

end Ram

end WordMachine
