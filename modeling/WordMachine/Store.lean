import WordMachine.Fault
import WordMachine.Ram
import WordMachine.Registers

/-! # The store

RAM and registers behind one address space. `Target.of` is the single place that decides
what an address means: below `0x8000` it is a memory cell, the next eight addresses are
the registers, and every address above is refused rather than folded back by a modulus.
-/
namespace WordMachine

inductive Target where
  | memory (address : Word)
  | register (index : Nat)
  deriving Repr, DecidableEq

namespace Target

/-- What an address stands for, or the fault that it stands for nothing. -/
def of (address : Word) : Except Fault Target :=
  if address < modulus then .ok (.memory address)
  else
    match registerIndex? address with
    | some index => .ok (.register index)
    | none => .error (.invalidAddress address)

/-- Whether there is a cell or register behind a target. -/
def InRange : Target → Prop
  | memory address => address.toNat < ramSize
  | register index => index < registerCount

/-- Every target that an address stands for exists. -/
theorem inRange_of {address : Word} {t : Target} (h : of address = .ok t) : t.InRange := by
  unfold of at h
  split at h
  · rename_i hlt
    cases h
    simpa [InRange, modulus, UInt16.lt_iff_toNat_lt] using hlt
  · split at h
    · rename_i hi
      cases h
      exact (registerIndex?_eq_some_iff.1 hi).1
    · cases h

end Target

structure Store where
  ram : Ram
  registers : Registers
  deriving DecidableEq

namespace Store

def zeros : Store := ⟨.zeros, .zeros⟩

def get (store : Store) : Target → Word
  | .memory address => store.ram.get address
  | .register index => store.registers.get index

def set (store : Store) (target : Target) (word : Word) : Store :=
  match target with
  | .memory address => { store with ram := store.ram.set address word }
  | .register index => { store with registers := store.registers.set index word }

/-- The word that an address stands for. -/
def peek (store : Store) (address : Word) : Except Fault Word :=
  (Target.of address).map store.get

end Store

end WordMachine
