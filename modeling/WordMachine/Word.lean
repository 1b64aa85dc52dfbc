/-! # Words and the address space

Memory words are stored in sixteen bits while the machine computes with fifteen:
every result is reduced modulo `0x8000` before it is stored. The spare top bit lets
an operand word name a register. Words below `0x8000` are literals or RAM addresses,
the eight words from `0x8000` on name the registers, and the rest name nothing.
-/
namespace WordMachine

abbrev Word := UInt16

abbrev ramSize : Nat := 0x8000

abbrev registerCount : Nat := 8

/-- The modulus of every stored value, which is also the first word above the literals. -/
def modulus : Word := 0x8000

/-- The word that names register 0. -/
def registerBase : Word := modulus

/-- The first word above the names of the registers. -/
def registerEnd : Word := 0x8008

/-- Reduces a wide arithmetic result into the address space. -/
def wrap (value : UInt32) : Word := (value % 0x8000).toUInt16

def isRegister (raw : Word) : Bool := registerBase ≤ raw && raw < registerEnd

/-- The index of the register that a word names. -/
def registerIndex? (raw : Word) : Option Nat :=
  if isRegister raw then some (raw - registerBase).toNat else none

def wordOfBytes (low high : UInt8) : Word := low.toUInt16 ||| (high.toUInt16 <<< 8)

def bytesOfWord (w : Word) : List UInt8 := [w.toUInt8, (w >>> 8).toUInt8]

theorem toNat_wrap (value : UInt32) : (wrap value).toNat = value.toNat % 0x8000 := by
  simp only [wrap, UInt32.toNat_toUInt16, UInt32.toNat_mod, UInt32.reduceToNat]
  omega

theorem isRegister_iff (raw : Word) :
    isRegister raw = true ↔ 0x8000 ≤ raw.toNat ∧ raw.toNat < 0x8008 := by
  simp [isRegister, registerBase, registerEnd, modulus, UInt16.le_iff_toNat_le,
    UInt16.lt_iff_toNat_lt]

theorem registerIndex?_eq_some_iff {raw : Word} {i : Nat} :
    registerIndex? raw = some i ↔ i < registerCount ∧ raw.toNat = 0x8000 + i := by
  have hraw := raw.toNat_lt
  unfold registerIndex?
  split
  · rename_i h
    rw [isRegister_iff] at h
    have hle : registerBase ≤ raw := by
      simp [registerBase, modulus, UInt16.le_iff_toNat_le, h.1]
    have hsub : (raw - registerBase).toNat = raw.toNat - 0x8000 :=
      UInt16.toNat_sub_of_le _ _ hle
    simp only [Option.some.injEq, hsub, registerCount]
    omega
  · rename_i h
    rw [isRegister_iff] at h
    simp only [registerCount, reduceCtorEq, false_iff, not_and]
    omega

end WordMachine
