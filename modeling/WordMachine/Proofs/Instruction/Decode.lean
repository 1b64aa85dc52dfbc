import WordMachine.Instruction.Basic
import WordMachine.Proofs.Store

/-! # The instruction at an address

Through the address space, as the machine reads, and from a memory cell on, decoding finds the
operation that the low byte of the first word selects and as many operand words as the operation
takes, which continue at 0 behind the top of memory. It fails only where the low byte is above 21,
and never for an address.
-/
namespace WordMachine

namespace Opcode

theorem number_lt (op : Opcode) : op.number < 22 := by
  cases op <;> decide

theorem number_injective {op other : Opcode} (h : op.number = other.number) : op = other := by
  have hop := all_getElem?_number op
  rw [h, all_getElem?_number] at hop
  exact (Option.some.inj hop).symm

theorem ofWord_of_large {w : Word} (h : 21 < w.toUInt8.toNat) :
    ofWord w = .error (.unknownOpcode w.toUInt8) := by
  cases hop : ofWord w with
  | ok op =>
    have hnumber := ofWord_eq_ok_iff.1 hop
    have hlt := op.number_lt
    omega
  | error fault =>
    unfold ofWord at hop
    split at hop
    · cases hop
    · exact hop.symm

theorem ofWord_of_small {w : Word} (h : w.toUInt8.toNat ≤ 21) :
    ∃ op, ofWord w = .ok op ∧ op.number = w.toUInt8.toNat := by
  have hsize : w.toUInt8.toNat < all.size := Nat.lt_succ_of_le h
  refine ⟨all[w.toUInt8.toNat], ?_, number_getElem_all ⟨_, hsize⟩⟩
  rw [ofWord, Array.getElem?_eq_getElem hsize]

end Opcode

namespace Instruction

theorem length_le (i : Instruction) : i.length ≤ 4 := by
  rw [length]
  cases i.opcode <;> decide

theorem toNat_addressAfter (address : Word) (length : Nat) :
    (addressAfter address length).toNat = (address.toNat + length) % 0x8000 := by
  have haddress := address.toNat_lt
  have hlength : length.toUInt32.toNat = length % 2 ^ 32 := rfl
  rw [addressAfter, toNat_wrap, UInt32.toNat_add, UInt16.toNat_toUInt32, hlength]
  omega

theorem addressAfter_lt (address : Word) (length : Nat) :
    (addressAfter address length).toNat < 0x8000 :=
  wrap_lt _

theorem addressAfter_eq (address : Word) (length : Nat) :
    addressAfter address length = .ofNat ((address.toNat + length) % 0x8000) := by
  rw [← UInt16.toNat_inj, toNat_addressAfter, UInt16.toNat_ofNat']
  omega

/-- The operand word of this index that an operation at an address finds in memory; zero if the
operation takes fewer. -/
def operandAt (ram : Ram) (address : Word) (opcode : Opcode) (index : Nat) : Word :=
  if index < opcode.arity then ram.get (.ofNat ((address.toNat + 1 + index) % 0x8000)) else 0

/-- The instruction is the one whose words stand in memory from the address on. -/
structure StandsAt (i : Instruction) (ram : Ram) (address : Word) : Prop where
  place : i.address = address
  opcode : i.opcode.number = (ram.get address).toNat % 256
  a : i.a = operandAt ram address i.opcode 0
  b : i.b = operandAt ram address i.opcode 1
  c : i.c = operandAt ram address i.opcode 2

/-- No two instructions stand at the same address. -/
theorem StandsAt.unique {i j : Instruction} {ram : Ram} {address : Word}
    (hi : i.StandsAt ram address) (hj : j.StandsAt ram address) : i = j := by
  have hopcode : i.opcode = j.opcode :=
    Opcode.number_injective (hi.opcode.trans hj.opcode.symm)
  have ha := hi.a.trans (hopcode ▸ hj.a.symm)
  have hb := hi.b.trans (hopcode ▸ hj.b.symm)
  have hc := hi.c.trans (hopcode ▸ hj.c.symm)
  have hplace := hi.place.trans hj.place.symm
  cases i
  cases j
  simp_all

theorem readOperand_peek (store : Store) (address : Word) (opcode : Opcode) (index : Nat) :
    readOperand store.peek address opcode index =
      .ok (operandAt store.ram address opcode index) := by
  unfold readOperand operandAt
  split
  · rw [Store.peek_eq, if_pos (addressAfter_lt address _), addressAfter_eq, Nat.add_assoc]
  · rfl

section DecodePeek

variable {store : Store} {address : Word} (hinside : address.toNat < 0x8000)

include hinside

theorem decode_peek_of_large (h : 21 < (store.ram.get address).toUInt8.toNat) :
    decode store.peek address = .error (.unknownOpcode (store.ram.get address).toUInt8) := by
  rw [decode, Store.peek_eq, if_pos hinside]
  simp only [bind, Except.bind, Opcode.ofWord_of_large h]
  rfl

theorem decode_peek_of_small (h : (store.ram.get address).toUInt8.toNat ≤ 21) :
    ∃ i, decode store.peek address = .ok i ∧ i.StandsAt store.ram address := by
  obtain ⟨op, hop, hnumber⟩ := Opcode.ofWord_of_small h
  refine ⟨⟨address, op, operandAt store.ram address op 0, operandAt store.ram address op 1,
    operandAt store.ram address op 2⟩, ?_, rfl, ?_, rfl, rfl, rfl⟩
  · rw [decode, Store.peek_eq, if_pos hinside]
    simp only [bind, Except.bind, hop, readOperand_peek]
    rfl
  · rw [hnumber, UInt16.toNat_toUInt8]

end DecodePeek

end Instruction

end WordMachine
