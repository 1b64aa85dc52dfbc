import WordMachine.Listing
import WordMachine.Proofs.Instruction.Footprint

/-! # Listings never read outside memory

Listings are missing where they would have to read a cell that is not there. That does not happen.
Operands continue at 0 behind the top of memory, a listing of a range ends there, and one of a count
of lines continues at 0 too, so that every address it comes to is that of a cell.
-/
namespace WordMachine

namespace Instruction

/-- The word at an address, if there is a cell. -/
def readCell (ram : Ram) (address : Word) : ExceptT Fault Option Word :=
  ExceptT.lift (ram.get? address)

theorem readCell_of_lt (ram : Ram) {address : Word} (h : address.toNat < 0x8000) :
    readCell ram address = pure (ram.get address) := by
  rw [readCell, ram.get?_of_lt h]
  rfl

theorem readOperand_readCell (ram : Ram) (address : Word) (opcode : Opcode) (index : Nat) :
    readOperand (readCell ram) address opcode index =
      pure (operandAt ram address opcode index) := by
  unfold readOperand operandAt
  split
  · rw [readCell_of_lt ram (addressAfter_lt address _), addressAfter_eq, Nat.add_assoc]
  · rfl

/-- From a memory cell on, memory is decoded as the machine decodes it, and nothing is missing. -/
theorem decodeIn?_eq (store : Store) {address : Word} (h : address.toNat < 0x8000) :
    decodeIn? store.ram address = some (decode store.peek address) := by
  have hword : store.peek address = pure (store.ram.get address) := by
    rw [Store.peek_eq, if_pos h]
    rfl
  have hpeek : ∀ index op, readOperand store.peek address op index =
      pure (operandAt store.ram address op index) :=
    fun index op => readOperand_peek store address op index
  show (decode (readCell store.ram) address).run = _
  rw [decode, decode, readCell_of_lt _ h, hword, pure_bind, pure_bind]
  cases Opcode.ofWord (store.ram.get address) with
  | error fault => rfl
  | ok op =>
    simp only [readOperand_readCell, hpeek, bind_pure_comp, map_pure]
    rfl

section DecodeIn

variable {ram : Ram} {address : Word} (hinside : address.toNat < 0x8000)

include hinside

theorem decodeIn?_of_large (h : 21 < (ram.get address).toUInt8.toNat) :
    decodeIn? ram address = some (.error (.unknownOpcode (ram.get address).toUInt8)) := by
  have hdecode := @decode_peek_of_large ⟨ram, .zeros⟩ address hinside h
  rw [decodeIn?_eq ⟨ram, .zeros⟩ hinside, hdecode]

/-- What is decoded at a memory cell is the instruction that stands there. -/
theorem decodeIn?_eq_ok_iff {i : Instruction} :
    decodeIn? ram address = some (.ok i) ↔ i.StandsAt ram address := by
  have hexists : (ram.get address).toUInt8.toNat ≤ 21 →
      ∃ j, decodeIn? ram address = some (.ok j) ∧ j.StandsAt ram address := by
    intro hsmall
    obtain ⟨j, hdecode, hstands⟩ := @decode_peek_of_small ⟨ram, .zeros⟩ address hinside hsmall
    exact ⟨j, by rw [decodeIn?_eq ⟨ram, .zeros⟩ hinside, hdecode], hstands⟩
  constructor
  · intro hdecode
    rcases Nat.lt_or_ge 21 (ram.get address).toUInt8.toNat with hlarge | hsmall
    · rw [decodeIn?_of_large hinside hlarge] at hdecode
      cases hdecode
    · obtain ⟨j, hj, hstands⟩ := hexists hsmall
      rw [hj] at hdecode
      cases hdecode
      exact hstands
  · intro hstands
    have hsmall : (ram.get address).toUInt8.toNat ≤ 21 := by
      have hnumber := i.opcode.number_lt
      rw [hstands.opcode, ← UInt16.toNat_toUInt8] at hnumber
      omega
    obtain ⟨j, hj, hother⟩ := hexists hsmall
    rw [hj, hother.unique hstands]

end DecodeIn

/-- The operands of an instruction are the words of its operand cells. -/
theorem StandsAt.operands_eq {i : Instruction} {ram : Ram} {address : Word}
    (h : i.StandsAt ram address) : i.operands = i.operandCells.map ram.get := by
  have harity : min i.opcode.arity 3 = i.opcode.arity := by
    cases i.opcode <;> rfl
  have hthree : [i.a, i.b, i.c] = (List.range 3).map (operandAt ram address i.opcode) := by
    rw [h.a, h.b, h.c]
    rfl
  rw [operands, operandCells, hthree, ← List.map_take, List.take_range, harity, List.map_map]
  refine List.map_congr_left fun index hindex => ?_
  rw [operandAt, if_pos (List.mem_range.1 hindex), Function.comp_apply, h.place, addressAfter_eq,
    Nat.add_assoc]

/-- Of the first word only the low byte matters, and else the operand cells alone. -/
theorem StandsAt.congr {i : Instruction} {ram other : Ram} {address : Word}
    (h : i.StandsAt ram address)
    (hopcode : (other.get address).toUInt8 = (ram.get address).toUInt8)
    (hoperands : ∀ cell ∈ i.operandCells, other.get cell = ram.get cell) :
    i.StandsAt other address := by
  have hoperand : ∀ index, operandAt other address i.opcode index =
      operandAt ram address i.opcode index := by
    intro index
    unfold operandAt
    split
    · rename_i hindex
      have hcell := hoperands _ (mem_operandCells hindex)
      rwa [h.place, addressAfter_eq, ← Nat.add_assoc] at hcell
    · rfl
  refine ⟨h.place, ?_, ?_, ?_, ?_⟩
  · rw [h.opcode, ← UInt16.toNat_toUInt8, ← UInt16.toNat_toUInt8, hopcode]
  · rw [hoperand, h.a]
  · rw [hoperand, h.b]
  · rw [hoperand, h.c]

end Instruction

namespace ListingLine

theorem at?_of_standsAt {ram : Ram} {address : Word} (haddress : address.toNat < 0x8000)
    {i : Instruction} (h : i.StandsAt ram address) : at? ram address = some (.instruction i) := by
  rw [at?, ram.get?_of_lt haddress, (Instruction.decodeIn?_eq_ok_iff haddress).2 h]
  rfl

/-- A line shows the instruction that stands at its address or, where the opcode is unknown, the
word. -/
theorem at?_cases (ram : Ram) {address : Word} (h : address.toNat < 0x8000) :
    (∃ i, at? ram address = some (.instruction i) ∧ i.StandsAt ram address) ∨
    at? ram address = some (.unknown address (ram.get address)) ∧
      21 < (ram.get address).toUInt8.toNat := by
  rcases Nat.lt_or_ge 21 (ram.get address).toUInt8.toNat with hlarge | hsmall
  · refine .inr ⟨?_, hlarge⟩
    rw [at?, ram.get?_of_lt h, Instruction.decodeIn?_of_large h hlarge]
    rfl
  · obtain ⟨i, -, hstands⟩ :=
      @Instruction.decode_peek_of_small ⟨ram, .zeros⟩ address h hsmall
    exact .inl ⟨i, at?_of_standsAt h hstands, hstands⟩

theorem exists_at? (ram : Ram) {address : Word} (h : address.toNat < 0x8000) :
    ∃ line, at? ram address = some line := by
  rcases at?_cases ram h with ⟨i, hline, -⟩ | ⟨hline, -⟩
  · exact ⟨_, hline⟩
  · exact ⟨_, hline⟩

end ListingLine

namespace Listing

theorem linesUpTo?_of_le {ram : Ram} {last address : Nat} {line : ListingLine} (h : address ≤ last)
    (hline : ListingLine.at? ram address.toUInt16 = some line) :
    linesUpTo? ram last address =
      (linesUpTo? ram last (address + line.length)).map (line :: ·) := by
  rw [linesUpTo?, if_pos h, hline, Option.map_eq_bind]
  rfl

theorem linesUpTo?_of_lt {ram : Ram} {last address : Nat} (h : last < address) :
    linesUpTo? ram last address = some [] := by
  rw [linesUpTo?, if_neg (Nat.not_le.2 h)]

/-- The lines tile memory from an address on: each shows what stands where the one before ends.
They go on until one ends behind `last`. -/
inductive Tiles (ram : Ram) (last : Nat) : Nat → List ListingLine → Prop where
  | behind {address : Nat} (hbehind : last < address) : Tiles ram last address []
  | line {address : Nat} {line : ListingLine} {rest : List ListingLine} (hle : address ≤ last)
      (hline : ListingLine.at? ram address.toUInt16 = some line)
      (hrest : Tiles ram last (address + line.length) rest) :
      Tiles ram last address (line :: rest)

theorem exists_tiles (ram : Ram) {last : Nat} (hlast : last < 0x8000) (address : Nat) :
    ∃ lines, linesUpTo? ram last address = some lines ∧ Tiles ram last address lines := by
  induction hdistance : last + 1 - address using Nat.strongRecOn generalizing address with
  | ind distance ih =>
    rcases Nat.lt_or_ge last address with hbehind | hle
    · exact ⟨[], linesUpTo?_of_lt hbehind, .behind hbehind⟩
    · have hinside : address.toUInt16.toNat < 0x8000 := by
        rw [Nat.toUInt16_eq, UInt16.toNat_ofNat']
        omega
      obtain ⟨line, hline⟩ := ListingLine.exists_at? ram hinside
      have hpos := line.length_pos
      obtain ⟨rest, hrest, htiles⟩ := ih (last + 1 - (address + line.length)) (by omega)
        (address + line.length) rfl
      refine ⟨line :: rest, ?_, .line hle hline htiles⟩
      rw [linesUpTo?_of_le hle hline, hrest]
      rfl

/-- A listing of a range is never missing. -/
theorem exists_range? (ram : Ram) (first last : Word) :
    ∃ lines, range? ram first last = some lines := by
  have hend : min last.toNat (ramSize - 1) < 0x8000 := by
    rw [ramSize]
    omega
  obtain ⟨lines, hlines, -⟩ := exists_tiles ram hend first.toNat
  exact ⟨lines, hlines⟩

theorem linesFrom?_succ {ram : Ram} {address : Word} {line : ListingLine}
    (h : ListingLine.at? ram address = some line) (n : Nat) :
    linesFrom? ram address (n + 1) =
      (linesFrom? ram (Instruction.addressAfter address line.length) n).map (line :: ·) := by
  rw [linesFrom?, h, Option.map_eq_bind]
  rfl

/-- A listing of any number of lines from a memory cell on is never missing. -/
theorem exists_linesFrom? (ram : Ram) {address : Word} (h : address.toNat < 0x8000) (n : Nat) :
    ∃ lines, linesFrom? ram address n = some lines := by
  induction n generalizing address with
  | zero => exact ⟨[], rfl⟩
  | succ n ih =>
    obtain ⟨line, hline⟩ := ListingLine.exists_at? ram h
    obtain ⟨rest, hrest⟩ := ih (Instruction.addressAfter_lt address line.length)
    exact ⟨line :: rest, by rw [linesFrom?_succ hline, hrest]; rfl⟩

/-- What a listing with room set aside for its lines shows is what it shows without. -/
theorem linesFrom?_of_count? {ram : Ram} {address : Word} {n : Nat} {lines : List ListingLine}
    (h : count? ram address n = some lines) : linesFrom? ram address n = some lines := by
  unfold count? at h
  split at h
  · exact h
  · cases h

/-- As long as there is room for the lines, nothing is missing either. -/
theorem exists_count? (ram : Ram) {address : Word} (h : address.toNat < 0x8000) {n : Nat}
    (hroom : n ≤ maxLines) : ∃ lines, count? ram address n = some lines := by
  rw [count?_of_le hroom]
  exact exists_linesFrom? ram h n

end Listing

end WordMachine
