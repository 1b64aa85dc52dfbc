import WordMachine.Proofs.Instruction.Text
import WordMachine.Proofs.Listing

/-! # Assembled programs are decoded again

An assembler lays out instructions one behind the other, each as the word of its operation and its
operand words, and goes on at 0 behind the top of memory. Of an operation's word only the low byte
says which it is; the high byte may be anything. Decoding from the first address on and going on
behind each instruction finds the same operations with the same operand words again, and so does a
listing. What an operand word looks like and what else memory holds has no part in it.
-/
namespace WordMachine

/-- An operation with as many operand words as it takes, and the high byte of its own word. -/
structure AssemblyLine where
  opcode : Opcode
  operands : List Word
  highByte : UInt8
  complete : operands.length = opcode.arity

namespace AssemblyLine

/-- The words of a line as they stand in memory. -/
def words (line : AssemblyLine) : List Word :=
  wordOfBytes line.opcode.number.toUInt8 line.highByte :: line.operands

/-- The instruction that a line stands for at an address. -/
def instruction (line : AssemblyLine) (address : Word) : Instruction where
  address := address
  opcode := line.opcode
  a := line.operands[0]?.getD 0
  b := line.operands[1]?.getD 0
  c := line.operands[2]?.getD 0

theorem length_words (line : AssemblyLine) : line.words.length = 1 + line.opcode.arity := by
  rw [words, List.length_cons, line.complete, Nat.add_comm]

theorem length_instruction (line : AssemblyLine) (address : Word) :
    (line.instruction address).length = line.words.length :=
  line.length_words.symm

theorem operands_instruction (line : AssemblyLine) (address : Word) :
    (line.instruction address).operands = line.operands := by
  obtain ⟨op, operands, highByte, complete⟩ := line
  have harity : op.arity ≤ 3 := by cases op <;> decide
  have hshort : operands.length ≤ 3 := complete ▸ harity
  simp only [Instruction.operands, instruction, ← complete]
  rcases operands with _ | ⟨_, _ | ⟨_, _ | ⟨_, _ | ⟨_, more⟩⟩⟩⟩
  · rfl
  · rfl
  · rfl
  · rfl
  · simp only [List.length_cons] at hshort
    omega

/-- The instructions that a program stands for from an address on. -/
def placed (address : Word) : List AssemblyLine → List Instruction
  | [] => []
  | line :: rest =>
    line.instruction address :: placed (Instruction.addressAfter address line.words.length) rest

end AssemblyLine

/-! ## Words one behind the other -/

namespace Instruction

theorem addressAfter_zero {address : Word} (h : address.toNat < 0x8000) :
    addressAfter address 0 = address := by
  rw [← UInt16.toNat_inj, toNat_addressAfter]
  omega

theorem addressAfter_add (address : Word) (m n : Nat) :
    addressAfter (addressAfter address m) n = addressAfter address (m + n) := by
  rw [← UInt16.toNat_inj, toNat_addressAfter, toNat_addressAfter, toNat_addressAfter]
  omega

end Instruction

namespace Ram

open Instruction (addressAfter addressAfter_lt addressAfter_zero addressAfter_add
  toNat_addressAfter)

/-- The words stand in memory from an address on, and from 0 on behind the top. -/
def Holds (ram : Ram) (address : Word) (words : List Word) : Prop :=
  ∀ k word, words[k]? = some word → ram.get (addressAfter address k) = word

/-- Stores words from an address on, and from 0 on behind the top. -/
def place (ram : Ram) (address : Word) : List Word → Ram
  | [] => ram
  | word :: rest => (ram.set address word).place (addressAfter address 1) rest

theorem Holds.of_append {ram : Ram} {address : Word} {first second : List Word}
    (h : ram.Holds address (first ++ second)) :
    ram.Holds address first ∧ ram.Holds (addressAfter address first.length) second := by
  constructor
  · intro k word hword
    apply h k word
    obtain ⟨hk, -⟩ := List.getElem?_eq_some_iff.1 hword
    rw [List.getElem?_append_left hk, hword]
  · intro k word hword
    rw [addressAfter_add]
    apply h (first.length + k) word
    rw [List.getElem?_append_right (Nat.le_add_right _ _), Nat.add_sub_cancel_left, hword]

/-- Cells behind the stored words are left alone. -/
theorem get_place_of_ne {ram : Ram} {address cell : Word} {words : List Word}
    (h : ∀ k < words.length, addressAfter address k ≠ cell) (haddress : address.toNat < 0x8000) :
    (ram.place address words).get cell = ram.get cell := by
  induction words generalizing ram address with
  | nil => rfl
  | cons word rest ih =>
    have hfirst : address ≠ cell := by
      have hne := h 0 (Nat.succ_pos _)
      rwa [addressAfter_zero haddress] at hne
    rw [place, ih, get_set, if_neg fun hsame => hfirst hsame.1]
    · intro k hk
      rw [addressAfter_add]
      exact h (1 + k) (by rw [List.length_cons]; omega)
    · exact addressAfter_lt address 1

/-- Stored words stand in memory if there is room for all of them. -/
theorem holds_place (ram : Ram) {address : Word} (haddress : address.toNat < 0x8000)
    {words : List Word} (hfits : words.length ≤ ramSize) :
    (ram.place address words).Holds address words := by
  induction words generalizing ram address with
  | nil =>
    intro k word hword
    cases hword
  | cons word rest ih =>
    rw [List.length_cons, ramSize] at hfits
    intro k found hfound
    cases k with
    | zero =>
      obtain rfl := Option.some.inj hfound
      -- the words behind the first do not come round to it
      have hbehind : ∀ k < rest.length, addressAfter (addressAfter address 1) k ≠ address := by
        intro k hk hsame
        have hvalue := congrArg UInt16.toNat hsame
        rw [addressAfter_add, toNat_addressAfter] at hvalue
        omega
      rw [place, addressAfter_zero haddress, get_place_of_ne hbehind (addressAfter_lt _ _), get_set,
        if_pos ⟨rfl, haddress⟩]
    | succ k =>
      have hrest := ih (ram.set address word) (addressAfter_lt address 1)
        (Nat.le_of_succ_le hfits) k found hfound
      rwa [addressAfter_add, Nat.add_comm 1 k] at hrest

end Ram

/-! ## Instructions one behind the other -/

namespace Instruction

/-- Decodes so many instructions, each further one behind the one before. -/
def decodeFrom? (ram : Ram) (address : Word) : Nat → Option (Except Fault (List Instruction))
  | 0 => some (.ok [])
  | n + 1 => do
    match ← decodeIn? ram address with
    | .error fault => return .error fault
    | .ok i => return (← decodeFrom? ram (addressAfter address i.length) n).map (i :: ·)

/-- The instructions stand in memory, each further one behind the one before. -/
inductive Consecutive (ram : Ram) : Word → List Instruction → Prop where
  | nil (address : Word) : Consecutive ram address []
  | cons {address : Word} {i : Instruction} {rest : List Instruction}
      (stands : i.StandsAt ram address)
      (behind : Consecutive ram (addressAfter address i.length) rest) :
      Consecutive ram address (i :: rest)

namespace Consecutive

variable {ram : Ram} {address : Word} {instructions : List Instruction}

theorem decodeFrom?_eq (h : Consecutive ram address instructions)
    (haddress : address.toNat < 0x8000) :
    decodeFrom? ram address instructions.length = some (.ok instructions) := by
  induction h with
  | nil => rfl
  | @cons address i rest stands _ ih =>
    have hrest := ih (addressAfter_lt address i.length)
    rw [List.length_cons, decodeFrom?, (decodeIn?_eq_ok_iff haddress).2 stands]
    show (decodeFrom? ram (addressAfter address i.length) rest.length).bind _ = _
    rw [hrest]
    rfl

theorem linesFrom?_eq (h : Consecutive ram address instructions)
    (haddress : address.toNat < 0x8000) :
    Listing.linesFrom? ram address instructions.length =
      some (instructions.map .instruction) := by
  induction h with
  | nil => rfl
  | @cons address i rest stands _ ih =>
    have hrest := ih (addressAfter_lt address i.length)
    have hline := ListingLine.at?_of_standsAt haddress stands
    rw [List.length_cons, Listing.linesFrom?_succ hline, ListingLine.length, hrest]
    rfl

/-- Every one of the instructions stands at its own address, which is that of a cell. -/
theorem standsAt_of_mem (h : Consecutive ram address instructions)
    (haddress : address.toNat < 0x8000) {i : Instruction} (hi : i ∈ instructions) :
    i.address.toNat < 0x8000 ∧ i.StandsAt ram i.address := by
  induction h with
  | nil => cases hi
  | @cons address first rest stands _ ih =>
    rcases List.mem_cons.1 hi with rfl | hrest
    · rw [stands.place]
      exact ⟨haddress, stands⟩
    · exact ih (addressAfter_lt address first.length) hrest

end Consecutive

/-- What is decoded where an instruction stands depends on its own words alone. -/
theorem StandsAt.decodeIn?_congr {i : Instruction} {ram other : Ram} (h : i.StandsAt ram i.address)
    (haddress : i.address.toNat < 0x8000)
    (hown : ∀ cell ∈ i.address :: i.operandCells, other.get cell = ram.get cell) :
    decodeIn? other i.address = decodeIn? ram i.address := by
  have hfirst : (other.get i.address).toUInt8 = (ram.get i.address).toUInt8 := by
    rw [hown i.address List.mem_cons_self]
  have hother : i.StandsAt other i.address :=
    h.congr hfirst fun cell hcell => hown cell (List.mem_cons_of_mem _ hcell)
  rw [(decodeIn?_eq_ok_iff haddress).2 h, (decodeIn?_eq_ok_iff haddress).2 hother]

end Instruction

/-! ## Programs -/

namespace AssemblyLine

open Instruction (addressAfter addressAfter_lt addressAfter_zero addressAfter_add addressAfter_eq
  operandAt decodeIn? decodeFrom? Consecutive)

variable {memory : Ram}

/-- Where the words of a line stand, the instruction stands that it is for. -/
theorem standsAt_of_holds {line : AssemblyLine} {address : Word} (haddress : address.toNat < 0x8000)
    (h : memory.Holds address line.words) :
    (line.instruction address).StandsAt memory address := by
  have hfirst : memory.get address = wordOfBytes line.opcode.number.toUInt8 line.highByte := by
    have hword := h 0 _ rfl
    rwa [addressAfter_zero haddress] at hword
  have hoperand : ∀ index, line.operands[index]?.getD 0 =
      operandAt memory address line.opcode index := by
    intro index
    unfold operandAt
    split
    · rename_i hindex
      have hlength : index < line.operands.length := by rwa [line.complete]
      have hword := h (index + 1) line.operands[index] (List.getElem?_eq_getElem hlength)
      rw [addressAfter_eq, Nat.add_comm index 1, ← Nat.add_assoc] at hword
      rw [hword, List.getElem?_eq_getElem hlength, Option.getD_some]
    · rename_i hindex
      have hlength : line.operands.length ≤ index := by
        rw [line.complete]
        omega
      rw [List.getElem?_eq_none hlength, Option.getD_none]
  refine ⟨rfl, ?_, hoperand 0, hoperand 1, hoperand 2⟩
  have hnumber := line.opcode.number_lt
  have hlow : line.opcode.number.toUInt8.toNat = line.opcode.number := by
    rw [Nat.toUInt8_eq, UInt8.toNat_ofNat']
    omega
  rw [hfirst, toNat_wordOfBytes, hlow]
  show line.opcode.number = _
  omega

theorem consecutive_of_holds {address : Word} (haddress : address.toNat < 0x8000)
    {program : List AssemblyLine} (h : memory.Holds address (program.flatMap words)) :
    Consecutive memory address (placed address program) := by
  induction program generalizing address with
  | nil => exact .nil address
  | cons line rest ih =>
    obtain ⟨hline, hrest⟩ := h.of_append
    refine .cons (standsAt_of_holds haddress hline) ?_
    rw [line.length_instruction address]
    exact ih (addressAfter_lt _ _) hrest

theorem length_placed (address : Word) (program : List AssemblyLine) :
    (placed address program).length = program.length := by
  induction program generalizing address with
  | nil => rfl
  | cons line rest ih => rw [placed, List.length_cons, ih, List.length_cons]

theorem map_placed (address : Word) (program : List AssemblyLine) :
    (placed address program).map (fun i => (i.opcode, i.operands)) =
      program.map fun line => (line.opcode, line.operands) := by
  induction program generalizing address with
  | nil => rfl
  | cons line rest ih => rw [placed, List.map_cons, ih, List.map_cons, operands_instruction]; rfl

/-- An instruction stands behind the words of those before it. -/
theorem address_placed {address : Word} (haddress : address.toNat < 0x8000)
    {program : List AssemblyLine} {k : Nat} {i : Instruction}
    (h : (placed address program)[k]? = some i) :
    i.address = addressAfter address ((program.take k).flatMap words).length := by
  induction program generalizing address k with
  | nil => cases h
  | cons line rest ih =>
    cases k with
    | zero =>
      obtain rfl := Option.some.inj h
      exact (addressAfter_zero haddress).symm
    | succ k =>
      have hplace := ih (addressAfter_lt _ _) h
      rw [addressAfter_add] at hplace
      rw [hplace, List.take_succ_cons, List.flatMap_cons, List.length_append]

/-- Every line takes up a word at least. -/
theorem length_le_words (program : List AssemblyLine) :
    program.length ≤ (program.flatMap words).length := by
  induction program with
  | nil => exact Nat.le_refl 0
  | cons line rest ih =>
    have hline := line.length_words
    simp only [List.length_cons, List.flatMap_cons, List.length_append]
    omega

/-- **An assembled program is decoded again.** Lay out a program that fits into memory from any cell
on, going on at 0 behind the top. Decoding as many instructions from there on finds the operations
and the operand words of the program, each at the address behind the words before it, and a listing
of as many lines shows their addresses and texts. Each of them is decoded from its own words alone:
memory may hold anything else in all other cells. -/
theorem assembled_decodes (ram : Ram) {address : Word} (haddress : address.toNat < 0x8000)
    (program : List AssemblyLine) (hfits : (program.flatMap words).length ≤ ramSize) :
    let memory := ram.place address (program.flatMap words)
    ∃ instructions, decodeFrom? memory address program.length = some (.ok instructions) ∧
      (instructions.map fun i => (i.opcode, i.operands)) =
        (program.map fun line => (line.opcode, line.operands)) ∧
      (∀ k i, instructions[k]? = some i → i.address.toNat =
        (address.toNat + ((program.take k).flatMap words).length) % ramSize) ∧
      (∃ lines, Listing.count? memory address program.length = some lines ∧
        lines.map (·.text) =
          instructions.map fun i => Hex.render i.address ++ ":\t" ++ i.text) ∧
      ∀ i ∈ instructions, ∀ other : Ram,
        (∀ cell ∈ i.address :: i.operandCells, other.get cell = memory.get cell) →
        decodeIn? other i.address = decodeIn? memory i.address := by
  intro memory
  have hholds : memory.Holds address (program.flatMap words) := ram.holds_place haddress hfits
  have hconsecutive := consecutive_of_holds haddress hholds
  have hdecode := hconsecutive.decodeFrom?_eq haddress
  have hlines := hconsecutive.linesFrom?_eq haddress
  rw [length_placed] at hdecode hlines
  refine ⟨placed address program, hdecode, map_placed address program, ?_, ?_, ?_⟩
  · intro k i hi
    rw [address_placed haddress hi, Instruction.toNat_addressAfter]
  · have hroom : program.length ≤ Listing.maxLines :=
      Nat.le_trans (length_le_words program) (Nat.le_trans hfits (by decide))
    refine ⟨_, by rw [Listing.count?_of_le hroom, hlines], ?_⟩
    rw [List.map_map]
    rfl
  · intro i hi other hown
    obtain ⟨hinside, hstands⟩ := hconsecutive.standsAt_of_mem haddress hi
    exact hstands.decodeIn?_congr hinside hown

/-- Two lines around the top of memory, of which the first has a high byte and an operand word that
looks like an operation. -/
def aroundTop : List AssemblyLine :=
  [⟨.set, [0x8003, 21], 0xff, rfl⟩, ⟨.out, [0x41], 0, rfl⟩]

/-- The first of the lines ends at 0 and the second stands behind it. -/
theorem assembled_decodes_aroundTop :
    let memory := Ram.zeros.place 0x7ffe (aroundTop.flatMap words)
    (0x7ffe : Word).toNat < 0x8000 ∧ (aroundTop.flatMap words).length ≤ ramSize ∧
    ∃ instructions i lines, decodeFrom? memory 0x7ffe 2 = some (.ok instructions) ∧
      instructions[1]? = some i ∧ i.address = 1 ∧ i.opcode = .out ∧ i.operands = [0x41] ∧
      Listing.count? memory 0x7ffe 2 = some lines ∧
      lines[1]?.map (·.text) = some "0x0001:\tout\t0x0041" := by
  intro memory
  have haddress : (0x7ffe : Word).toNat < 0x8000 := by decide
  have hfits : (aroundTop.flatMap words).length ≤ ramSize := by decide
  obtain ⟨instructions, hdecode, hsame, hplace, ⟨lines, hlines, htexts⟩, -⟩ :=
    assembled_decodes .zeros haddress aroundTop hfits
  have hsecond := congrArg (·[1]?) hsame
  simp only [List.getElem?_map] at hsecond
  obtain ⟨i, hi, hparts⟩ := Option.map_eq_some_iff.1 hsecond
  obtain ⟨hopcode, hoperands⟩ := Prod.mk.inj hparts
  have haddressOf : i.address = 1 := UInt16.toNat_inj.1 (hplace 1 i hi)
  have houtput : i.text = (⟨1, .out, 0x41, 0, 0⟩ : Instruction).text :=
    Instruction.text_eq_iff.2 ⟨hopcode, hoperands⟩
  have htext : i.text = "out\t0x0041" := houtput.trans (by decide)
  have hshown := congrArg (·[1]?) htexts
  simp only [List.getElem?_map, hi, Option.map_some, haddressOf, htext] at hshown
  exact ⟨haddress, hfits, instructions, i, lines, hdecode, hi, haddressOf, hopcode, hoperands,
    hlines, hshown⟩

end AssemblyLine

end WordMachine
