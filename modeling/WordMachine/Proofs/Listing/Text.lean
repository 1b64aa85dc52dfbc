import WordMachine.Proofs.Instruction.Text
import WordMachine.Proofs.Listing

/-! # Listings tell memories apart

The text of a line tells the address and either the operation with its operand words or the unknown
word. So two memories are listed the same only if they agree on what the lines print: on the low
byte of each word that is printed as an operation and on all of each word that is printed as an
operand or as unknown. Where they agree on that, each line has the same length in both, and they are
listed the same.
-/
namespace WordMachine

namespace ListingLine

/-! ## The text of a line -/

/-- The lines show the same at the same address. -/
def Alike : ListingLine → ListingLine → Prop
  | instruction i, instruction j =>
    i.address = j.address ∧ i.opcode = j.opcode ∧ i.operands = j.operands
  | unknown address word, unknown other found => address = other ∧ word = found
  | _, _ => False

/-- What a line shows behind its address. -/
def body : ListingLine → String
  | instruction i => i.text
  | unknown _ word => "??? (" ++ (Hex.render word ++ ")")

theorem text_eq (line : ListingLine) :
    line.text = Hex.render line.address ++ (":\t" ++ line.body) := by
  cases line with
  | instruction i => rw [text, body, String.append_assoc]
  | unknown address word =>
    rw [text, body]
    simp only [String.append_assoc]

/-- All addresses are written in the same length, so that a text falls into address and body. -/
theorem text_eq_text_iff {line other : ListingLine} :
    line.text = other.text ↔ line.address = other.address ∧ line.body = other.body := by
  constructor
  · intro h
    rw [text_eq line, text_eq other] at h
    have hchars := congrArg String.toList h
    simp only [String.toList_append] at hchars
    have hlength : ∀ w : Word, (Hex.render w).toList.length = 6 := by
      intro w
      rw [Hex.toList_render]
      rfl
    obtain ⟨haddress, hrest⟩ :=
      List.append_inj hchars ((hlength line.address).trans (hlength other.address).symm)
    refine ⟨Hex.render_injective (String.toList_inj.1 haddress), ?_⟩
    exact String.toList_inj.1 (List.append_cancel_left hrest)
  · rintro ⟨haddress, hbody⟩
    rw [text_eq, text_eq, haddress, hbody]

/-- Lines with the same text show the same. -/
theorem text_eq_iff {line other : ListingLine} : line.text = other.text ↔ line.Alike other := by
  rw [text_eq_text_iff]
  cases line with
  | instruction i =>
    cases other with
    | instruction j => rw [body, body, Instruction.text_eq_iff]; rfl
    | unknown address word =>
      exact iff_of_false (fun h => i.text_ne_unknown _ h.2) id
  | unknown address word =>
    cases other with
    | instruction j =>
      exact iff_of_false (fun h => j.text_ne_unknown _ h.2.symm) id
    | unknown other found =>
      rw [body, body, String.append_right_inj, String.append_left_inj]
      exact and_congr_right' ⟨Hex.render_injective, congrArg Hex.render⟩

theorem Alike.length_eq {line other : ListingLine} (h : line.Alike other) :
    line.length = other.length := by
  cases line <;> cases other
  case instruction.instruction i j => exact congrArg (1 + ·.arity) h.2.1
  case unknown.unknown => rfl
  all_goals cases h

/-! ## What a line prints -/

/-- The cell of the word that a line prints as an operation. -/
def opcodeCells : ListingLine → List Word
  | instruction i => [i.address]
  | unknown .. => []

/-- The cells of the words that a line prints in full. -/
def wordCells : ListingLine → List Word
  | instruction i => i.operandCells
  | unknown address _ => [address]

/-- The other memory agrees on what these lines print. -/
def PrintsSame (ram other : Ram) (lines : List ListingLine) : Prop :=
  (∀ cell ∈ lines.flatMap opcodeCells, (other.get cell).toUInt8 = (ram.get cell).toUInt8) ∧
    ∀ cell ∈ lines.flatMap wordCells, other.get cell = ram.get cell

theorem printsSame_cons {ram other : Ram} {line : ListingLine} {rest : List ListingLine} :
    PrintsSame ram other (line :: rest) ↔
      PrintsSame ram other [line] ∧ PrintsSame ram other rest := by
  simp only [PrintsSame, List.flatMap_cons, List.flatMap_nil, List.append_nil, List.mem_append,
    or_imp, forall_and]
  exact and_and_and_comm

section At

variable {ram other : Ram} {address : Word} {line found : ListingLine}

theorem printsSame_instruction {i : Instruction} :
    PrintsSame ram other [instruction i] ↔
      (other.get i.address).toUInt8 = (ram.get i.address).toUInt8 ∧
        ∀ cell ∈ i.operandCells, other.get cell = ram.get cell := by
  simp [PrintsSame, opcodeCells, wordCells]

theorem printsSame_unknown {word : Word} :
    PrintsSame ram other [unknown address word] ↔ other.get address = ram.get address := by
  simp [PrintsSame, opcodeCells, wordCells]

/-- At the same address two memories are shown the same where they agree on what is printed. -/
theorem alike_at?_iff (haddress : address.toNat < 0x8000) (hline : at? ram address = some line)
    (hfound : at? other address = some found) :
    found.Alike line ↔ PrintsSame ram other [line] := by
  have hknown : ∀ {i : Instruction} {memory : Ram}, i.StandsAt memory address →
      (memory.get address).toUInt8.toNat ≤ 21 := by
    intro i memory hstands
    have hnumber := i.opcode.number_lt
    rw [hstands.opcode, ← UInt16.toNat_toUInt8] at hnumber
    omega
  rcases at?_cases ram haddress with ⟨i, hi, hstands⟩ | ⟨hunknown, hlarge⟩ <;>
    rcases at?_cases other haddress with ⟨j, hj, hother⟩ | ⟨hother, hlargeOther⟩
  · -- two instructions
    obtain rfl := Option.some.inj (hline.symm.trans hi)
    obtain rfl := Option.some.inj (hfound.symm.trans hj)
    rw [printsSame_instruction, hstands.place]
    constructor
    · rintro ⟨hplace, hopcode, hoperands⟩
      have hcells : j.operandCells = i.operandCells := by
        rw [Instruction.operandCells, Instruction.operandCells, hopcode, hplace]
      rw [hother.operands_eq, hstands.operands_eq, hcells] at hoperands
      refine ⟨?_, List.map_inj_left.1 hoperands⟩
      apply UInt8.toNat_inj.1
      rw [UInt16.toNat_toUInt8, UInt16.toNat_toUInt8]
      exact hother.opcode.symm.trans ((congrArg Opcode.number hopcode).trans hstands.opcode)
    · rintro ⟨hopcode, hoperands⟩
      obtain rfl := hother.unique (hstands.congr hopcode hoperands)
      exact ⟨rfl, rfl, rfl⟩
  · -- an instruction and an unknown word
    obtain rfl := Option.some.inj (hline.symm.trans hi)
    obtain rfl := Option.some.inj (hfound.symm.trans hother)
    refine iff_of_false id fun h => ?_
    obtain ⟨hopcode, -⟩ := printsSame_instruction.1 h
    rw [hstands.place] at hopcode
    have hsmall := hknown hstands
    rw [hopcode] at hlargeOther
    omega
  · -- an unknown word and an instruction
    obtain rfl := Option.some.inj (hline.symm.trans hunknown)
    obtain rfl := Option.some.inj (hfound.symm.trans hj)
    refine iff_of_false id fun h => ?_
    have hsmall := hknown hother
    rw [printsSame_unknown.1 h] at hsmall
    omega
  · -- two unknown words
    obtain rfl := Option.some.inj (hline.symm.trans hunknown)
    obtain rfl := Option.some.inj (hfound.symm.trans hother)
    rw [printsSame_unknown]
    exact and_iff_right rfl

end At

end ListingLine

namespace Listing

open ListingLine (PrintsSame)

/-- Line by line: as long as the lines are the same, both listings come to the same address. -/
theorem texts_linesUpTo?_iff {ram other : Ram} {last : Nat} (hlast : last < 0x8000) (address : Nat)
    {lines others : List ListingLine} (hlines : linesUpTo? ram last address = some lines)
    (hothers : linesUpTo? other last address = some others) :
    others.map (·.text) = lines.map (·.text) ↔ PrintsSame ram other lines := by
  induction hdistance : last + 1 - address using Nat.strongRecOn
    generalizing address lines others with
  | ind distance ih =>
    rcases Nat.lt_or_ge last address with hbehind | hle
    · rw [linesUpTo?_of_lt hbehind] at hlines hothers
      obtain rfl := Option.some.inj hlines
      obtain rfl := Option.some.inj hothers
      exact iff_of_true rfl ⟨nofun, nofun⟩
    · have hinside : address.toUInt16.toNat < 0x8000 := by
        rw [Nat.toUInt16_eq, UInt16.toNat_ofNat']
        omega
      obtain ⟨line, hline⟩ := ListingLine.exists_at? ram hinside
      obtain ⟨found, hfound⟩ := ListingLine.exists_at? other hinside
      rw [linesUpTo?_of_le hle hline] at hlines
      rw [linesUpTo?_of_le hle hfound] at hothers
      obtain ⟨rest, hrest, rfl⟩ := Option.map_eq_some_iff.1 hlines
      obtain ⟨further, hfurther, rfl⟩ := Option.map_eq_some_iff.1 hothers
      have hfirst := ListingLine.alike_at?_iff hinside hline hfound
      have hsplit : PrintsSame ram other (line :: rest) ↔
          PrintsSame ram other [line] ∧ PrintsSame ram other rest := ListingLine.printsSame_cons
      rw [List.map_cons, List.map_cons, List.cons_eq_cons, ListingLine.text_eq_iff, hfirst, hsplit]
      refine and_congr_right fun hsame => ?_
      have hpos := line.length_pos
      rw [(hfirst.2 hsame).length_eq] at hfurther
      exact ih (last + 1 - (address + line.length)) (by omega) (address + line.length) hrest
        hfurther rfl

/-- **Listings tell memories apart.** Instructions have the same text only if they are the same
operation on the same operand words. Lines have the same text only if they show the same at the same
address, where an instruction is never taken for an unknown word. And two memories have the same
lines in a range exactly if the second agrees with the first on the low byte of each word that the
lines of the first print as an operation and on each word that they print in full. -/
theorem texts_range?_iff :
    (∀ i j : Instruction, i.text = j.text ↔ i.opcode = j.opcode ∧ i.operands = j.operands) ∧
    (∀ line other : ListingLine, line.text = other.text ↔ line.Alike other) ∧
    ∀ (ram other : Ram) (first last : Word), ∃ lines others,
      range? ram first last = some lines ∧ range? other first last = some others ∧
      (others.map (·.text) = lines.map (·.text) ↔
        (∀ cell ∈ lines.flatMap ListingLine.opcodeCells,
          (other.get cell).toUInt8 = (ram.get cell).toUInt8) ∧
        ∀ cell ∈ lines.flatMap ListingLine.wordCells, other.get cell = ram.get cell) := by
  refine ⟨fun i j => Instruction.text_eq_iff, fun line other => ListingLine.text_eq_iff, ?_⟩
  intro ram other first last
  obtain ⟨lines, hlines⟩ := exists_range? ram first last
  obtain ⟨others, hothers⟩ := exists_range? other first last
  have hlast : min last.toNat (ramSize - 1) < 0x8000 := by
    rw [ramSize]
    omega
  exact ⟨lines, others, hlines, hothers, texts_linesUpTo?_iff hlast first.toNat hlines hothers⟩

/-- Memory that begins with an instruction that writes a letter, with this high byte in its first
word. -/
def letter (highByte : UInt8) : Ram := (Ram.zeros.set 0 (wordOfBytes 19 highByte)).set 1 65

theorem get_letter (highByte : UInt8) :
    (letter highByte).get 0 = wordOfBytes 19 highByte ∧ (letter highByte).get 1 = 65 := by
  constructor
  · rw [letter, Ram.get_set, if_neg (by decide), Ram.get_set, if_pos (by decide)]
  · rw [letter, Ram.get_set, if_pos (by decide)]

/-- Whatever the high byte is, the first line shows the same. -/
theorem range?_letter (highByte : UInt8) :
    range? (letter highByte) 0 0 = some [.instruction ⟨0, .out, 65, 0, 0⟩] := by
  have hstands : (⟨0, .out, 65, 0, 0⟩ : Instruction).StandsAt (letter highByte) 0 := by
    obtain ⟨hfirst, hsecond⟩ := get_letter highByte
    refine ⟨rfl, ?_, hsecond.symm, rfl, rfl⟩
    rw [hfirst, toNat_wordOfBytes]
    exact (Nat.add_mul_mod_self_left 19 256 _).symm
  have hline : ListingLine.at? (letter highByte) 0 = some (.instruction ⟨0, .out, 65, 0, 0⟩) :=
    ListingLine.at?_of_standsAt (by decide) hstands
  show linesUpTo? (letter highByte) 0 0 = _
  rw [linesUpTo?_of_le (Nat.le_refl 0) hline, linesUpTo?_of_lt (by decide)]
  rfl

/-- The high byte of an operation is not printed. -/
theorem texts_range?_iff_letter :
    ∃ lines others, range? (letter 0) 0 0 = some lines ∧ range? (letter 1) 0 0 = some others ∧
      (∀ cell ∈ lines.flatMap ListingLine.opcodeCells,
        ((letter 1).get cell).toUInt8 = ((letter 0).get cell).toUInt8) ∧
      (∀ cell ∈ lines.flatMap ListingLine.wordCells, (letter 1).get cell = (letter 0).get cell) ∧
      others.map (·.text) = lines.map (·.text) := by
  obtain ⟨-, -, hlistings⟩ := texts_range?_iff
  obtain ⟨lines, others, hlines, hothers, hiff⟩ := hlistings (letter 0) (letter 1) 0 0
  obtain ⟨hfirst, hsecond⟩ := get_letter 0
  obtain ⟨hother, hsame⟩ := get_letter 1
  obtain rfl := Option.some.inj (hlines.symm.trans (range?_letter 0))
  have hlow : ∀ cell ∈ [(0 : Word)],
      ((letter 1).get cell).toUInt8 = ((letter 0).get cell).toUInt8 := by
    intro cell hcell
    obtain rfl := List.mem_singleton.1 hcell
    rw [hfirst, hother]
    decide
  have hfull : ∀ cell ∈ [(1 : Word)], (letter 1).get cell = (letter 0).get cell := by
    intro cell hcell
    obtain rfl := List.mem_singleton.1 hcell
    rw [hsecond, hsame]
  exact ⟨_, others, hlines, hothers, hlow, hfull, hiff.2 ⟨hlow, hfull⟩⟩

end Listing

end WordMachine
