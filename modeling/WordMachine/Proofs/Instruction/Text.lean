import WordMachine.Instruction.Text
import WordMachine.Proofs.Text.Hex

/-! # The text of an instruction tells all of it

The parts of an instruction's text stand between tabs and hold none themselves, so that the text
falls into its parts again. The first part names one operation only. Each further part stands for
one operand word only: registers, literals and words that are neither begin differently.
-/
namespace WordMachine

namespace Opcode

/-- The operation of this name. -/
def ofMnemonic? (name : String) : Option Opcode := all.find? fun op => op.mnemonic == name

theorem ofMnemonic?_mnemonic (op : Opcode) : ofMnemonic? op.mnemonic = some op := by
  cases op <;> rfl

theorem mnemonic_injective {op other : Opcode} (h : op.mnemonic = other.mnemonic) : op = other := by
  have hname := congrArg ofMnemonic? h
  simpa only [ofMnemonic?_mnemonic, Option.some.injEq] using hname

theorem tab_not_mem_mnemonic (op : Opcode) : '\t' ∉ op.mnemonic.toList := by
  cases op <;> decide

end Opcode

namespace Instruction

/-! ## Operands -/

/-- A word is written as the register that it names, as the literal that it is, or with two question
marks in front. -/
theorem operandText_cases (raw : Word) :
    (∃ index < registerCount, raw.toNat = 0x8000 + index ∧
      operandText raw = "r" ++ toString index) ∨
    operandText raw = Hex.render raw ∨ operandText raw = "??" ++ Hex.render raw := by
  unfold operandText
  cases hindex : registerIndex? raw with
  | some index =>
    obtain ⟨hlt, hraw⟩ := registerIndex?_eq_some_iff.1 hindex
    exact .inl ⟨index, hlt, hraw, rfl⟩
  | none =>
    simp only
    split
    · exact .inr (.inl rfl)
    · exact .inr (.inr rfl)

theorem index_injective {i j : Nat} (h : toString i = toString j) : i = j := by
  have hdigits := congrArg (fun text => Nat.ofDigitChars 10 text.toList 0) h
  simpa [Nat.toString_eq_ofList_toDigits] using hdigits

theorem tab_not_mem_index : ∀ index < registerCount, '\t' ∉ (toString index).toList := by
  decide

theorem tab_not_mem_operandText (raw : Word) : '\t' ∉ (operandText raw).toList := by
  rcases operandText_cases raw with ⟨index, hindex, -, h⟩ | h | h
  · rw [h, String.toList_append, List.mem_append]
    rintro (hmark | hdigit)
    · exact absurd hmark (by decide)
    · exact tab_not_mem_index index hindex hdigit
  · rw [h]
    exact Hex.tab_not_mem_render raw
  · have htab := Hex.tab_not_mem_render raw
    simp [h, htab]

/-- No two words are written the same as operands. -/
theorem operandText_injective {v w : Word} (h : operandText v = operandText w) : v = w := by
  -- the three forms begin with different characters
  have hstart : ∀ x : Word, ∃ rest, (Hex.render x).toList = '0' :: rest :=
    fun x => ⟨_, Hex.toList_render x⟩
  obtain ⟨restV, hrestV⟩ := hstart v
  obtain ⟨restW, hrestW⟩ := hstart w
  rcases operandText_cases v with ⟨i, -, hv, htext⟩ | htext | htext <;>
    rcases operandText_cases w with ⟨j, -, hw, hother⟩ | hother | hother <;>
    rw [htext, hother] at h
  case inl.inl =>
    have hindex : i = j := index_injective ((String.append_right_inj _).1 h)
    apply UInt16.toNat_inj.1
    rw [hv, hw, hindex]
  case inr.inl.inr.inl => exact Hex.render_injective h
  case inr.inr.inr.inr => exact Hex.render_injective ((String.append_right_inj _).1 h)
  all_goals
    have hlist := congrArg String.toList h
    simp [hrestV, hrestW] at hlist

/-! ## Instructions -/

/-- The parts of an instruction's text: its operation and its operands. -/
def textParts (i : Instruction) : List String := i.opcode.mnemonic :: i.operands.map operandText

theorem join_tabs (first : String) (parts : List String) :
    first ++ String.join (parts.map fun part => "\t" ++ part) =
      "\t".intercalate (first :: parts) := by
  induction parts generalizing first with
  | nil => simp
  | cons part parts ih =>
    rw [List.map_cons, String.join_cons, String.intercalate_cons_cons, ← ih part]
    simp only [String.append_assoc]

/-- Between the parts stand tabs. -/
theorem text_eq (i : Instruction) : i.text = "\t".intercalate i.textParts := by
  rw [textParts, ← join_tabs, text, List.map_map]
  rfl

/-- An instruction's text falls into its parts at the tabs. -/
theorem splitOn_text (i : Instruction) :
    i.text.toList.splitOn '\t' = i.textParts.map String.toList := by
  have hparts : ∀ part ∈ i.textParts.map String.toList, '\t' ∉ part := by
    intro part hpart
    simp only [textParts, List.map_cons, List.map_map, List.mem_cons, List.mem_map] at hpart
    rcases hpart with rfl | ⟨raw, -, rfl⟩
    · exact i.opcode.tab_not_mem_mnemonic
    · exact tab_not_mem_operandText raw
  rw [text_eq, String.toList_intercalate]
  exact List.splitOn_intercalate '\t' hparts (by simp [textParts])

/-- **Instructions with the same text are the same operation on the same operand words.** -/
theorem text_eq_iff {i j : Instruction} :
    i.text = j.text ↔ i.opcode = j.opcode ∧ i.operands = j.operands := by
  constructor
  · intro h
    have hparts : i.textParts.map String.toList = j.textParts.map String.toList := by
      rw [← splitOn_text, ← splitOn_text, h]
    have hsame : i.textParts = j.textParts :=
      (List.map_inj_right fun _ _ => String.toList_inj.1).1 hparts
    obtain ⟨hname, htexts⟩ := List.cons.inj hsame
    refine ⟨Opcode.mnemonic_injective hname, ?_⟩
    exact (List.map_inj_right fun _ _ => operandText_injective).1 htexts
  · rintro ⟨hopcode, hoperands⟩
    rw [text, text, hopcode, hoperands]

/-- No instruction reads as if its opcode were unknown. -/
theorem text_ne_unknown (i : Instruction) (rest : String) : i.text ≠ "??? (" ++ rest := by
  intro h
  have hchars : i.opcode.mnemonic.toList ++ _ = '?' :: _ :=
    String.toList_append.symm.trans ((congrArg String.toList h).trans String.toList_append)
  revert hchars
  cases i.opcode <;> simp [Opcode.mnemonic]

end Instruction

end WordMachine
