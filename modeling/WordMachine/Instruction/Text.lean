import WordMachine.Instruction.Basic

/-! # Instruction text

An instruction is its mnemonic followed by its operands, each after a tab. A register is
written `r` and its index, a literal as an address, and a word that is neither carries
two question marks in front, so that no two operands share a text.
-/
namespace WordMachine.Instruction

def operandText (raw : Word) : String :=
  match registerIndex? raw with
  | some index => "r" ++ toString index
  | none => if raw < modulus then Hex.render raw else "??" ++ Hex.render raw

def text (i : Instruction) : String :=
  i.opcode.mnemonic ++ String.join (i.operands.map fun raw => "\t" ++ operandText raw)

end WordMachine.Instruction
