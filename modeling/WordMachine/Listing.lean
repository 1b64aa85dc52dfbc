import WordMachine.Instruction.Text

/-! # Listings

A listing shows memory as instructions, one a line after its address; a word that is the
opcode of nothing stands alone as an unknown word. A listing of a range does not pass the
top of memory, while a listing of a count of lines continues at address 0. Listings read
memory through `Ram.get?` and are missing if they read outside it, and a listing of a count
of lines is missing if its lines could not be kept.
-/
namespace WordMachine

inductive ListingLine where
  | instruction (i : Instruction)
  | unknown (address word : Word)
  deriving Repr, DecidableEq

namespace ListingLine

def address : ListingLine → Word
  | instruction i => i.address
  | unknown address _ => address

def length : ListingLine → Nat
  | instruction i => i.length
  | unknown .. => 1

def text (line : ListingLine) : String :=
  Hex.render line.address ++ ":\t"
    ++ match line with
      | instruction i => i.text
      | unknown _ word => "??? (" ++ Hex.render word ++ ")"

theorem length_pos (line : ListingLine) : 0 < line.length := by
  cases line with
  | instruction i => exact Nat.add_pos_left Nat.one_pos _
  | unknown => exact Nat.one_pos

/-- The line that shows an address. -/
def at? (ram : Ram) (address : Word) : Option ListingLine := do
  let word ← ram.get? address
  match ← Instruction.decodeIn? ram address with
  | .ok i => return instruction i
  | .error _ => return unknown address word

end ListingLine

namespace Listing

/-- The lines from an address up to the first that starts above `last`. -/
def linesUpTo? (ram : Ram) (last address : Nat) : Option (List ListingLine) :=
  if address ≤ last then do
    let line ← ListingLine.at? ram address.toUInt16
    return line :: (← linesUpTo? ram last (address + line.length))
  else some []
termination_by last + 1 - address
decreasing_by
  have := line.length_pos
  omega

/-- The lines that start from `first` to `last`, both included. -/
def range? (ram : Ram) (first last : Word) : Option (List ListingLine) :=
  linesUpTo? ram (min last.toNat (ramSize - 1)) first.toNat

/-- So many lines from an address on, continuing at address 0 after the top of memory. -/
def linesFrom? (ram : Ram) (address : Word) : Nat → Option (List ListingLine)
  | 0 => some []
  | n + 1 => do
    let line ← ListingLine.at? ram address
    return line :: (← linesFrom? ram (Instruction.addressAfter address line.length) n)

/-- The most lines that can be kept: each takes 24 bytes, and memory holds fewer than 2^63. -/
def maxLines : Nat := 0x7fffffffffffffff / 24

/-- So many lines from an address on, with room for all of them set aside beforehand. -/
def count? (ram : Ram) (address : Word) (n : Nat) : Option (List ListingLine) :=
  if n ≤ maxLines then linesFrom? ram address n else none

theorem count?_of_le {ram : Ram} {address : Word} {n : Nat} (h : n ≤ maxLines) :
    count? ram address n = linesFrom? ram address n :=
  if_pos h

/-- The text of a line with the line feed that ends it. -/
def ended (line : ListingLine) : String := line.text ++ "\n"

end Listing

end WordMachine
