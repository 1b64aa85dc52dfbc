import WordMachine.Proofs.Listing

/-! # The lines of a range tile it

A listing of a range begins where the range does. Each further line begins where the one before
ends, none begins behind the range, and the last one ends behind it. Up to the top of memory it is
all the same whether addresses go on behind the top or wrap around to 0, so that a listing of as
many lines from the same address on is the same listing.
-/
namespace WordMachine

theorem ListingLine.address_of_at? {ram : Ram} {address : Word} {line : ListingLine}
    (haddress : address.toNat < 0x8000) (h : at? ram address = some line) :
    line.address = address := by
  rcases at?_cases ram haddress with ⟨i, hline, hstands⟩ | ⟨hline, -⟩
  · obtain rfl := Option.some.inj (h.symm.trans hline)
    exact hstands.place
  · obtain rfl := Option.some.inj (h.symm.trans hline)
    rfl

namespace Listing

/-- The addresses of the lines of a range from `first` to `last`. -/
structure Covers (first last : Nat) (lines : List ListingLine) : Prop where
  begins : lines.head?.map (·.address.toNat) = some first
  follows : ∀ k line next, lines[k]? = some line → lines[k + 1]? = some next →
    next.address.toNat = line.address.toNat + line.length
  inside : ∀ line ∈ lines, line.address.toNat ≤ last
  ends : ∃ line, lines.getLast? = some line ∧ last < line.address.toNat + line.length

namespace Tiles

variable {ram : Ram} {last address : Nat} {lines : List ListingLine}

/-- Every line takes up a cell at least. -/
theorem length_le (h : Tiles ram last address lines) : lines.length ≤ last + 1 - address := by
  induction h with
  | behind hbehind => exact Nat.zero_le _
  | @line address first rest hle hline hrest ih =>
    have hpos := first.length_pos
    rw [List.length_cons]
    omega

section Inside

variable (hlast : last < 0x8000)

include hlast

theorem address_head {line : ListingLine} {rest : List ListingLine}
    (h : Tiles ram last address (line :: rest)) :
    line.address.toNat = address ∧ ListingLine.at? ram line.address = some line := by
  cases h with
  | line hle hline hrest =>
    have hvalue : address.toUInt16.toNat = address := by
      rw [Nat.toUInt16_eq, UInt16.toNat_ofNat']
      omega
    have hplace := ListingLine.address_of_at? (by omega) hline
    exact ⟨by rw [hplace, hvalue], by rw [hplace, hline]⟩

theorem at?_of_mem (h : Tiles ram last address lines) {line : ListingLine} (hmem : line ∈ lines) :
    line.address.toNat ≤ last ∧ ListingLine.at? ram line.address = some line := by
  induction h with
  | behind hbehind => cases hmem
  | line hle hline hrest ih =>
    obtain ⟨haddress, hat⟩ := (Tiles.line hle hline hrest).address_head hlast
    rcases List.mem_cons.1 hmem with rfl | hlater
    · exact ⟨by omega, hat⟩
    · exact ih hlater

theorem follows (h : Tiles ram last address lines) {k : Nat} {line next : ListingLine}
    (hline : lines[k]? = some line) (hnext : lines[k + 1]? = some next) :
    next.address.toNat = line.address.toNat + line.length := by
  induction h generalizing k with
  | behind hbehind => cases hline
  | @line address first rest hle hat hrest ih =>
    cases k with
    | zero =>
      obtain rfl := Option.some.inj hline
      cases rest with
      | nil => cases hnext
      | cons second others =>
        obtain rfl := Option.some.inj hnext
        rw [(hrest.address_head hlast).1, ((Tiles.line hle hat hrest).address_head hlast).1]
    | succ k => exact ih hline hnext

theorem ends (h : Tiles ram last address lines) {line : ListingLine}
    (hline : lines.getLast? = some line) : last < line.address.toNat + line.length := by
  induction h with
  | behind hbehind => cases hline
  | @line address first rest hle hat hrest ih =>
    cases rest with
    | nil =>
      have hsame : first = line := Option.some.inj hline
      rw [← hsame, ((Tiles.line hle hat hrest).address_head hlast).1]
      cases hrest with
      | behind hbehind => exact hbehind
    | cons second others => exact ih (by rwa [List.getLast?_cons_cons] at hline)

theorem covers (h : Tiles ram last address lines) (hle : address ≤ last) :
    Covers address last lines := by
  obtain ⟨line, rest, rfl⟩ : ∃ line rest, lines = line :: rest := by
    cases h with
    | behind hbehind => omega
    | line hle hline hrest => exact ⟨_, _, rfl⟩
  refine ⟨congrArg some (h.address_head hlast).1, fun k line next => h.follows hlast,
    fun line hmem => (h.at?_of_mem hlast hmem).1, _, List.getLast?_cons, ?_⟩
  exact h.ends hlast List.getLast?_cons

/-- Behind the top there are no more lines, and before it nothing wraps around. -/
theorem linesFrom?_eq (h : Tiles ram last address lines) :
    linesFrom? ram address.toUInt16 lines.length = some lines := by
  induction h with
  | behind hbehind => rfl
  | @line address first rest hle hline hrest ih =>
    rw [List.length_cons, linesFrom?_succ hline]
    -- only behind the last line can an address wrap around, and nothing is read there
    cases hrest with
    | behind hbehind => rfl
    | @line _ second others hnext hsecond hothers =>
      have hsame : Instruction.addressAfter address.toUInt16 first.length =
          (address + first.length).toUInt16 := by
        rw [← UInt16.toNat_inj, Instruction.toNat_addressAfter, Nat.toUInt16_eq, Nat.toUInt16_eq,
          UInt16.toNat_ofNat', UInt16.toNat_ofNat']
        omega
      rw [hsame, ih]
      rfl

end Inside

end Tiles

/-- **The lines of a range tile it, and counting them lists the same.** A listing of a range is
never missing. There are no lines if the range begins behind its end, which is the top of memory at
the latest. Otherwise the first line is that of the first address, each further line that of the
address where the one before ends, no line is that of an address behind the end, and the last one
ends behind it. Each line shows what stands at its address, and a listing of as many lines from the
first address on is the same. -/
theorem range?_tiles (ram : Ram) (first last : Word) :
    ∃ lines, range? ram first last = some lines ∧
      (min last.toNat 0x7fff < first.toNat → lines = []) ∧
      (first.toNat ≤ min last.toNat 0x7fff → Covers first.toNat (min last.toNat 0x7fff) lines) ∧
      (∀ line ∈ lines, ListingLine.at? ram line.address = some line) ∧
      count? ram first lines.length = some lines := by
  have hend : min last.toNat 0x7fff < 0x8000 := by omega
  obtain ⟨lines, hlines, htiles⟩ := exists_tiles ram hend first.toNat
  refine ⟨lines, hlines, fun hbehind => ?_, htiles.covers hend,
    fun line hmem => (htiles.at?_of_mem hend hmem).2, ?_⟩
  · rw [linesUpTo?_of_lt hbehind] at hlines
    exact (Option.some.inj hlines).symm
  · have hshort := htiles.length_le
    have hfrom := htiles.linesFrom?_eq hend
    have hfirst : first.toNat.toUInt16 = first := UInt16.ofNat_toNat
    rw [hfirst] at hfrom
    rw [count?_of_le (by rw [maxLines]; omega), hfrom]

/-- Memory of zeros with an operation at the last address but one, whose operands go on behind the
top. -/
def crossing : Ram := Ram.zeros.set 0x7ffe 9

theorem get_crossing {cell : Word} (h : cell ≠ 0x7ffe) : crossing.get cell = 0 := by
  rw [crossing, Ram.get_set, if_neg fun hsame => h hsame.1.symm, Ram.get_zeros]

theorem range?_crossing :
    range? crossing 0x7ffd 0xffff =
      some [.instruction ⟨0x7ffd, .halt, 0, 0, 0⟩, .instruction ⟨0x7ffe, .add, 0, 0, 0⟩] := by
  have hhalt : (⟨0x7ffd, .halt, 0, 0, 0⟩ : Instruction).StandsAt crossing 0x7ffd := by
    refine ⟨rfl, ?_, rfl, rfl, rfl⟩
    rw [get_crossing (by decide)]
    rfl
  have hoperand : ∀ index < Opcode.add.arity,
      Instruction.operandAt crossing 0x7ffe .add index = 0 := by
    intro index hindex
    rw [Instruction.operandAt, if_pos hindex]
    refine get_crossing fun hsame => ?_
    have hvalue := congrArg UInt16.toNat hsame
    have hplace : (0x7ffe : Word).toNat = 0x7ffe := rfl
    have harity : Opcode.add.arity = 3 := rfl
    rw [UInt16.toNat_ofNat', hplace] at hvalue
    omega
  have hadd : (⟨0x7ffe, .add, 0, 0, 0⟩ : Instruction).StandsAt crossing 0x7ffe := by
    refine ⟨rfl, ?_, (hoperand 0 (by decide)).symm, (hoperand 1 (by decide)).symm,
      (hoperand 2 (by decide)).symm⟩
    rw [crossing, Ram.get_set, if_pos (by decide)]
    rfl
  have hfirst := ListingLine.at?_of_standsAt (by decide) hhalt
  have hsecond := ListingLine.at?_of_standsAt (by decide) hadd
  show linesUpTo? crossing 0x7fff 0x7ffd = _
  rw [linesUpTo?_of_le (by decide) hfirst]
  show (linesUpTo? crossing 0x7fff 0x7ffe).map _ = _
  rw [linesUpTo?_of_le (by decide) hsecond, linesUpTo?_of_lt (by decide)]
  rfl

/-- The second line covers the top of memory and goes on at 0. The listing ends with it, and so does
that of two lines. There is nothing to list behind the top. -/
theorem range?_tiles_crossing :
    ∃ lines, range? crossing 0x7ffd 0xffff = some lines ∧
      lines.map (fun line => (line.address.toNat, line.length)) = [(0x7ffd, 1), (0x7ffe, 4)] ∧
      Covers 0x7ffd 0x7fff lines ∧ count? crossing 0x7ffd 2 = some lines ∧
      range? crossing 0x8000 0xffff = some [] := by
  obtain ⟨lines, hlines, -, hcovers, -, hcount⟩ := range?_tiles crossing 0x7ffd 0xffff
  obtain ⟨none, hnone, hbehind, -⟩ := range?_tiles crossing 0x8000 0xffff
  rw [hbehind (by decide)] at hnone
  obtain rfl := Option.some.inj (hlines.symm.trans range?_crossing)
  exact ⟨_, hlines, rfl, hcovers (by decide), hcount, hnone⟩

end Listing

end WordMachine
