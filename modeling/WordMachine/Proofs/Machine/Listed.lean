import WordMachine.Proofs.Instruction.Text
import WordMachine.Proofs.Listing
import WordMachine.Proofs.Machine.Cause
import WordMachine.Proofs.Machine.Reachable

/-! # Listings show what is executed

A listing decodes memory on its own: from the cells and not through the address space, and without
a machine. As long as a machine goes straight on, it executes what the listing from its program
counter shows, line by line, the words that select no operation included. What the machine stores
in the meantime does not matter if it stays away from the cells that the lines cover.
-/
namespace WordMachine

namespace ListingLine

/-- The cells that a line covers. -/
def cells : ListingLine → List Word
  | instruction i => i.address :: i.operandCells
  | unknown address _ => [address]

/-- The line for an address of a store, as the machine decodes it. -/
def shown (store : Store) (address : Word) : ListingLine :=
  match Instruction.decode store.peek address with
  | .ok i => instruction i
  | .error _ => unknown address (store.ram.get address)

/-- From a memory cell on, a listing shows what the machine decodes. -/
theorem at?_eq (store : Store) {address : Word} (h : address.toNat < 0x8000) :
    at? store.ram address = some (shown store address) := by
  rw [at?, store.ram.get?_of_lt h, Instruction.decodeIn?_eq store h, shown]
  cases Instruction.decode store.peek address <;> rfl

theorem address_mem_cells (store : Store) (address : Word) :
    address ∈ (shown store address).cells := by
  rw [shown]
  cases hdecode : Instruction.decode store.peek address with
  | error fault => exact List.mem_singleton.2 rfl
  | ok i =>
    rw [← Instruction.address_of_decode hdecode]
    exact List.mem_cons_self

/-- A line is decided by the cells that it covers. -/
theorem shown_congr {store other : Store} {address : Word}
    (h : store.AgreesOn (shown store address).cells other) :
    shown other address = shown store address := by
  have hsees : (Instruction.decode Action.read address).Sees store (shown store address).cells
      (Instruction.decode store.peek address) := by
    refine Instruction.sees_decode (address_mem_cells store address) fun i hdecode cell hcell => ?_
    rw [shown, hdecode]
    exact List.mem_cons_of_mem _ hcell
  rw [shown, hsees.answer_eq (Instruction.observes_decode address) h,
    h.cells _ (address_mem_cells store address), shown]

end ListingLine

namespace Machine

/-- The line for what stands at the program counter. -/
def shown (m : Machine) : ListingLine := .shown m.core.store m.pc

/-- Where the next step jumps, if it executes an instruction that does. -/
def jump? (m : Machine) : Option Word :=
  m.next?.bind fun i =>
    match (m.outcome i).1 with
    | .ok (.jump target) => some target
    | _ => none

theorem shown_of_ok {m : Machine} {i : Instruction} (h : m.fetch = .ok i) :
    m.shown = .instruction i := by
  have hdecode : Instruction.decode m.core.store.peek m.pc = .ok i := h
  rw [shown, ListingLine.shown, hdecode]

theorem shown_of_error {m : Machine} {fault : Fault} (h : m.fetch = .error fault) :
    m.shown = .unknown m.pc (m.core.store.ram.get m.pc) := by
  have hdecode : Instruction.decode m.core.store.peek m.pc = .error fault := h
  rw [shown, ListingLine.shown, hdecode]

/-- A step that does not jump goes on to the next line. -/
theorem pc_step_of_straight {m : Machine} (hgoing : m.status ≠ .finished) (h : m.jump? = none) :
    m.step.pc = Instruction.addressAfter m.pc m.shown.length := by
  cases hfetch : m.fetch with
  | error fault =>
    have hnext := Instruction.toNat_addressAfter m.pc 1
    rw [shown_of_error hfetch, ← UInt16.toNat_inj, (step_of_error hgoing hfetch).1.pc]
    exact hnext.symm
  | ok i =>
    have hbehind : m.step.pc = m.behind i := by
      rw [jump?, next?_eq_some_iff.2 ⟨hgoing, hfetch⟩, Option.bind_some] at h
      rw [(step_of_ok hgoing hfetch).1.pc]
      split
      · rename_i target hjump
        rw [hjump] at h
        cases h
      · rfl
    rw [hbehind, shown_of_ok hfetch, ListingLine.length, Instruction.addressAfter_eq,
      behind]

/-- The steps of a machine that goes straight on come to one line of a listing after the other. -/
theorem linesFrom?_eq {m : Machine} {ram : Ram} {n : Nat} {lines : List ListingLine}
    (hpc : m.pc.toNat < 0x8000) (hlines : Listing.linesFrom? ram m.pc n = some lines)
    (hgoing : ∀ j < n, (m.steps j).status ≠ .finished)
    (hstraight : ∀ j < n, (m.steps j).jump? = none)
    (hsame : ∀ line ∈ lines, ∀ cell ∈ line.cells, ∀ j < n,
      (m.steps j).core.store.ram.get cell = ram.get cell) :
    lines = (List.range n).map fun j => (m.steps j).shown := by
  induction n generalizing m lines with
  | zero => exact (Option.some.inj hlines).symm
  | succ n ih =>
    let first := ListingLine.shown (m.core.store.withRam ram) m.pc
    have hline : ListingLine.at? ram m.pc = some first :=
      ListingLine.at?_eq (m.core.store.withRam ram) hpc
    rw [Listing.linesFrom?_succ hline] at hlines
    obtain ⟨rest, hrest, rfl⟩ := Option.map_eq_some_iff.1 hlines
    have hshown : m.shown = first := ListingLine.shown_congr ⟨rfl, fun cell hcell =>
      hsame first List.mem_cons_self cell hcell 0 n.succ_pos⟩
    have hnext : m.step.pc = Instruction.addressAfter m.pc m.shown.length :=
      pc_step_of_straight (hgoing 0 n.succ_pos) (hstraight 0 n.succ_pos)
    rw [← hshown, ← hnext] at hrest
    rw [List.range_succ_eq_map, List.map_cons, List.map_map, ih (pc_step_lt hpc) hrest]
    · simp only [Function.comp_def, steps_succ]
      exact congrArg (· :: _) hshown.symm
    · exact fun j hj => steps_succ m j ▸ hgoing (j + 1) (by omega)
    · exact fun j hj => steps_succ m j ▸ hstraight (j + 1) (by omega)
    · exact fun line hline cell hcell j hj =>
        steps_succ m j ▸ hsame line (List.mem_cons_of_mem _ hline) cell hcell (j + 1) (by omega)

/-! ## The text of a line -/

theorem text_of_next {m : Machine} {i : Instruction} (h : m.next? = some i) :
    m.step.lastText = some i.text ∧ m.shown.text = Hex.render m.pc ++ ":\t" ++ i.text := by
  obtain ⟨hgoing, hfetch⟩ := next?_eq_some_iff.1 h
  refine ⟨?_, ?_⟩
  · rw [lastText, (step_of_ok hgoing hfetch).1.lastInstruction]
    rfl
  · rw [shown_of_ok hfetch, ListingLine.text, ListingLine.address,
      Instruction.address_of_decode hfetch]

/-- None of the faults of a step that executes an instruction is that an opcode is unknown. -/
theorem known_of_stepFaults {m : Machine} {i : Instruction} (h : m.next? = some i) {fault : Fault}
    (hfault : fault ∈ m.stepFaults) : Instruction.Known fault := by
  obtain ⟨hgoing, hfetch⟩ := next?_eq_some_iff.1 h
  rw [stepFaults_of_ok hgoing hfetch] at hfault
  rcases List.mem_append.1 hfault with hown | hlimit
  · cases hanswer : (m.outcome i).1 with
    | ok effect =>
      rw [hanswer, faultsOf, Option.mem_toList, Option.map_eq_some_iff] at hown
      obtain ⟨reason, -, rfl⟩ := hown
      intro opcode hroot
      cases hroot
    | error found =>
      have hknown := Instruction.known_of_execute hanswer
      rw [hanswer] at hown
      by_cases hended : found = .inputExhausted
      · subst hended
        obtain rfl := List.mem_singleton.1 hown
        exact hknown
      · rw [faultsOf_error m i hended] at hown
        obtain rfl := List.mem_singleton.1 hown
        exact hknown
  · split at hlimit
    · obtain ⟨limit, -, -, rfl⟩ := mem_limitFaults.1 hlimit
      intro opcode hroot
      cases hroot
    · cases hlimit

/-- What cannot be decoded at a memory cell is a word whose opcode is unknown. -/
theorem fault_of_fetch {m : Machine} (hpc : m.pc.toNat < 0x8000) {fault : Fault}
    (h : m.fetch = .error fault) :
    fault = .unknownOpcode (m.core.store.ram.get m.pc).toUInt8 := by
  rcases Nat.lt_or_ge 21 (m.core.store.ram.get m.pc).toUInt8.toNat with hlarge | hsmall
  · exact Except.error.inj (h.symm.trans (Instruction.decode_peek_of_large hpc hlarge))
  · obtain ⟨i, hdecode, -⟩ := Instruction.decode_peek_of_small hpc hsmall
    cases h.symm.trans hdecode

/-- A line shows an unknown word exactly where the step records that its opcode is unknown. -/
theorem text_unknown_iff {m : Machine} (hpc : m.pc.toNat < 0x8000)
    (hgoing : m.status ≠ .finished) :
    let word := m.core.store.ram.get m.pc
    m.shown.text = Hex.render m.pc ++ ":\t??? (" ++ Hex.render word ++ ")" ↔
      ∃ fault ∈ m.stepFaults, fault.root = .unknownOpcode word.toUInt8 := by
  intro word
  have htext : Hex.render m.pc ++ ":\t??? (" ++ Hex.render word ++ ")" =
      Hex.render m.pc ++ ":\t" ++ ("??? (" ++ (Hex.render word ++ ")")) := by
    rw [show ":\t??? (" = ":\t" ++ "??? (" from rfl]
    simp only [String.append_assoc]
  rw [htext]
  cases hfetch : m.fetch with
  | error fault =>
    obtain rfl := fault_of_fetch hpc hfetch
    constructor
    · intro _
      rw [stepFaults_of_error hgoing hfetch]
      exact ⟨_, List.mem_cons_self, rfl⟩
    · intro _
      rw [shown_of_error hfetch, ListingLine.text, ListingLine.address]
      simp only [String.append_assoc]
      rfl
  | ok i =>
    have hnext := next?_eq_some_iff.2 ⟨hgoing, hfetch⟩
    constructor
    · intro hsame
      rw [(text_of_next hnext).2] at hsame
      exact absurd ((String.append_right_inj _).1 hsame) (i.text_ne_unknown _)
    · rintro ⟨fault, hfault, hroot⟩
      exact absurd hroot (known_of_stepFaults hnext hfault _)

/-! ## Listings of reachable machines -/

/-- **A listing shows what is executed.** Take so many lines from the program counter of a reachable
machine on, and let the machine take as many steps. If none of them jumps, finishes the machine or
stores to a cell that the lines cover, each step comes to the next line. Where an instruction is
executed, the line shows the address and that instruction's text; and it shows the address and an
unknown word exactly where the step records that this word's opcode is unknown. -/
theorem listing_executed {m : Machine} (hreachable : m.Reachable) {n : Nat}
    (hgoing : ∀ j < n, (m.steps (j + 1)).status ≠ .finished)
    (hstraight : ∀ j < n, (m.steps j).jump? = none) :
    (n ≤ Listing.maxLines → ∃ lines, Listing.count? m.core.store.ram m.pc n = some lines) ∧
    ∀ lines, Listing.count? m.core.store.ram m.pc n = some lines →
      (∀ line ∈ lines, ∀ cell ∈ line.cells, cell ∉ m.cellsStored n) →
      lines.length = n ∧
      ∀ j < n, ∃ line, lines[j]? = some line ∧
        (∀ i, (m.steps j).next? = some i → ∃ text, (m.steps (j + 1)).lastText = some text ∧
          line.text = Hex.render (m.steps j).pc ++ ":\t" ++ text) ∧
        let word := (m.steps j).core.store.ram.get (m.steps j).pc
        (line.text = Hex.render (m.steps j).pc ++ ":\t??? (" ++ Hex.render word ++ ")" ↔
          ∃ fault ∈ (m.steps j).stepFaults, fault.root = .unknownOpcode word.toUInt8) := by
  have hpc := hreachable.pc_lt
  have hbefore : ∀ j < n, (m.steps j).status ≠ .finished := by
    intro j hj hfinished
    refine hgoing j hj ?_
    rwa [steps_of_finished hfinished (Nat.le_succ j)]
  refine ⟨Listing.exists_count? _ hpc, fun lines hlines hapart => ?_⟩
  have hfrom := Listing.linesFrom?_of_count? hlines
  have hshown := linesFrom?_eq hpc hfrom hbefore hstraight fun line hline cell hcell j hj =>
    get_steps_of_unstored fun hstored =>
      hapart line hline cell hcell (mem_cellsStored_of_le hj.le hstored)
  subst hshown
  refine ⟨by rw [List.length_map, List.length_range], fun j hj => ⟨(m.steps j).shown, ?_, ?_, ?_⟩⟩
  · simp [hj]
  · intro i hnext
    rw [steps_succ_last]
    obtain ⟨hlast, htext⟩ := text_of_next hnext
    exact ⟨_, hlast, htext⟩
  · exact text_unknown_iff (pc_steps_lt hpc j) (hbefore j hj)

/-- A machine of which the first word selects no operation. It writes a letter and stores a word
behind its program. -/
def storer : Machine := (create .default none).withRam
  (holding [250, 19, 65, 16, 6, 21] (by decide)).core.store.ram

/-- Its steps come to the three lines of the listing, of which the first shows an unknown word. -/
theorem listing_executed_storer :
    let texts :=
      ["0x0000:\t??? (0x00FA)", "0x0001:\tout\t0x0041", "0x0003:\twmem\t0x0006\t0x0015"]
    storer.Reachable ∧ (∀ j < 3, (storer.steps (j + 1)).status ≠ .finished) ∧
    (∀ j < 3, (storer.steps j).jump? = none) ∧
    ∃ lines, Listing.count? storer.core.store.ram storer.pc 3 = some lines ∧
      (∀ line ∈ lines, ∀ cell ∈ line.cells, cell ∉ storer.cellsStored 3) ∧
      lines.map (·.text) = texts ∧
      ∃ fault ∈ (storer.steps 0).stepFaults, fault.root = .unknownOpcode 250 := by
  intro texts
  have hreachable : storer.Reachable := .withRam (.made (.blank .default none)) _
  have hgoing : ∀ j < 3, (storer.steps (j + 1)).status ≠ .finished := by decide +kernel
  have hstraight : ∀ j < 3, (storer.steps j).jump? = none := by decide +kernel
  obtain ⟨hexists, hexecuted⟩ := listing_executed hreachable hgoing hstraight
  obtain ⟨lines, hlines⟩ := hexists (by decide)
  have htexts : (Listing.count? storer.core.store.ram storer.pc 3).map (·.map (·.text)) =
      some texts := by decide +kernel
  have hall : (Listing.count? storer.core.store.ram storer.pc 3).all (·.all fun line =>
      line.cells.all fun cell => cell ∉ storer.cellsStored 3) = true := by decide +kernel
  rw [hlines, Option.all_some] at hall
  have hapart : ∀ line ∈ lines, ∀ cell ∈ line.cells, cell ∉ storer.cellsStored 3 :=
    fun line hline cell hcell => of_decide_eq_true
      (List.all_eq_true.1 (List.all_eq_true.1 hall line hline) cell hcell)
  obtain ⟨-, hsteps⟩ := hexecuted lines hlines hapart
  obtain ⟨line, hline, -, hunknown⟩ := hsteps 0 (by decide)
  rw [hlines] at htexts
  have htext : lines.map (·.text) = texts := Option.some.inj htexts
  have hfirst : line.text = "0x0000:\t??? (0x00FA)" := by
    have hget : (lines.map (·.text))[0]? = some line.text := by rw [List.getElem?_map, hline]; rfl
    rw [htext] at hget
    exact (Option.some.inj hget).symm
  have hword : (storer.steps 0).core.store.ram.get (storer.steps 0).pc = 250 := by decide +kernel
  have hshape : Hex.render (storer.steps 0).pc ++ ":\t??? (" ++ Hex.render 250 ++ ")" =
      "0x0000:\t??? (0x00FA)" := by decide +kernel
  simp only [hword, hshape] at hunknown
  exact ⟨hreachable, hgoing, hstraight, lines, hlines, hapart, htext,
    hunknown.1 hfirst⟩

end Machine

end WordMachine
