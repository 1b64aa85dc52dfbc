import WordMachine.Proofs.Instruction.Bounds
import WordMachine.Proofs.Machine.Calls

/-! # Machines stay within fifteen bits

The storage has sixteen bits and nothing in its types keeps a word below `0x8000`. Yet the
program counter, the registers and the stack never leave these bounds, whatever is called and
whatever the image holds. Memory may hold larger words only where the image put them and
nobody wrote since. The invariant is that of the core together with a bound on the program
counter; it needs a complete log, which any run can be given.
-/
namespace WordMachine.Machine

/-- The invariant of the core, and a program counter below `0x8000`. -/
structure Sound (initial : Ram) (m : Machine) : Prop where
  pc : m.pc.toNat < 0x8000
  core : m.core.Sound initial

namespace Sound

variable {initial : Ram} {m : Machine}

/-- Nothing but the program counter and the core matters. -/
theorem of_eq (h : m.Sound initial) {other : Machine} (hpc : other.pc = m.pc)
    (hcore : other.core = m.core) : other.Sound initial :=
  ⟨hpc ▸ h.pc, hcore ▸ h.core⟩

theorem report (h : m.Sound initial) {event : Event} (hevent : event.cell? = none) :
    (m.report event).Sound initial :=
  ⟨h.pc, h.core.report hevent⟩

theorem record (h : m.Sound initial) (fault : Fault) : (m.record fault).Sound initial :=
  ⟨h.pc, h.core.report rfl⟩

theorem withPc (h : m.Sound initial) {pc : Word} (hpc : pc.toNat < 0x8000) :
    { m with pc }.Sound initial :=
  ⟨hpc, h.core⟩

theorem withCore (h : m.Sound initial) {core : Core} (hcore : core.Sound initial) :
    { m with core }.Sound initial :=
  ⟨h.pc, hcore⟩

theorem emit (h : m.Sound initial) (data : List UInt8) : (m.emit data).Sound initial := by
  obtain ⟨terminal, heq | ⟨reason, heq⟩⟩ := m.emit_cases data
  · rw [heq]
    exact h.of_eq rfl rfl
  · have hterminal : { m with terminal }.Sound initial := h.of_eq rfl rfl
    rw [heq]
    exact hterminal.record _

theorem settle (h : m.Sound initial) (i : Instruction) {result : Except Fault Effect}
    (hresult : ∀ effect, result = .ok effect → effect.Bounded) :
    (m.settle i result).1.Sound initial := by
  cases result with
  | ok effect =>
    cases effect with
    | proceed => exact h
    | jump target => exact h.withPc (hresult _ rfl)
    | output byte => exact h.emit [byte]
    | halt => exact (h.emit m.farewell.toUTF8.toList).of_eq rfl rfl
  | error fault =>
    cases fault with
    | inputExhausted =>
      have hreport : (m.report (.exhausted i.address)).Sound initial := h.report rfl
      exact (hreport.record .inputExhausted).of_eq rfl rfl
    | _ => exact h.record _

theorem executed (h : m.Sound initial) (i : Instruction) : (m.executed i).1.Sound initial := by
  have hpc : (Instruction.addressAfter i.address i.length).toNat < 0x8000 := wrap_lt _
  have hfetched : (m.fetched i).Sound initial := (h.withPc hpc).report rfl
  have hcore := hfetched.core.execute i hfetched.pc
  have hafter : { m.fetched i with
      core := ((i.execute (m.fetched i).pc).run (m.fetched i).core).2
      lastInstruction := some i }.Sound initial := (hfetched.withCore hcore).of_eq rfl rfl
  exact hafter.settle i fun effect heffect => Instruction.bounded_of_execute heffect

theorem attempt (h : m.Sound initial) : m.attempt.1.Sound initial := by
  obtain ⟨reads, hreads, hattempt⟩ := m.attempt_reads
  have hread := h.core.reportAll hreads
  have hskipped : { m with
      core := m.core.reportAll reads
      pc := Instruction.addressAfter m.pc 1 }.Sound initial := ⟨wrap_lt _, hread⟩
  rw [hattempt]
  cases m.fetch with
  | error fault => exact hskipped.record _
  | ok i => exact (h.withCore hread).executed i

theorem tick (h : m.Sound initial) : m.tick.Sound initial := by
  cases hmax : m.config.maxSteps with
  | none =>
    rw [tick_of_unlimited hmax]
    exact h.of_eq rfl rfl
  | some limit =>
    have hcounted : { m with counter := m.counter + 1 }.Sound initial := h.of_eq rfl rfl
    rw [tick_of_limit hmax]
    split
    · exact (hcounted.record (.stepLimit limit)).of_eq rfl rfl
    · exact hcounted

theorem step (h : m.Sound initial) : m.step.Sound initial := by
  by_cases hfinished : m.status = .finished
  · rwa [step_of_finished hfinished]
  · have hawake : m.awake.Sound initial := by
      unfold awake
      split
      · have hstarted : (m.report .started).Sound initial := h.report rfl
        exact hstarted.of_eq rfl rfl
      · exact h
    have hattempt := hawake.attempt
    rw [step_eq hfinished]
    rcases hcounted : m.awake.attempt with ⟨after, _ | _⟩
    · rw [hcounted] at hattempt
      exact hattempt.of_eq rfl rfl
    · rw [hcounted] at hattempt
      exact hattempt.tick.of_eq rfl rfl

theorem poke (h : m.Sound initial) {address word : Word} {after : Machine}
    (hpoke : m.poke address word = .ok after) : after.Sound initial := by
  rw [poke_eq hpoke]
  exact h.withCore (h.core.write address word)

/-- Everything that happens to a machine keeps the invariant. -/
theorem preserved (initial : Ram) : Preserved (Sound initial) where
  step _ h := h.step
  stop _ h := ⟨h.pc, h.core.report rfl⟩
  conclude _ h := ⟨h.pc, h.core.report rfl⟩
  requestStop _ h := ⟨h.pc, h.core⟩
  poke _ _ _ _ h hpoke := h.poke hpoke
  setInput _ input h := ⟨h.pc, h.core.withInput input⟩
  setTerminal _ _ h := ⟨h.pc, h.core⟩

end Sound

/-! ## Machines with any log -/

/-- Program counter, registers and stack are below `0x8000`. -/
structure Reduced (m : Machine) : Prop where
  pc : m.pc.toNat < 0x8000
  registers : m.core.store.registers.Reduced
  stack : m.core.stack.Reduced

theorem Made.reduced {image : List Word} {m : Machine} (h : Made image m) : m.Reduced := by
  obtain ⟨-, config, threshold, log, rfl⟩ := h.eq
  exact ⟨Nat.zero_lt_succ _, Registers.reduced_zeros, Stack.reduced_empty⟩

/-- The memory cells that calls write, as the traced machine tells of them. -/
def cellsWritten (m : Machine) (calls : List Call) : List Word :=
  match m.traced.calls? calls with
  | some last => last.core.log.cells
  | none => []

/-- Calls keep a machine reduced; the cells that they write they leave reduced, and the others
they leave alone. -/
theorem Reduced.calls {m after : Machine} {calls : List Call} (h : m.Reduced)
    (hcalls : m.calls? calls = some after) :
    after.Reduced ∧ ∀ address, if address ∈ m.cellsWritten calls
      then (after.core.store.ram.get address).toNat < 0x8000
      else after.core.store.ram.get address = m.core.store.ram.get address := by
  obtain ⟨last, hlast, hmute⟩ := calls?_traced hcalls
  have htraced : m.traced.Sound m.core.store.ram :=
    ⟨h.pc, rfl, h.registers, h.stack, fun address => by
      rw [if_neg (by exact List.not_mem_nil)]
      rfl⟩
  have hsound := (Sound.preserved m.core.store.ram).calls htraced hlast
  have hpc : last.pc = after.pc := congrArg (·.pc) hmute
  have hstore : last.core.store = after.core.store := congrArg (·.core.store) hmute
  have hstack : last.core.stack = after.core.stack := congrArg (·.core.stack) hmute
  have hcells : m.cellsWritten calls = last.core.log.cells := by
    rw [cellsWritten, hlast]
  rw [hcells, ← hstore]
  refine ⟨⟨?_, ?_, ?_⟩, hsound.core.cells⟩
  · rw [← hpc]
    exact hsound.pc
  · rw [← hstore]
    exact hsound.core.registers
  · rw [← hstack]
    exact hsound.core.stack

/-- Everything that happens to a machine keeps it reduced. -/
theorem Reduced.preserved : Preserved Reduced where
  step m h := by
    have hcall : m.calls? [.step] = some m.step := rfl
    exact (h.calls hcall).1
  stop _ h := ⟨h.pc, h.registers, h.stack⟩
  conclude _ h := ⟨h.pc, h.registers, h.stack⟩
  requestStop _ h := ⟨h.pc, h.registers, h.stack⟩
  poke m address word poked h hpoke := by
    have hcall : m.calls? [.poke address word] = some poked := by
      rw [calls?, call?, hpoke]
      rfl
    exact (h.calls hcall).1
  setInput _ _ h := ⟨h.pc, h.registers, h.stack⟩
  setTerminal _ _ h := ⟨h.pc, h.registers, h.stack⟩

/-- **Fifteen bits are never left.** Take a machine with any image in memory, and any calls after
which it is looked at twice. Program counter, registers and stack hold words below `0x8000`, and
memory has as many cells as ever. A cell with a larger word was never written, holds that word
from the image, and held it already at the first look. -/
theorem calls_bounded {image : List Word} {made first second : Machine} {before after : List Call}
    (hmade : Made image made) (hbefore : made.calls? before = some first)
    (hafter : first.calls? after = some second) :
    second.pc.toNat < 0x8000 ∧
    (∀ i, (second.core.store.registers.get i).toNat < 0x8000) ∧
    (∀ word ∈ second.core.stack.toList, word.toNat < 0x8000) ∧
    second.core.store.ram.toList.length = 0x8000 ∧
    ∀ address word, second.core.store.ram.get? address = some word → 0x8000 ≤ word.toNat →
      address ∉ made.cellsWritten (before ++ after) ∧ image[address.toNat]? = some word ∧
      first.core.store.ram.get? address = some word := by
  have hall : made.calls? (before ++ after) = some second := by
    rw [calls?_append, hbefore]
    exact hafter
  obtain ⟨hfirst, -⟩ := hmade.reduced.calls hbefore
  obtain ⟨hsecond, hcells⟩ := hmade.reduced.calls hall
  obtain ⟨-, hlater⟩ := hfirst.calls hafter
  refine ⟨hsecond.pc, hsecond.registers, hsecond.stack, Vector.length_toList, ?_⟩
  intro address word hword hlarge
  have hget : second.core.store.ram.get address = word := by
    rw [Ram.get, hword]
    rfl
  have hcell := hcells address
  have hsince := hlater address
  rw [hget] at hcell hsince
  split at hcell
  · omega
  · rename_i hunwritten
    split at hsince
    · omega
    · have hne : word ≠ 0 := by
        rintro rfl
        exact absurd hlarge (by decide)
      rw [hmade.get_ram] at hcell
      exact ⟨hunwritten, eq_some_of_getD_zero hcell.symm hne,
        eq_some_of_getD_zero hsince.symm hne⟩

/-- The image of `set r0 5` has a large operand word. After a step and a store on top of the opcode
no other large word can be found in memory, and none was there before the store. -/
theorem calls_bounded_set_register :
    ∃ made first second : Machine, Made [1, 0x8000, 5] made ∧
      made.calls? [.step] = some first ∧ first.calls? [.poke 0 0xffff] = some second ∧
      second.pc.toNat < 0x8000 ∧
      ∀ address word, second.core.store.ram.get? address = some word → 0x8000 ≤ word.toNat →
        address ∉ made.cellsWritten ([.step] ++ [.poke 0 0xffff]) ∧
        [1, 0x8000, 5][address.toNat]? = some word ∧
        first.core.store.ram.get? address = some word := by
  have hread : Image.read (.ofBytes [1, 0, 0, 0x80, 5, 0]) = .ok [1, 0x8000, 5] := by
    rw [Image.read_iff]
    exact .words (by decide) rfl
  obtain ⟨loaded, -, hloaded⟩ := ofImage_of_read hread .default none
  have hmade : Made [1, 0x8000, 5] (loaded.report (.imageLoaded 3)) := .loaded hread hloaded
  obtain ⟨first, hfirst⟩ : ∃ first, (loaded.report (.imageLoaded 3)).calls? [.step] = some first :=
    ⟨_, rfl⟩
  obtain ⟨second, hsecond⟩ : ∃ second, first.calls? [.poke 0 0xffff] = some second := ⟨_, rfl⟩
  obtain ⟨hpc, -, -, -, hlarge⟩ := calls_bounded hmade hfirst hsecond
  exact ⟨_, first, second, hmade, hfirst, hsecond, hpc, hlarge⟩

end WordMachine.Machine
