import WordMachine.Proofs.Instruction.Bounds
import WordMachine.Proofs.Instruction.Checked
import WordMachine.Proofs.Listing
import WordMachine.Proofs.Machine.Errors

/-! # The engine runs into no hazard

The steps and runs of a machine with every check made: besides the accesses, sums and divisions of
its instructions, the counters have to fit into 64 bits. As long as they do, the checked machine
does what the machine does, whatever its registers, its stack and its cells hold, and afterwards its
program counter is below `0x8000` again. Looking from outside, storing, listing and loading need
nothing of the counters.
-/
namespace WordMachine

namespace Machine

/-! ## The machine with every check made -/

def checkedRecord (m : Machine) (fault : Fault) : Except Hazard Machine :=
  Checked.fitting UInt64.size (m.errorCount + 1) (m.record fault)

def checkedTick (m : Machine) : Except Hazard Machine := do
  let m ← Checked.fitting UInt64.size (m.counter + 1) { m with counter := m.counter + 1 }
  match m.config.maxSteps with
  | none => return m
  | some limit =>
    if limit.toNat ≤ m.counter ∧ m.status = .running then
      return (← m.checkedRecord (.stepLimit limit)).finish
    else return m

def checkedEmit (m : Machine) (data : List UInt8) : Except Hazard Machine :=
  match m.terminal.emit data with
  | (none, terminal) => .ok { m with terminal }
  | (some reason, terminal) => { m with terminal }.checkedRecord (.terminal reason)

def checkedCommit (m : Machine) (i : Instruction) :
    Except Fault Effect → Except Hazard Machine
  | .ok .halt => return (← m.checkedEmit m.farewell.toUTF8.toList).finish
  | .ok .proceed => m.checkedTick
  | .ok (.jump target) => { m with pc := target }.checkedTick
  | .ok (.output byte) => do (← m.checkedEmit [byte]).checkedTick
  | .error .inputExhausted =>
    return (← (m.report (.exhausted i.address)).checkedRecord .inputExhausted).finish
  | .error fault => do (← m.checkedRecord (.located (executingPlace i) fault)).checkedTick

def checkedPerform (m : Machine) (i : Instruction) : Except Hazard Machine := do
  let pc ← Checked.after i.address i.length
  let m := { m with pc }.report (.fetched i.opcode i.address m.counter i.operands)
  let (result, core) ← (Checked.execute i m.pc).run m.core
  checkedCommit { m with core, lastInstruction := some i } i result

def checkedCycle (m : Machine) : Except Hazard Machine := do
  let (decoded, core) ← (Checked.decode m.pc).run m.core
  match decoded with
  | .ok i => checkedPerform { m with core } i
  | .error fault =>
    let pc ← Checked.after m.pc 1
    let skipped := { m with core, pc }
    (← skipped.checkedRecord (.located (decodingPlace m.pc) fault)).checkedTick

def checkedStep (m : Machine) : Except Hazard Machine :=
  match m.status with
  | .finished => .ok m
  | .new => return (← m.start.checkedCycle).publish
  | .running => return (← m.checkedCycle).publish

def checkedSteps (m : Machine) : Nat → Except Hazard Machine
  | 0 => .ok m
  | n + 1 => if m.isHalted then .ok m else do (← m.checkedStep).checkedSteps n

def checkedRunWithin (m : Machine) : (bound : Nat) → Except Hazard (Option Machine)
  | 0 => .ok none
  | bound + 1 => do
    let m ← m.checkedStep
    if m.status ≠ .running then return some m
    else if m.monitor.stopRequested then return some m.stop
    else m.checkedRunWithin bound

def checkedRun (m : Machine) (bound : Nat) : Except Hazard (Option (Except Fault Machine)) :=
  if m.status = .new then do return (← m.checkedRunWithin bound).map fun m => .ok m.conclude
  else .ok (some (.error .alreadyStarted))

def checkedPeek (m : Machine) (address : Word) : Except Hazard (Except Fault Word) := do
  match ← Checked.target address with
  | .ok place => return .ok (← Checked.get m.core.store place)
  | .error fault => return .error fault

def checkedPoke (m : Machine) (address word : Word) : Except Hazard (Except Fault Machine) := do
  match ← (CheckedAction.write address word).run m.core with
  | (.ok (), core) => return .ok { m with core }
  | (.error fault, _) => return .error fault

/-! ## It does the same -/

/-- So many steps cannot take the counters out of 64 bits. -/
structure Room (n : Nat) (m : Machine) : Prop where
  counter : m.counter + n < UInt64.size
  errorCount : m.errorCount + 2 * n < UInt64.size

theorem checkedRecord_eq {m : Machine} (h : m.errorCount + 1 < UInt64.size) (fault : Fault) :
    m.checkedRecord fault = .ok (m.record fault) :=
  Checked.fitting_of_lt h _

theorem checkedTick_eq {m : Machine} (hcounter : m.counter + 1 < UInt64.size)
    (herrors : m.errorCount + 1 < UInt64.size) : m.checkedTick = .ok m.tick := by
  have hcounted : Checked.fitting UInt64.size (m.counter + 1) { m with counter := m.counter + 1 } =
      .ok { m with counter := m.counter + 1 } := Checked.fitting_of_lt hcounter _
  unfold checkedTick
  rw [hcounted]
  cases hmax : m.config.maxSteps with
  | none =>
    rw [tick_of_unlimited hmax]
    simp [bind, Except.bind, hmax]
    rfl
  | some limit =>
    have hrecord := checkedRecord_eq (m := { m with counter := m.counter + 1 }) herrors
      (.stepLimit limit)
    rw [tick_of_limit hmax]
    simp only [bind, Except.bind, hmax, hrecord]
    split <;> rfl

theorem checkedEmit_eq {m : Machine} (h : m.errorCount + 1 < UInt64.size) (data : List UInt8) :
    m.checkedEmit data = .ok (m.emit data) := by
  unfold checkedEmit emit
  rcases m.terminal.emit data with ⟨_ | reason, terminal⟩
  · rfl
  · exact checkedRecord_eq (m := { m with terminal }) h (.terminal reason)

/-- An emission leaves the counter alone and counts one fault at most. -/
theorem counters_emit (m : Machine) (data : List UInt8) :
    (m.emit data).counter = m.counter ∧ (m.emit data).errorCount ≤ m.errorCount + 1 := by
  obtain ⟨terminal, h | ⟨reason, h⟩⟩ := m.emit_cases data
  · rw [h]
    exact ⟨rfl, Nat.le_succ _⟩
  · rw [h]
    exact ⟨rfl, Nat.le_refl _⟩

theorem checkedCommit_eq {m : Machine} (hcounter : m.counter + 1 < UInt64.size)
    (herrors : m.errorCount + 2 < UInt64.size) (i : Instruction) (answer : Except Fault Effect) :
    m.checkedCommit i answer = .ok (m.commit i answer) := by
  have hone : m.errorCount + 1 < UInt64.size := by omega
  cases answer with
  | ok effect =>
    cases effect with
    | proceed => exact checkedTick_eq hcounter hone
    | jump target => exact checkedTick_eq (m := { m with pc := target }) hcounter hone
    | output byte =>
      obtain ⟨hemitted, hfaults⟩ := m.counters_emit [byte]
      rw [checkedCommit, checkedEmit_eq hone]
      exact checkedTick_eq (by omega) (by omega)
    | halt =>
      rw [checkedCommit, checkedEmit_eq hone]
      rfl
  | error fault =>
    have hrecord := checkedRecord_eq hone (.located (executingPlace i) fault)
    have htick :=
      checkedTick_eq (m := m.record (.located (executingPlace i) fault)) hcounter herrors
    cases fault with
    | inputExhausted =>
      rw [checkedCommit, checkedRecord_eq (m := m.report (.exhausted i.address)) hone]
      rfl
    | _ =>
      rw [checkedCommit, hrecord]
      · exact htick
      · simp

theorem checkedPerform_eq {m : Machine} (hcounter : m.counter + 1 < UInt64.size)
    (herrors : m.errorCount + 2 < UInt64.size) (i : Instruction) :
    m.checkedPerform i = .ok (m.perform i) := by
  have hperform : m.perform i = commit { m.fetched i with
      core := ((i.execute (m.fetched i).pc).run (m.fetched i).core).2
      lastInstruction := some i } i ((i.execute (m.fetched i).pc).run (m.fetched i).core).1 := rfl
  unfold checkedPerform
  rw [Checked.after_eq i.address i.length_le, hperform]
  show ((Checked.execute i (m.fetched i).pc).run (m.fetched i).core >>= _) = _
  rw [Checked.agrees_execute i _ _]
  rcases (i.execute (m.fetched i).pc).run (m.fetched i).core with ⟨result, core⟩
  exact checkedCommit_eq (m := { m.fetched i with core, lastInstruction := some i }) hcounter
    herrors i result

theorem checkedCycle_eq {m : Machine} (hcounter : m.counter + 1 < UInt64.size)
    (herrors : m.errorCount + 2 < UInt64.size) : m.checkedCycle = .ok m.cycle := by
  unfold checkedCycle cycle
  rw [Checked.agrees_decode m.pc m.core]
  rcases (Instruction.decode Action.read m.pc).run m.core with ⟨fault | i, core⟩
  · have hskipped := checkedRecord_eq
      (m := { m with core, pc := Instruction.addressAfter m.pc 1 }) (Nat.lt_of_succ_lt herrors)
      (.located (decodingPlace m.pc) fault)
    show (Checked.after m.pc 1 >>= _) = _
    rw [Checked.after_eq m.pc (by decide)]
    show (checkedRecord _ _ >>= _) = _
    rw [hskipped]
    exact checkedTick_eq (m := record _ _) hcounter herrors
  · exact checkedPerform_eq (m := { m with core }) hcounter herrors i

theorem checkedStep_eq {m : Machine} (h : m.Room 1) : m.checkedStep = .ok m.step := by
  obtain ⟨hcounter, herrors⟩ := h
  unfold checkedStep step
  cases m.status with
  | new =>
    show (m.start.checkedCycle >>= _) = _
    rw [checkedCycle_eq (m := m.start) hcounter herrors]
    rfl
  | running =>
    show (m.checkedCycle >>= _) = _
    rw [checkedCycle_eq hcounter herrors]
    rfl
  | finished => rfl

/-! ## Steps and runs -/

/-- A step counts once at most and records two faults at most. -/
theorem counters_step (m : Machine) :
    m.step.counter ≤ m.counter + 1 ∧ m.step.errorCount ≤ m.errorCount + 2 := by
  refine ⟨m.counter_step_le.1, ?_⟩
  rw [m.recorded_step.errorCount]
  rcases m.stepFaults_cases with hfew | ⟨fault, limit, htwo, -⟩
  · omega
  · rw [htwo]
    exact Nat.le_refl _

theorem Room.step {n : Nat} {m : Machine} (h : m.Room (n + 1)) : m.step.Room n := by
  obtain ⟨hcounter, herrors⟩ := h
  obtain ⟨hcounted, hrecorded⟩ := m.counters_step
  exact ⟨by omega, by omega⟩

theorem Room.one {n : Nat} {m : Machine} (h : m.Room (n + 1)) : m.Room 1 := by
  obtain ⟨hcounter, herrors⟩ := h
  exact ⟨by omega, by omega⟩

theorem checkedSteps_eq {n : Nat} {m : Machine} (h : m.Room n) :
    m.checkedSteps n = .ok (m.steps n) := by
  induction n generalizing m with
  | zero => rfl
  | succ n ih =>
    rw [checkedSteps, steps]
    split
    · rfl
    · rw [checkedStep_eq h.one]
      exact ih h.step

theorem checkedRunWithin_eq {bound : Nat} {m : Machine} (h : m.Room bound) :
    m.checkedRunWithin bound = .ok (m.runWithin bound) := by
  induction bound generalizing m with
  | zero => rfl
  | succ bound ih =>
    rw [checkedRunWithin, runWithin_succ, checkedStep_eq h.one]
    show (if _ then _ else if _ then _ else _) = _
    rw [ih h.step]
    split
    · rfl
    · split <;> rfl

theorem checkedRun_eq {bound : Nat} {m : Machine} (h : m.Room bound) :
    m.checkedRun bound = .ok (m.run bound) := by
  unfold checkedRun run
  rw [checkedRunWithin_eq h]
  split <;> rfl

/-- Behind a step the program counter is that of a memory cell. -/
theorem pc_step_lt {m : Machine} (h : m.pc.toNat < 0x8000) : m.step.pc.toNat < 0x8000 := by
  by_cases hfinished : m.status = .finished
  · rwa [step_of_finished hfinished]
  · cases hfetch : m.fetch with
    | error fault =>
      rw [(step_of_error hfinished hfetch).1.pc]
      omega
    | ok i =>
      have hbehind : (m.behind i).toNat < 0x8000 := by
        rw [toNat_behind]
        omega
      rw [(step_of_ok hfinished hfetch).1.pc]
      split
      · exact Instruction.bounded_of_execute ‹_›
      · exact hbehind

theorem pc_steps_lt {m : Machine} (h : m.pc.toNat < 0x8000) (n : Nat) :
    (m.steps n).pc.toNat < 0x8000 := by
  induction n with
  | zero => exact h
  | succ n ih =>
    rw [steps_succ_last]
    exact pc_step_lt ih

/-! ## Looking and storing from outside -/

theorem checkedPeek_eq (m : Machine) (address : Word) :
    m.checkedPeek address = .ok (m.peek address) := by
  unfold checkedPeek peek Store.peek
  rw [Checked.target_eq]
  cases hof : Target.of address with
  | error fault => rfl
  | ok place =>
    show (Checked.get m.core.store place >>= _) = _
    rw [Checked.get_eq m.core.store (Target.inRange_of hof)]
    rfl

theorem checkedPoke_eq (m : Machine) (address word : Word) :
    m.checkedPoke address word = .ok (m.poke address word) := by
  unfold checkedPoke poke
  rw [CheckedAction.agrees_write address word m.core]
  rcases (Action.write address word).run m.core with ⟨_ | _, core⟩ <;> rfl

end Machine

/-! ## Loading -/

/-- Copies an image only if there are cells for all its words. -/
def Image.checkedLoad (input : Input) (ram : Ram) (log : Log) :
    Except Hazard (Except ImageError (Nat × Ram × Log)) :=
  match read input with
  | .error error => .ok (.error error)
  | .ok words =>
    (ram.load? words).elim (.error (.noRoom words.length)) fun loaded =>
      .ok (.ok (words.length, loaded, log.add (.imageLoaded words.length)))

theorem Image.checkedLoad_eq (input : Input) (ram : Ram) (log : Log) :
    checkedLoad input ram log = .ok (load input ram log) := by
  unfold checkedLoad
  cases hread : read input with
  | error error => rw [load_of_read_error hread]
  | ok words =>
    have hfits : ram.load? words = some (ram.setFrom 0 words) := if_pos (length_of_read hread)
    rw [load_of_read hread]
    simp only [hfits]
    rfl

namespace Machine

/-- **The engine runs into no hazard.** Take a machine whose program counter is that of a memory
cell and whose counters are not about to overflow; registers, stack and cells may hold any words.
With every check made a step does what it does without them, and the program counter is that of a
cell again, so that steps and runs can go on until the counters overflow. Every address can be
looked at and stored at, memory can be listed between any bounds and from the program counter on,
and any image can be loaded, without an access outside memory and registers. However many lines are
asked for from the program counter on, each of them can be read; room for the lines is set aside
first, so that a count for which there is no room fails before any cell is read, and every other
one gives its listing. -/
theorem no_hazard {m : Machine} (hpc : m.pc.toNat < 0x8000) (hcounter : m.counter < UInt64.size - 2)
    (herrors : m.errorCount < UInt64.size - 2) :
    (m.checkedStep = .ok m.step ∧ m.step.pc.toNat < 0x8000 ∧
      m.step.core.store.ram.toList.length = 0x8000 ∧
      m.step.core.store.registers.toList.length = 8) ∧
    (∀ n, m.counter + n < UInt64.size → m.errorCount + 2 * n < UInt64.size →
      m.checkedSteps n = .ok (m.steps n) ∧ m.checkedRun n = .ok (m.run n) ∧
      (m.steps n).pc.toNat < 0x8000) ∧
    (∀ address, m.checkedPeek address = .ok (m.peek address)) ∧
    (∀ address word, m.checkedPoke address word = .ok (m.poke address word)) ∧
    (∀ first last, ∃ lines, Listing.range? m.core.store.ram first last = some lines) ∧
    (∀ n, ∃ lines, Listing.linesFrom? m.core.store.ram m.pc n = some lines) ∧
    (∀ n ≤ Listing.maxLines, ∃ lines, Listing.count? m.core.store.ram m.pc n = some lines) ∧
    ∀ source log, Image.checkedLoad source m.core.store.ram log =
      .ok (Image.load source m.core.store.ram log) := by
  refine ⟨⟨checkedStep_eq ⟨by omega, by omega⟩, pc_step_lt hpc, Vector.length_toList,
    Vector.length_toList⟩, ?_, m.checkedPeek_eq, m.checkedPoke_eq, Listing.exists_range? _,
    Listing.exists_linesFrom? _ hpc, fun n hroom => Listing.exists_count? _ hpc hroom,
    fun source log => Image.checkedLoad_eq source _ log⟩
  intro n hcounted hrecorded
  have hroom : m.Room n := ⟨hcounted, hrecorded⟩
  exact ⟨checkedSteps_eq hroom, checkedRun_eq hroom, pc_steps_lt hpc n⟩

/-- A machine in the middle of an instruction that wraps around the top of memory. Nothing in its
registers and on its stack is reduced, and one more step is all that its counters have room for. -/
def ragged : Machine :=
  let blank := create .default none
  { blank with
    pc := 0x7fff
    counter := UInt64.size - 3
    errorCount := UInt64.size - 3
    core := { blank.core with
      store := ⟨(Ram.zeros.set 0x7fff 0xff0f).set 1 0x8000, ⟨Vector.replicate registerCount 0xffff⟩⟩
      stack := .ofList [0xffff] } }

/-- The `rmem` finds an address in a register that stands for nothing, which is a fault and no
hazard. -/
theorem no_hazard_ragged :
    ragged.pc.toNat < 0x8000 ∧ ragged.counter < UInt64.size - 2 ∧
      ragged.errorCount < UInt64.size - 2 ∧ ragged.checkedStep = .ok ragged.step ∧
      ragged.step.pc.toNat < 0x8000 ∧
      ragged.checkedPeek 0xffff = .ok (ragged.peek 0xffff) ∧
      (∃ lines, Listing.linesFrom? ragged.core.store.ram ragged.pc 3 = some lines) ∧
      3 ≤ Listing.maxLines ∧
      ∃ lines, Listing.count? ragged.core.store.ram ragged.pc 3 = some lines := by
  have hpc : ragged.pc.toNat < 0x8000 := by decide
  have hcounter : ragged.counter < UInt64.size - 2 := by decide
  have herrors : ragged.errorCount < UInt64.size - 2 := by decide
  have hroom : 3 ≤ Listing.maxLines := by decide
  obtain ⟨⟨hstep, hinside, -⟩, -, hpeek, -, -, hlines, hcount, -⟩ :=
    no_hazard hpc hcounter herrors
  exact ⟨hpc, hcounter, herrors, hstep, hinside, hpeek 0xffff, hlines 3, hroom, hcount 3 hroom⟩

end Machine

end WordMachine
