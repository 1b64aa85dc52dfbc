import Mathlib.Data.Set.Basic
import WordMachine.Proofs.Instruction.Footprint
import WordMachine.Proofs.Machine.Commit
import WordMachine.Proofs.Machine.Calls

/-! # Cells that are never read

The cells that a step looks at are those that its instruction takes up and the one that `rmem`
loads from. What the other cells hold has no part in the step, and stays with these cells unless
the step stores over it. So two machines that differ in nothing but cells which the first one does
not look at before it has stored to them go the same way.
-/
namespace WordMachine.Machine

/-- The machine with other memory cells. -/
def withRam (m : Machine) (ram : Ram) : Machine := { m with core := m.core.withRam ram }

section Phases

variable (m : Machine) (ram : Ram)

theorem withRam_eq_dress : m.withRam ram = m.dress id fun core => core.withRam ram := rfl

theorem record_withRam (fault : Fault) :
    (m.withRam ram).record fault = (m.record fault).withRam ram := by
  rw [withRam_eq_dress, record_dress fun _ _ => rfl, withRam_eq_dress]

theorem settle_withRam (i : Instruction) (answer : Except Fault Effect) :
    (m.withRam ram).settle i answer =
      ((m.settle i answer).1.withRam ram, (m.settle i answer).2) := by
  rw [withRam_eq_dress, settle_dress fun _ _ => rfl, withRam_eq_dress]

theorem awake_withRam : (m.withRam ram).awake = m.awake.withRam ram := by
  rw [withRam_eq_dress, awake_dress fun _ _ => rfl, withRam_eq_dress]

theorem tick_withRam : (m.withRam ram).tick = m.tick.withRam ram := by
  rw [withRam_eq_dress, tick_dress (fun _ _ => rfl) Config.unseen_id.maxSteps, withRam_eq_dress]

end Phases

/-! ## What a step looks at and stores to -/

/-- The cells that an attempt at the instruction at the program counter looks at. -/
def cellsTried (m : Machine) : List Word :=
  m.pc :: match m.fetch with
    | .ok i => i.operandCells ++ i.loadedCells m.core.store
    | .error _ => []

/-- The cells that the next step looks at. -/
def cellsRead (m : Machine) : List Word := if m.status = .finished then [] else m.cellsTried

/-- The cell that an attempt at the instruction at the program counter stores to, if any. -/
def cellTried? (m : Machine) : Option Word :=
  m.fetch.toOption.bind fun i => i.storedCell? m.core.store (m.outcome i).1

/-- The cell that the next step stores to, if any. -/
def cellStored? (m : Machine) : Option Word :=
  if m.status = .finished then none else m.cellTried?

/-- The cells that so many steps store to. -/
def cellsStored (m : Machine) (n : Nat) : List Word :=
  (List.range n).filterMap fun j => (m.steps j).cellStored?

theorem mem_cellsStored {m : Machine} {n : Nat} {cell : Word} :
    cell ∈ m.cellsStored n ↔ ∃ j < n, (m.steps j).cellStored? = some cell := by
  simp [cellsStored]

theorem mem_cellsStored_of_le {m : Machine} {j n : Nat} (hj : j ≤ n) {cell : Word}
    (h : cell ∈ m.cellsStored j) : cell ∈ m.cellsStored n := by
  obtain ⟨k, hk, hstored⟩ := mem_cellsStored.1 h
  exact mem_cellsStored.2 ⟨k, by omega, hstored⟩

theorem mem_cellsStored_succ {m : Machine} {n : Nat} {cell : Word} :
    cell ∈ m.cellsStored (n + 1) ↔
      cell ∈ m.cellsStored n ∨ (m.steps n).cellStored? = some cell := by
  simp only [mem_cellsStored, Nat.exists_lt_succ_right]

/-! ## One step -/

theorem executed_withRam {m : Machine} {i : Instruction} (hplace : i.address = m.pc) :
    ∃ stored : Option (Word × Word),
      stored.map Prod.fst = i.storedCell? m.core.store (m.outcome i).1 ∧
      ∀ ram, m.core.store.AgreesOn (i.loadedCells m.core.store) (m.core.store.withRam ram) →
        (m.withRam ram).executed i =
          ((m.executed i).1.withRam (ram.storing stored), (m.executed i).2) := by
  obtain ⟨core, hrun, -, -⟩ := executed_eq hplace
  obtain ⟨stored, hcell, hstores⟩ := i.execute_withRam (m.behind i) (m.fetched i).core
  rw [hrun] at hcell hstores
  refine ⟨stored, hcell, fun ram hagrees => ?_⟩
  have hfetched : ((m.withRam ram).fetched i).core = (m.fetched i).core.withRam ram := rfl
  have hpc : ((m.withRam ram).fetched i).pc = (m.fetched i).pc := rfl
  unfold executed
  simp only [hfetched, hpc, pc_fetched hplace, hrun, hstores ram hagrees]
  exact settle_withRam { m with core, pc := m.behind i, lastInstruction := some i } _ i _

/-- Decoding sees what is fetched in the cells that an attempt looks at. -/
theorem sees_fetch (m : Machine) :
    (Instruction.decode Action.read m.pc).Sees m.core.store m.cellsTried m.fetch := by
  refine Instruction.sees_decode List.mem_cons_self fun i hdecode cell hcell => ?_
  have hfetch : m.fetch = .ok i := hdecode
  rw [cellsTried, hfetch]
  exact List.mem_cons_of_mem _ (List.mem_append_left _ hcell)

/-- On any memory with the same words in the cells that an attempt looks at, the same instruction is
fetched and does the same, and the same word is stored. -/
theorem attempt_withRam (m : Machine) :
    ∃ stored : Option (Word × Word), stored.map Prod.fst = m.cellTried? ∧
      ∀ ram, m.core.store.AgreesOn m.cellsTried (m.core.store.withRam ram) →
        (m.withRam ram).fetch = m.fetch ∧
        (m.withRam ram).attempt = (m.attempt.1.withRam (ram.storing stored), m.attempt.2) := by
  have hfetched : ∀ ram, m.core.store.AgreesOn m.cellsTried (m.core.store.withRam ram) →
      (m.withRam ram).fetch = m.fetch :=
    fun ram => m.sees_fetch.answer_eq (Instruction.observes_decode m.pc)
  obtain ⟨reads, -, hdecode⟩ := m.sees_fetch
  have hself := hdecode m.core (.refl _ _)
  have hother : ∀ ram, m.core.store.AgreesOn m.cellsTried (m.core.store.withRam ram) →
      (Instruction.decode Action.read (m.withRam ram).pc).run (m.withRam ram).core =
        (m.fetch, (m.core.reportAll reads).withRam ram) :=
    fun ram hagrees => (hdecode _ hagrees).trans
      (congrArg (m.fetch, ·) (Core.withRam_reportAll m.core ram reads))
  cases hfetch : m.fetch with
  | error fault =>
    refine ⟨none, by rw [cellTried?, hfetch]; rfl, fun ram hagrees => ⟨?_, ?_⟩⟩
    · exact (hfetched ram hagrees).trans hfetch
    · unfold attempt
      rw [hself, hother ram hagrees, hfetch]
      exact congrArg (·, true) (record_withRam { m with
        core := m.core.reportAll reads
        pc := Instruction.addressAfter m.pc 1 } ram _)
  | ok i =>
    have hplace := Instruction.address_of_decode hfetch
    obtain ⟨stored, hcell, hexecuted⟩ :=
      executed_withRam (m := { m with core := m.core.reportAll reads }) hplace
    have hstore : (m.core.reportAll reads).store = m.core.store := Core.store_reportAll ..
    refine ⟨stored, ?_, fun ram hagrees => ⟨(hfetched ram hagrees).trans hfetch, ?_⟩⟩
    · rw [hcell, ((m.steady_reportAll reads).outcome i).1, hstore, cellTried?, hfetch]
      rfl
    · unfold attempt
      rw [hself, hother ram hagrees, hfetch]
      refine hexecuted ram ?_
      rw [hstore]
      refine ⟨rfl, fun cell hloaded => hagrees.cells cell ?_⟩
      rw [cellsTried, hfetch]
      exact List.mem_cons_of_mem _ (List.mem_append_right _ hloaded)

theorem cellsTried_awake (m : Machine) : m.awake.cellsTried = m.cellsTried := by
  rw [cellsTried, cellsTried, fetch_awake, store_awake, m.steady_awake.pc]

theorem cellTried?_awake (m : Machine) : m.awake.cellTried? = m.cellTried? := by
  rw [cellTried?, cellTried?, fetch_awake, store_awake]
  simp only [m.steady_awake.outcome]

theorem counted_withRam (p : Machine × Bool) (ram : Ram) :
    counted (p.1.withRam ram, p.2) = (counted p).withRam ram := by
  obtain ⟨m, _ | _⟩ := p
  · rfl
  · exact m.tick_withRam ram

/-- On any memory with the same words in the cells that a step looks at, the same instruction is
executed, and the machines go on to differ in nothing but memory. The step itself stores that word
too. -/
theorem step_withRam (m : Machine) :
    ∃ stored : Option (Word × Word), stored.map Prod.fst = m.cellStored? ∧
      m.step.core.store.ram = m.core.store.ram.storing stored ∧
      ∀ ram, (∀ cell ∈ m.cellsRead, ram.get cell = m.core.store.ram.get cell) →
        (m.withRam ram).next? = m.next? ∧
        (m.withRam ram).step = m.step.withRam (ram.storing stored) := by
  by_cases hfinished : m.status = .finished
  · refine ⟨none, by rw [cellStored?, if_pos hfinished]; rfl, ?_, fun ram _ => ?_⟩
    · rw [step_of_finished hfinished]
      rfl
    · have hother : (m.withRam ram).status = .finished := hfinished
      rw [next?, next?, if_pos hfinished, if_pos hother, step_of_finished hfinished,
        step_of_finished hother]
      exact ⟨rfl, rfl⟩
  · obtain ⟨stored, hcell, hattempt⟩ := m.awake.attempt_withRam
    rw [cellTried?_awake] at hcell
    have hstep : ∀ ram, (∀ cell ∈ m.cellsTried, ram.get cell = m.core.store.ram.get cell) →
        (m.withRam ram).next? = m.next? ∧
        (m.withRam ram).step = m.step.withRam (ram.storing stored) := by
      intro ram hagrees
      have hother : (m.withRam ram).status ≠ .finished := hfinished
      obtain ⟨hfetch, hrun⟩ := hattempt ram ⟨rfl, by rwa [cellsTried_awake, store_awake]⟩
      rw [← awake_withRam] at hfetch hrun
      rw [fetch_awake, fetch_awake] at hfetch
      rw [next?_of_going hfinished, next?_of_going hother, hfetch, step_eq hfinished,
        step_eq hother, hrun, counted_withRam]
      exact ⟨rfl, rfl⟩
    have hself : m.step = m.step.withRam (m.core.store.ram.storing stored) :=
      (hstep m.core.store.ram fun _ _ => rfl).2
    refine ⟨stored, by rw [cellStored?, if_neg hfinished, hcell], ?_, ?_⟩
    · exact congrArg (·.core.store.ram) hself
    · rw [cellsRead, if_neg hfinished]
      exact hstep

/-- The machines differ in nothing but memory, which holds the same in these cells. -/
def SameOn (cells : Set Word) (first second : Machine) : Prop :=
  ∃ ram, second = first.withRam ram ∧ ∀ cell ∈ cells, ram.get cell = first.core.store.ram.get cell

/-- A step that looks at no other cells makes the cell that it stores to the same. -/
theorem SameOn.step {cells : Set Word} {first second : Machine} (h : SameOn cells first second)
    (hread : ∀ cell ∈ first.cellsRead, cell ∈ cells) :
    second.next? = first.next? ∧
      SameOn {cell | cell ∈ cells ∨ first.cellStored? = some cell} first.step second.step := by
  obtain ⟨ram, rfl, hsame⟩ := h
  obtain ⟨stored, hcell, hram, hother⟩ := first.step_withRam
  obtain ⟨hnext, hstep⟩ := hother ram fun cell hcell => hsame cell (hread cell hcell)
  refine ⟨hnext, ram.storing stored, hstep, fun cell hknown => ?_⟩
  rw [hram]
  refine Ram.get_storing_congr (hknown.imp (hsame cell) fun hstored => ?_)
  rw [hcell, hstored]

/-! ## Many steps -/

/-- A cell that no step stores to keeps its word. -/
theorem get_steps_of_unstored {m : Machine} {n : Nat} {cell : Word}
    (h : cell ∉ m.cellsStored n) :
    (m.steps n).core.store.ram.get cell = m.core.store.ram.get cell := by
  induction n with
  | zero => rfl
  | succ n ih =>
    rw [mem_cellsStored_succ, not_or] at h
    obtain ⟨stored, hcell, hram, -⟩ := (m.steps n).step_withRam
    rw [← hcell] at h
    rw [steps_succ_last, hram, Ram.get_storing_of_ne _ h.2, ih h.1]

/-- **Cells that are never read do not matter.** Two machines differ in nothing but the words in
some cells of memory, and the steps of the first look at none of these before they have stored to
it. Then both execute the same instructions. At every step everything but memory is the same, and
so is memory in the other cells and in those that the steps have stored to. -/
theorem unread_cells {first second : Machine} {cells : Set Word} {n : Nat}
    (hsame : SameOn {cell | cell ∉ cells} first second)
    (hunread : ∀ j < n, ∀ cell ∈ (first.steps j).cellsRead,
      cell ∈ cells → cell ∈ first.cellsStored j) :
    (∀ j < n, (second.steps j).next? = (first.steps j).next?) ∧
    ∀ j ≤ n, SameOn {cell | cell ∉ cells ∨ cell ∈ first.cellsStored j}
      (first.steps j) (second.steps j) := by
  have hread : ∀ j < n, ∀ cell ∈ (first.steps j).cellsRead,
      cell ∈ {cell | cell ∉ cells ∨ cell ∈ first.cellsStored j} := by
    intro j hj cell hcell
    by_cases hin : cell ∈ cells
    · exact .inr (hunread j hj cell hcell hin)
    · exact .inl hin
  have hsteps : ∀ j ≤ n, SameOn {cell | cell ∉ cells ∨ cell ∈ first.cellsStored j}
      (first.steps j) (second.steps j) := by
    intro j hj
    induction j with
    | zero =>
      have hnone : ∀ cell, cell ∉ first.cellsStored 0 := by simp [cellsStored]
      simp only [hnone, or_false]
      exact hsame
    | succ j ih =>
      obtain ⟨-, hstep⟩ := (ih (by omega)).step (hread j hj)
      rw [steps_succ_last, steps_succ_last]
      simpa only [mem_cellsStored_succ, Set.mem_ofPred_eq, or_assoc] using hstep
  exact ⟨fun j hj => ((hsteps j (by omega)).step (hread j hj)).1, hsteps⟩

/-- A machine that stores `halt` over a word that selects no operation, loads it and executes it. -/
def overwriter : Machine := holding [16, 6, 0, 15, 0x8000, 6, 22, 22] (by decide)

/-- What cell 6 held before and what cell 7 holds does not matter. -/
theorem unread_cells_overwriter :
    let other := overwriter.withRam ((overwriter.core.store.ram.set 6 23).set 7 24)
    let cells : Set Word := {cell | cell = 6 ∨ cell = 7}
    SameOn {cell | cell ∉ cells} overwriter other ∧
    (∀ j < 3, ∀ cell ∈ (overwriter.steps j).cellsRead,
      cell ∈ cells → cell ∈ overwriter.cellsStored j) ∧
    (other.steps 2).next?.map (·.opcode) = some .halt ∧
    SameOn {cell | cell ∉ cells ∨ cell ∈ overwriter.cellsStored 3}
      (overwriter.steps 3) (other.steps 3) := by
  intro other cells
  have hsame : SameOn {cell | cell ∉ cells} overwriter other := by
    refine ⟨_, rfl, fun cell hcell => ?_⟩
    obtain ⟨hsix, hseven⟩ : cell ≠ 6 ∧ cell ≠ 7 := not_or.1 hcell
    rw [Ram.get_set, if_neg fun h => hseven h.1.symm, Ram.get_set, if_neg fun h => hsix h.1.symm]
  have hall : ∀ j < 3, (overwriter.steps j).cellsRead.all
      (fun cell => cell = 6 ∨ cell = 7 → cell ∈ overwriter.cellsStored j) = true := by
    decide +kernel
  have hunread : ∀ j < 3, ∀ cell ∈ (overwriter.steps j).cellsRead,
      cell = 6 ∨ cell = 7 → cell ∈ overwriter.cellsStored j :=
    fun j hj cell hcell => of_decide_eq_true (List.all_eq_true.1 (hall j hj) cell hcell)
  obtain ⟨hnext, hsteps⟩ := unread_cells hsame hunread
  refine ⟨hsame, hunread, ?_, hsteps 3 (by decide)⟩
  rw [hnext 2 (by decide)]
  decide +kernel

end WordMachine.Machine
