import Mathlib.Data.Nat.Find
import WordMachine.Proofs.Machine.Limit

/-! # Runs are steps

A run does what single steps do. Without a requested stop it ends with the first step that
finishes the machine, and has no result within any bound if there is no such step. With a stop
requested beforehand it is one step, after which the machine has finished in any case. All that a
run adds are its own events and, if it is stopped, a snapshot of the stopped machine.
-/
namespace WordMachine.Machine

/-- The machine has finished after so many steps and not before. -/
structure FinishesAt (m : Machine) (k : Nat) : Prop where
  finished : (m.steps k).status = .finished
  going : ∀ j < k, (m.steps j).status ≠ .finished

section FinishesAt

variable {m : Machine} {j k : Nat}

theorem FinishesAt.lt_of_going (h : m.FinishesAt k) (hgoing : (m.steps j).status ≠ .finished) :
    j < k := by
  rcases Nat.lt_or_ge j k with hlt | hge
  · exact hlt
  · rw [steps_of_finished h.finished hge] at hgoing
    exact absurd h.finished hgoing

/-- A machine finishes only once. -/
theorem FinishesAt.unique (h : m.FinishesAt j) (h' : m.FinishesAt k) : j = k := by
  rcases Nat.lt_trichotomy j k with hlt | heq | hgt
  · exact absurd h.finished (h'.going j hlt)
  · exact heq
  · exact absurd h'.finished (h.going k hgt)

theorem finishesAt_succ (hgoing : (m.steps j).status ≠ .finished)
    (hfinished : (m.steps (j + 1)).status = .finished) : m.FinishesAt (j + 1) := by
  refine ⟨hfinished, fun i hi hearlier => ?_⟩
  rw [steps_of_finished hearlier (by omega)] at hgoing
  exact hgoing hearlier

end FinishesAt

/-- The machine with another log. -/
def withLog (m : Machine) (log : Log) : Machine := { m with core := { m.core with log } }

/-- The machine finished, with another log and with a published snapshot that shows it finished. All
else is as it was. -/
def finishedWith (m : Machine) (log : Log) : Machine :=
  { m with
    status := .finished
    core := { m.core with log }
    monitor := { m.monitor with latest := { m.snapshot with status := .finished } } }

/-- The event at the end of a run. -/
def ending (m : Machine) : Event := .finished m.pc m.counter m.errorCount

/-! ## Published snapshots -/

/-- A step publishes what it leaves, so that publishing it again changes nothing. -/
theorem publish_step {m : Machine} (h : m.status ≠ .finished) : m.step.publish = m.step := by
  rw [step_eq h]
  rfl

theorem conclude_step {m : Machine} (h : m.status ≠ .finished) :
    m.step.conclude = m.step.withLog (m.step.core.log.add m.step.ending) := by
  show m.step.publish.report m.step.publish.ending = _
  rw [publish_step h]
  rfl

theorem conclude_stop (m : Machine) :
    m.stop.conclude =
      m.finishedWith ((m.core.log.add (.stopped m.pc m.counter)).add m.ending) := rfl

theorem conclude_of_finished {m : Machine} (h : m.status = .finished) :
    m.conclude = m.finishedWith (m.core.log.add m.ending) := by
  obtain ⟨core, pc, status, _⟩ := m
  cases h
  rfl

theorem latest_of_run {m after : Machine} {bound : Nat} (h : m.run bound = some (.ok after)) :
    after.monitor.latest = after.snapshot := by
  unfold run at h
  split at h
  · obtain ⟨last, -, heq⟩ := Option.map_eq_some_iff.1 h
    obtain rfl := Except.ok.inj heq
    rfl
  · cases h

/-! ## Runs without a requested stop -/

section Undisturbed

variable {m : Machine}

theorem FinishesAt.step {k : Nat} (h : m.FinishesAt (k + 1)) : m.step.FinishesAt k := by
  refine ⟨?_, ?_⟩
  · rw [← steps_succ]
    exact h.finished
  · intro j hj
    rw [← steps_succ]
    exact h.going (j + 1) (by omega)

/-- While the steps do not finish the machine, neither does the run. -/
theorem runWithin_eq_none (hstop : m.monitor.stopRequested = false) {bound : Nat}
    (hgoing : (m.steps bound).status ≠ .finished) : m.runWithin bound = none := by
  induction bound generalizing m with
  | zero => rfl
  | succ bound ih =>
    have hnext : m.step.monitor.stopRequested = false := by rw [stopRequested_step, hstop]
    rw [steps_succ] at hgoing
    have hrunning : m.step.status = .running := by
      rcases m.status_step with h | h
      · exact h
      · rw [steps_of_isHalted ((isHalted_iff _).2 h)] at hgoing
        exact absurd h hgoing
    rw [runWithin_succ, hrunning, hnext]
    exact ih hnext hgoing

/-- The run ends with the first step that finishes the machine. -/
theorem runWithin_of_finishesAt (hstop : m.monitor.stopRequested = false) {k bound : Nat}
    (hfirst : m.FinishesAt (k + 1)) (hbound : k < bound) :
    m.runWithin bound = some (m.steps (k + 1)) := by
  induction bound generalizing m k with
  | zero => omega
  | succ bound ih =>
    have hnext : m.step.monitor.stopRequested = false := by rw [stopRequested_step, hstop]
    have hfirst' := hfirst.step
    rw [runWithin_succ, steps_succ]
    cases k with
    | zero =>
      have hfinished : m.step.status = .finished := hfirst'.finished
      rw [hfinished]
      rfl
    | succ k =>
      have hrunning : m.step.status = .running := by
        rcases m.status_step with h | h
        · exact h
        · exact absurd h (hfirst'.going 0 (by omega))
      rw [hrunning, hnext]
      exact ih hnext hfirst' (by omega)

theorem FinishesAt.pos (hnew : m.status = .new) {k : Nat} (h : m.FinishesAt k) : 0 < k := by
  rcases Nat.eq_zero_or_pos k with rfl | hpos
  · have hfinished : m.status = .finished := h.finished
    rw [hnew] at hfinished
    cases hfinished
  · exact hpos

theorem run_of_finishesAt (hnew : m.status = .new) (hstop : m.monitor.stopRequested = false)
    {k : Nat} (hfirst : m.FinishesAt k) (bound : Nat) :
    m.run bound =
      if k ≤ bound then
        some (.ok ((m.steps k).withLog ((m.steps k).core.log.add (m.steps k).ending)))
      else none := by
  obtain ⟨j, rfl⟩ : ∃ j, k = j + 1 := ⟨k - 1, by have := hfirst.pos hnew; omega⟩
  have hlast : (m.steps (j + 1)).conclude =
      (m.steps (j + 1)).withLog ((m.steps (j + 1)).core.log.add (m.steps (j + 1)).ending) := by
    rw [steps_succ_last]
    exact conclude_step (hfirst.going j (by omega))
  rw [run, if_pos hnew, ← hlast]
  by_cases hbound : j + 1 ≤ bound
  · rw [runWithin_of_finishesAt hstop hfirst (by omega), if_pos hbound]
    rfl
  · rw [runWithin_eq_none hstop (hfirst.going bound (by omega)), if_neg hbound]
    rfl

end Undisturbed

/-- A run that was asked to stop beforehand is one step, and the stop is reported if it was the
stop that ended the run. -/
theorem run_of_stopRequested {m : Machine} (hnew : m.status = .new)
    (hstop : m.monitor.stopRequested = true) {bound : Nat} (hbound : 0 < bound) :
    m.run bound = some (.ok (m.step.finishedWith ((if m.step.status = .running
      then m.step.core.log.add (.stopped m.step.pc m.step.counter)
      else m.step.core.log).add m.step.ending))) := by
  obtain ⟨b, rfl⟩ : ∃ b, bound = b + 1 := ⟨bound - 1, by omega⟩
  have hstill : m.step.monitor.stopRequested = true := by rw [stopRequested_step, hstop]
  rw [run, if_pos hnew, runWithin_succ]
  rcases m.status_step with hrunning | hfinished
  · rw [if_neg (by simp [hrunning]), if_pos hstill, if_pos hrunning, ← conclude_stop]
    rfl
  · rw [if_pos (by simp [hfinished]), if_neg (by simp [hfinished]), ← conclude_of_finished hfinished]
    rfl

theorem status_of_run {m after : Machine} {bound : Nat} (h : m.run bound = some (.ok after)) :
    m.status = .new := by
  by_contra hstarted
  rw [run, if_neg hstarted] at h
  cases h

/-- What a run leaves is what steps leave, but for the end of the run: one step if a stop was
requested beforehand, and otherwise all the steps up to the one that finishes the machine. -/
theorem run_cases {m after : Machine} {bound : Nat} (h : m.run bound = some (.ok after)) :
    ∃ k ≤ bound, (if m.monitor.stopRequested then k = 1 else m.FinishesAt k) ∧
      ∃ log, after = (m.steps k).withLog log ∨ after = (m.steps k).finishedWith log := by
  have hnew := status_of_run h
  cases hstop : m.monitor.stopRequested with
  | true =>
    have hpositive : 0 < bound := by
      rcases Nat.eq_zero_or_pos bound with rfl | hpos
      · rw [run, if_pos hnew] at h
        cases h
      · exact hpos
    have hone : m.step = m.steps 1 := (m.steps_succ 0).symm
    rw [run_of_stopRequested hnew hstop hpositive, hone] at h
    exact ⟨1, hpositive, rfl, _, .inr (Except.ok.inj (Option.some.inj h)).symm⟩
  | false =>
    have hends : ∃ k, (m.steps k).status = .finished := by
      by_contra hnever
      have hgoing : (m.steps bound).status ≠ .finished := fun hfinished => hnever ⟨bound, hfinished⟩
      rw [run, if_pos hnew, runWithin_eq_none hstop hgoing] at h
      cases h
    have hfirst : m.FinishesAt (Nat.find hends) :=
      ⟨Nat.find_spec hends, fun j hj => Nat.find_min hends hj⟩
    rw [run_of_finishesAt hnew hstop hfirst] at h
    split at h
    · rename_i hbound
      exact ⟨_, hbound, hfirst, _, .inl (Except.ok.inj (Option.some.inj h)).symm⟩
    · cases h

/-- **A run does what steps do.** Take a new machine. If no stop is requested, the run ends with the
first step that finishes the machine and leaves what that step leaves, but for one event more in
the log; without such a step it never ends. If a stop is requested, the run leaves what one step
leaves, only that the machine has finished, and the log tells of the stop if the step left the
machine running. Either way the published snapshot is that of the machine. -/
theorem run_eq_steps {m : Machine} (hnew : m.status = .new) :
    (m.monitor.stopRequested = false →
      (∀ k, m.FinishesAt k → ∀ bound, m.run bound =
        if k ≤ bound then
          some (.ok ((m.steps k).withLog ((m.steps k).core.log.add (m.steps k).ending)))
        else none) ∧
      ((∀ k, (m.steps k).status ≠ .finished) → ∀ bound, m.run bound = none)) ∧
    (m.monitor.stopRequested = true → ∀ bound > 0, m.run bound =
      some (.ok (m.step.finishedWith ((if m.step.status = .running
        then m.step.core.log.add (.stopped m.step.pc m.step.counter)
        else m.step.core.log).add m.step.ending)))) ∧
    ∀ bound after, m.run bound = some (.ok after) → after.monitor.latest = after.snapshot := by
  refine ⟨?_, ?_, ?_⟩
  · intro hstop
    refine ⟨fun k hfirst bound => run_of_finishesAt hnew hstop hfirst bound, ?_⟩
    intro hgoing bound
    rw [run, if_pos hnew, runWithin_eq_none hstop (hgoing bound)]
    rfl
  · intro hstop bound hbound
    exact run_of_stopRequested hnew hstop hbound
  · intro bound after hrun
    exact latest_of_run hrun

/-- The idle machine with a limit of two steps finishes at the second one, and so does its run. If it
is asked to stop first, the run is over after one step. -/
theorem run_eq_steps_idle :
    let m := idle.limited 2
    (m.status = .new ∧ m.monitor.stopRequested = false ∧ m.FinishesAt 2) ∧
    m.run 5 = some (.ok ((m.steps 2).withLog ((m.steps 2).core.log.add (m.steps 2).ending))) ∧
    m.requestStop.monitor.stopRequested = true ∧ m.requestStop.step.status = .running ∧
    m.requestStop.run 5 = some (.ok (m.requestStop.step.finishedWith
      ((m.requestStop.step.core.log.add (.stopped m.requestStop.step.pc
        m.requestStop.step.counter)).add m.requestStop.step.ending))) := by
  intro m
  have hfirst : m.FinishesAt 2 := by
    refine ⟨by decide, fun j hj => ?_⟩
    have hcases : j = 0 ∨ j = 1 := by omega
    rcases hcases with rfl | rfl <;> decide
  have hrunning : m.requestStop.step.status = .running := by decide
  obtain ⟨hsteps, -, -⟩ := run_eq_steps (m := m) rfl
  obtain ⟨-, hstopped, -⟩ := run_eq_steps (m := m.requestStop) rfl
  have hrun := hstopped rfl 5 (by decide)
  rw [if_pos hrunning] at hrun
  exact ⟨⟨rfl, rfl, hfirst⟩, (hsteps rfl).1 2 hfirst 5, rfl, hrunning, hrun⟩

end WordMachine.Machine
