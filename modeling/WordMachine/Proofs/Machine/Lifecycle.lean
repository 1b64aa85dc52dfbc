import Mathlib.Logic.Relation
import WordMachine.Proofs.Machine.Calls

/-! # The life of a machine

A machine is new, then it runs, then it has finished, and it never goes back. What finishes it in
a step is one of few causes: the instruction halts, it has nothing left to read, or it is counted
and the limit is reached. No fault, no failure of the terminal and no requested stop is among
them. A finished machine does not change, and a machine that was started is not run again.
-/
namespace WordMachine

/-- The two changes of status. -/
inductive Status.Next : Status → Status → Prop where
  | start : Next new running
  | finish : Next running finished

/-- A status comes to be another by changes one after the other, if by any. -/
abbrev Status.LeadsTo : Status → Status → Prop := Relation.ReflTransGen Next

theorem Status.leadsTo_finished (s : Status) : s.LeadsTo finished := by
  cases s with
  | new => exact .tail (.single .start) .finish
  | running => exact .single .finish
  | finished => exact .refl

namespace Machine

/-- The next step finishes the machine: the causes. -/
inductive Ends (m : Machine) : Prop where
  | halts {i : Instruction} (hfetch : m.fetch = .ok i) (hhalts : i.Halts m.core.stack)
  | runsDry {i : Instruction} (hfetch : m.fetch = .ok i) (hdry : i.RunsDry m.core.input)
  | reachesLimit {limit : UInt64} (hlimit : m.config.maxSteps = some limit)
      (hraised : m.counter < m.step.counter) (hreached : limit.toNat ≤ m.step.counter)

theorem status_counted_iff {p : Machine × Bool}
    (h : p.1.status = if p.2 then .running else .finished) :
    (counted p).status = .finished ↔
      p.2 = false ∨ ∃ limit, p.1.config.maxSteps = some limit ∧ limit.toNat ≤ p.1.counter + 1 := by
  rcases p with ⟨m, _ | _⟩
  · simpa [counted] using h
  · have hrunning : m.status = .running := h
    cases hmax : m.config.maxSteps with
    | none => simp [counted, tick_of_unlimited hmax, hrunning]
    | some limit =>
      simp only [counted, tick_of_limit hmax, hrunning]
      by_cases hreached : limit.toNat ≤ m.counter + 1
      · simp [hreached, finish]
      · simp [hreached]

/-- A step finishes a machine exactly for one of the causes. -/
theorem status_step_iff {m : Machine} (hgoing : m.status ≠ .finished) :
    m.step.status = .finished ↔ m.Ends := by
  have hstatus := m.awake.status_attempt
  rw [status_awake hgoing] at hstatus
  have hcounted := status_counted_iff hstatus
  have hcounter := counter_step hgoing
  have hstep : m.step.status = (counted m.awake.attempt).status := by
    rw [step_eq hgoing]
    rfl
  rw [hstep, hcounted, config_attempt, config_awake, counter_attempt, counter_awake]
  constructor
  · rintro (huncounted | ⟨limit, hlimit, hreached⟩)
    · obtain ⟨i, hfetch, hhalts | hdry⟩ := m.uncounted_awake_iff.1 huncounted
      · exact .halts hfetch hhalts
      · exact .runsDry hfetch hdry
    · cases hattempt : m.awake.attempt.2 with
      | false =>
        obtain ⟨i, hfetch, hhalts | hdry⟩ := m.uncounted_awake_iff.1 hattempt
        · exact .halts hfetch hhalts
        · exact .runsDry hfetch hdry
      | true =>
        rw [if_pos hattempt] at hcounter
        exact .reachesLimit hlimit (by omega) (by omega)
  · rintro (⟨hfetch, hhalts⟩ | ⟨hfetch, hdry⟩ | ⟨hlimit, hraised, hreached⟩)
    · exact .inl (m.uncounted_awake_iff.2 ⟨_, hfetch, .inl hhalts⟩)
    · exact .inl (m.uncounted_awake_iff.2 ⟨_, hfetch, .inr hdry⟩)
    · refine .inr ⟨_, hlimit, ?_⟩
      split at hcounter <;> omega

theorem advance_eq (m : Machine) : m.advance = (m.step.status, m.step) := by
  unfold advance step
  cases hstatus : m.status with
  | new | running => rfl
  | finished => simp [hstatus]

/-! ## Calls -/

theorem leadsTo_step (m : Machine) : m.status.LeadsTo m.step.status := by
  cases hstatus : m.status with
  | new =>
    rcases m.status_step with h | h
    · rw [h]
      exact .single .start
    · rw [h]
      exact Status.leadsTo_finished _
  | running =>
    rcases m.status_step with h | h
    · rw [h]
    · rw [h]
      exact Status.leadsTo_finished _
  | finished => rw [step_of_finished hstatus, hstatus]

/-- Every call moves the status on or leaves it. -/
theorem leadsTo_preserved (s : Status) : Preserved fun m => s.LeadsTo m.status where
  step m h := h.trans m.leadsTo_step
  stop _ _ := s.leadsTo_finished
  conclude _ h := h
  requestStop _ h := h
  poke m address word after h hpoke := by
    rw [poke_eq hpoke]
    exact h
  setInput _ _ h := h
  setTerminal _ _ h := h

theorem calls?_replicate_step {m : Machine} (h : m.status = .finished) (n : Nat) :
    m.calls? (List.replicate n .step) = some m := by
  induction n with
  | zero => rfl
  | succ n ih =>
    rw [List.replicate_succ, calls?, call?, step_of_finished h]
    exact ih

theorem run_of_started {m : Machine} (h : m.status ≠ .new) (bound : Nat) :
    m.run bound = some (.error .alreadyStarted) := if_neg h

/-- **A machine is started once and finishes once.** Whatever calls are made, the status only moves
on. A step tells the status that it leaves, which is never new; it leaves a machine finished for
one of the causes and running otherwise. Steps of a finished machine and runs of a machine that
is not new change nothing. -/
theorem lifecycle (m : Machine) :
    (∀ calls after, m.calls? calls = some after → m.status.LeadsTo after.status) ∧
    (m.advance = (m.step.status, m.step) ∧ m.step.status ≠ .new) ∧
    (m.status ≠ .finished →
      (m.step.status = .finished ↔ m.Ends) ∧ (m.step.status = .running ↔ ¬ m.Ends)) ∧
    (m.status = .finished →
      m.advance = (.finished, m) ∧ ∀ n, m.calls? (List.replicate n .step) = some m) ∧
    (m.status ≠ .new → ∀ bound,
      m.run bound = some (.error .alreadyStarted) ∧ m.call? (.run bound) = some m) := by
  refine ⟨?_, ⟨m.advance_eq, ?_⟩, ?_, ?_, ?_⟩
  · intro calls after hcalls
    exact (leadsTo_preserved m.status).calls .refl hcalls
  · rcases m.status_step with h | h <;> simp [h]
  · intro hgoing
    have hiff := status_step_iff hgoing
    refine ⟨hiff, ?_⟩
    rcases m.status_step with h | h
    · simp [h, ← hiff]
    · simp [h, ← hiff]
  · intro hfinished
    refine ⟨?_, calls?_replicate_step hfinished⟩
    rw [advance_eq, step_of_finished hfinished, hfinished]
  · intro hstarted bound
    have hrun := run_of_started hstarted bound
    refine ⟨hrun, ?_⟩
    rw [call?, hrun]
    rfl

/-- A machine of zeros finds `halt` at once. Its first step finishes it, and then neither steps nor
runs nor a requested stop bring it back. -/
theorem lifecycle_zeros :
    let m := create .default none
    (∃ after, m.calls? [.requestStop, .step, .run 2] = some after ∧
      m.status.LeadsTo after.status) ∧
    m.status ≠ .finished ∧ m.Ends ∧ m.step.status = .finished ∧
    m.step.calls? (List.replicate 3 .step) = some m.step ∧
    m.step.run 2 = some (.error .alreadyStarted) := by
  intro m
  have hgoing : m.status ≠ .finished := by decide
  have hends : m.Ends := .halts (i := ⟨0, .halt, 0, 0, 0⟩) rfl (.inl rfl)
  obtain ⟨hcalls, -, hstep, -, -⟩ := lifecycle m
  have hfinished : m.step.status = .finished := (hstep hgoing).1.2 hends
  obtain ⟨-, -, -, hafter, hrun⟩ := lifecycle m.step
  obtain ⟨after, hlast⟩ : ∃ after, m.calls? [.requestStop, .step, .run 2] = some after := ⟨_, rfl⟩
  exact ⟨⟨after, hlast, hcalls _ _ hlast⟩, hgoing, hends, hfinished, (hafter hfinished).2 3,
    (hrun (by rw [hfinished]; decide) 2).1⟩

end Machine

end WordMachine
