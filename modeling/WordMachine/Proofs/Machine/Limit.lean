import WordMachine.Proofs.Machine.Relabel

/-! # Step limits

A machine with a step limit runs like the same machine without one until the limit cuts it
off. Nothing but `tick` looks at the limit, so a step of the limited machine is a step of the
unlimited one, followed by the cut if the machine still runs and has counted far enough. A
run is a sequence of such steps, and the counter tells how many of them there were.
-/
namespace WordMachine.Machine

/-- The same machine with a step limit. -/
def limited (m : Machine) (n : UInt64) : Machine :=
  { m with config := { m.config with maxSteps := some n } }

theorem limited_eq_relabel (m : Machine) (n : UInt64) :
    m.limited n = m.relabel (fun config => { config with maxSteps := some n }) id := rfl

/-- The machine with the limit, at the moment that it is cut off by it. -/
def cutOff (m : Machine) (n : UInt64) : Machine :=
  ((m.limited n).record (.stepLimit n)).finish.publish

/-! ## One step -/

section Unlimited

variable {m : Machine} (hnone : m.config.maxSteps = none)

include hnone

/-- Counting is where the limit cuts off. -/
theorem tick_limited (n : UInt64) :
    (m.limited n).tick =
      if n.toNat ≤ m.tick.counter ∧ m.tick.status = .running then
        ((m.tick.limited n).record (.stepLimit n)).finish
      else m.tick.limited n := by
  have hlimit : (m.limited n).config.maxSteps = some n := rfl
  rw [tick_of_unlimited hnone, tick_of_limit hlimit]
  rfl

/-- A step of the limited machine is that of the unlimited one, which the limit cuts off if the
machine still runs and has counted far enough. -/
theorem step_limited (n : UInt64) :
    (m.limited n).step =
      if n.toNat ≤ m.step.counter ∧ m.step.status = .running then m.step.cutOff n
      else m.step.limited n := by
  by_cases hfinished : m.status = .finished
  · have hlimited : (m.limited n).status = .finished := hfinished
    rw [step_of_finished hfinished, step_of_finished hlimited, hfinished]
    simp
  · have hlimited : (m.limited n).status ≠ .finished := hfinished
    have hlimit : (m.limited n).awake.attempt =
        (m.awake.attempt.1.limited n, m.awake.attempt.2) := by
      rw [limited_eq_relabel, awake_relabel Log.compatible_id, attempt_relabel Log.compatible_id]
      rfl
    rw [step_eq hlimited, step_eq hfinished, hlimit]
    have hstatus := m.awake.status_attempt
    have hconfig := m.awake.config_attempt
    rcases hrun : m.awake.attempt with ⟨after, _ | _⟩
    · -- an attempt that is not counted has finished the machine by itself
      rw [hrun] at hstatus
      have hnot : ¬(n.toNat ≤ after.counter ∧ after.status = .running) := by
        rintro ⟨-, hrunning⟩
        rw [hrunning] at hstatus
        cases hstatus
      exact (if_neg hnot).symm
    · rw [hrun, config_awake] at hconfig
      have htick := tick_limited (m := after) (by rw [hconfig, hnone]) n
      show (after.limited n).tick.publish =
        if n.toNat ≤ after.tick.counter ∧ after.tick.status = .running then after.tick.cutOff n
        else after.tick.publish.limited n
      rw [htick]
      split <;> rfl

/-! ## Runs -/

/-- Up to the step that reaches the limit the limited machine does what the unlimited one does. -/
theorem steps_limited (n : UInt64) (hcounter : m.counter = 0) {k : Nat} (hk : k < max n.toNat 1) :
    (m.limited n).steps k = (m.steps k).limited n := by
  induction k with
  | zero => rfl
  | succ k ih =>
    have hcurrent : (m.steps k).config.maxSteps = none := by rw [config_steps, hnone]
    have hle := (m.counter_steps (k + 1)).1
    rw [steps_succ_last, ih (by omega), step_limited hcurrent, ← steps_succ_last, if_neg]
    omega

/-- The step that reaches the limit cuts off a machine that would go on. -/
theorem steps_limited_last (n : UInt64) (hcounter : m.counter = 0) :
    (m.limited n).steps (max n.toNat 1) =
      if (m.steps (max n.toNat 1)).status = .running then (m.steps (max n.toNat 1)).cutOff n
      else (m.steps (max n.toNat 1)).limited n := by
  obtain ⟨b, hb⟩ : ∃ b, max n.toNat 1 = b + 1 := ⟨max n.toNat 1 - 1, by omega⟩
  have hcurrent : (m.steps b).config.maxSteps = none := by rw [config_steps, hnone]
  have hcount := (m.counter_steps (b + 1)).2
  rw [hb, steps_succ_last, steps_limited hnone n hcounter (by omega), step_limited hcurrent,
    ← steps_succ_last]
  by_cases hrunning : (m.steps (b + 1)).status = .running
  · have hreached : n.toNat ≤ (m.steps (b + 1)).counter := by
      rw [hcount (by rw [hrunning]; decide)]
      omega
    rw [if_pos ⟨hreached, hrunning⟩, if_pos hrunning]
  · rw [if_neg (fun h => hrunning h.2), if_neg hrunning]

/-- A machine that finishes by itself in time does not notice the limit. -/
theorem steps_limited_of_finished (n : UInt64) (hcounter : m.counter = 0)
    (hfinished : (m.steps (max n.toNat 1)).status = .finished) (k : Nat) :
    (m.limited n).steps k = (m.steps k).limited n := by
  by_cases hk : k < max n.toNat 1
  · exact steps_limited hnone n hcounter hk
  · have hlast := steps_limited_last hnone n hcounter
    rw [if_neg (by rw [hfinished]; decide)] at hlast
    have hlimited : ((m.limited n).steps (max n.toNat 1)).status = .finished := by
      rw [hlast]
      exact hfinished
    rw [steps_of_finished hlimited (by omega), steps_of_finished hfinished (by omega), hlast]

omit hnone in
/-- A run ends within as many steps as bring the machine out of running. -/
theorem runWithin_of_steps {bound : Nat} (hpositive : 0 < bound)
    (hstatus : (m.steps bound).status ≠ .running) : ∃ result, m.runWithin bound = some result := by
  induction bound generalizing m with
  | zero => cases hpositive
  | succ bound ih =>
    rw [steps_succ] at hstatus
    rw [runWithin_succ]
    by_cases hstopped : m.step.status ≠ .running
    · exact ⟨_, if_pos hstopped⟩
    · rw [if_neg hstopped]
      by_cases hrequest : m.step.monitor.stopRequested = true
      · exact ⟨_, if_pos hrequest⟩
      · have hmore : 0 < bound := by
          rcases Nat.eq_zero_or_pos bound with rfl | hmore
          · exact absurd hstatus hstopped
          · exact hmore
        rw [if_neg hrequest]
        exact ih hmore hstatus

/-- Behind the step that reaches the limit the limited machine has finished in any case. -/
theorem status_steps_limited (n : UInt64) (hcounter : m.counter = 0) :
    ((m.limited n).steps (max n.toNat 1)).status = .finished := by
  have hpositive : 0 < max n.toNat 1 := by omega
  rw [steps_limited_last hnone n hcounter]
  rcases m.status_steps hpositive with h | h
  · rw [if_pos h]
    rfl
  · rw [if_neg (by rw [h]; decide)]
    exact h

/-- With a limit the run of a new machine ends, within as many steps. -/
theorem run_limited (n : UInt64) (hnew : m.status = .new) (hcounter : m.counter = 0) :
    ∃ result, (m.limited n).run (max n.toNat 1) = some (.ok result) := by
  have hstarts : (m.limited n).status = .new := hnew
  have hfinished := status_steps_limited hnone n hcounter
  have hpositive : 0 < max n.toNat 1 := by omega
  obtain ⟨last, hlast⟩ := runWithin_of_steps hpositive (by rw [hfinished]; decide)
  refine ⟨last.conclude, ?_⟩
  rw [run, if_pos hstarts, hlast]
  rfl

/-- What a machine cut off by its step limit shares with the one that goes on, and what it does
not. -/
structure IsCutOff (n : UInt64) (going stopped : Machine) : Prop where
  store : stopped.core.store = going.core.store
  stack : stopped.core.stack = going.core.stack
  input : stopped.core.input = going.core.input
  pc : stopped.pc = going.pc
  counter : stopped.counter = going.counter
  lastInstruction : stopped.lastInstruction = going.lastInstruction
  terminal : stopped.terminal = going.terminal
  status : stopped.status = .finished
  errorCount : stopped.errorCount = going.errorCount + 1
  lastFault : stopped.lastFault = some (.stepLimit n)

omit hnone in
theorem isCutOff_cutOff (n : UInt64) : IsCutOff n m (m.cutOff n) :=
  ⟨rfl, rfl, rfl, rfl, rfl, rfl, rfl, rfl, rfl, rfl⟩

end Unlimited

/-- **A step limit only cuts the run short.** Take a new machine, which has counted nothing yet
(`counter_of_new`). Before the step that reaches the limit it agrees with the limited one but for
the limit. After that step the limited machine has either been cut off for good, while the other
still runs, or both have finished in the same way. So the limited machine counts no further than
its limit, and a run of it ends within as many steps. -/
theorem steps_truncated {m : Machine} (n : UInt64) (hnew : m.status = .new)
    (hcounter : m.counter = 0) (hnone : m.config.maxSteps = none) :
    (∀ k < max n.toNat 1, (m.limited n).steps k = (m.steps k).limited n) ∧
    ((m.steps (max n.toNat 1)).status = .running ∧
        ((m.limited n).steps (max n.toNat 1)).counter = max n.toNat 1 ∧
        IsCutOff n (m.steps (max n.toNat 1)) ((m.limited n).steps (max n.toNat 1)) ∧
        (∀ k ≥ max n.toNat 1, (m.limited n).steps k = (m.limited n).steps (max n.toNat 1)) ∨
      (m.steps (max n.toNat 1)).status = .finished ∧
        ∀ k, (m.limited n).steps k = (m.steps k).limited n) ∧
    (∀ k, ((m.limited n).steps k).counter ≤ max n.toNat 1) ∧
    ∃ result, (m.limited n).run (max n.toNat 1) = some (.ok result) := by
  have hpositive : 0 < max n.toNat 1 := by omega
  have hbefore : ∀ k < max n.toNat 1, (m.limited n).steps k = (m.steps k).limited n :=
    fun k hk => steps_limited hnone n hcounter hk
  have hlast := steps_limited_last hnone n hcounter
  have hcount := m.counter_steps (max n.toNat 1)
  have hstatus := status_steps_limited hnone n hcounter
  have hafter : ∀ k ≥ max n.toNat 1,
      (m.limited n).steps k = (m.limited n).steps (max n.toNat 1) :=
    fun k hk => steps_of_finished hstatus hk
  have hlastCounter : ((m.limited n).steps (max n.toNat 1)).counter =
      (m.steps (max n.toNat 1)).counter := by
    rw [hlast]
    split <;> rfl
  refine ⟨hbefore, ?_, ?_, run_limited hnone n hnew hcounter⟩
  · rcases m.status_steps hpositive with hrunning | hfinished
    · refine .inl ⟨hrunning, ?_, ?_, hafter⟩
      · rw [hlastCounter, hcount.2 (by rw [hrunning]; decide), hcounter, Nat.zero_add]
      · rw [hlast, if_pos hrunning]
        exact isCutOff_cutOff n
    · exact .inr ⟨hfinished, steps_limited_of_finished hnone n hcounter hfinished⟩
  · intro k
    by_cases hk : k < max n.toNat 1
    · rw [hbefore k hk]
      have hle : (m.steps k).counter ≤ m.counter + k := (m.counter_steps k).1
      show (m.steps k).counter ≤ max n.toNat 1
      omega
    · rw [hafter k (by omega), hlastCounter]
      omega

/-- A new machine whose memory is full of `noop`. -/
def idle : Machine :=
  let blank := create .default none
  { blank with core := { blank.core with store := ⟨⟨.replicate ramSize 21⟩, .zeros⟩ } }

/-- The idle machine still runs after three steps, and a limit of three steps cuts it off there. -/
theorem steps_truncated_idle :
    (idle.status = .new ∧ idle.counter = 0 ∧ idle.config.maxSteps = none) ∧
      (idle.steps 3).status = .running ∧
      IsCutOff 3 (idle.steps 3) ((idle.limited 3).steps 3) ∧
      ∃ result, (idle.limited 3).run 3 = some (.ok result) := by
  have hrunning : (idle.steps 3).status = .running := by decide
  have hbound : max (3 : UInt64).toNat 1 = 3 := rfl
  have htruncated := steps_truncated (m := idle) 3 rfl rfl rfl
  rw [hbound] at htruncated
  obtain ⟨-, ⟨-, -, hcut, -⟩ | ⟨hfinished, -⟩, -, hrun⟩ := htruncated
  · exact ⟨⟨rfl, rfl, rfl⟩, hrunning, hcut, hrun⟩
  · cases hrunning.symm.trans hfinished

end WordMachine.Machine
