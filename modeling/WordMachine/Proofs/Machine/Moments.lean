import WordMachine.Proofs.Machine.Commit

/-! # The moments of calls

Calls come down to steps. The moments of calls are the machines that these steps find, one after the
other, and those that the steps of a run find are among them. Whatever a machine keeps throughout
calls, it has at all of their moments. And what calls record is what the steps at these moments
record, since nothing else that is asked of a machine records a fault.
-/
namespace WordMachine.Machine

/-- The machines that the steps of a run find, one after the other. -/
def runMoments (m : Machine) : Nat → List Machine
  | 0 => []
  | bound + 1 =>
    if m.step.status ≠ .running then [m]
    else if m.step.monitor.stopRequested then [m]
    else m :: m.step.runMoments bound

/-- The machines that the steps of a call find. -/
def momentsOf (m : Machine) : Call → List Machine
  | .step => [m]
  | .run bound => if m.status = .new then m.runMoments bound else []
  | _ => []

/-- The machines that the steps of calls find, one after the other. -/
def moments (m : Machine) : List Call → List Machine
  | [] => []
  | call :: rest => m.momentsOf call ++ (m.call? call).elim [] fun after => after.moments rest

namespace Preserved

variable {P : Machine → Prop} (hP : Preserved P)

include hP

theorem runMoments {m : Machine} (hm : P m) (bound : Nat) :
    ∀ moment ∈ m.runMoments bound, P moment := by
  induction bound generalizing m with
  | zero => simp [Machine.runMoments]
  | succ bound ih =>
    rw [Machine.runMoments]
    split
    · simpa using hm
    · split
      · simpa using hm
      · intro moment hmoment
        rcases List.mem_cons.1 hmoment with rfl | hlater
        · exact hm
        · exact ih (hP.step m hm) moment hlater

theorem momentsOf {m : Machine} (hm : P m) (call : Call) :
    ∀ moment ∈ m.momentsOf call, P moment := by
  cases call with
  | step => simpa [Machine.momentsOf] using hm
  | run bound =>
    rw [Machine.momentsOf]
    split
    · exact hP.runMoments hm bound
    · simp
  | _ => simp [Machine.momentsOf]

/-- What calls preserve holds at each of their moments. -/
theorem moments {m : Machine} (hm : P m) (calls : List Call) :
    ∀ moment ∈ m.moments calls, P moment := by
  induction calls generalizing m with
  | nil => simp [Machine.moments]
  | cons call rest ih =>
    intro moment hmoment
    rw [Machine.moments] at hmoment
    rcases List.mem_append.1 hmoment with hnow | hlater
    · exact hP.momentsOf hm call moment hnow
    · cases hcall : m.call? call with
      | none => simp [hcall] at hlater
      | some after =>
        rw [hcall] at hlater
        exact ih (hP.call hm hcall) moment hlater

end Preserved

/-! ## What is recorded at a moment -/

/-- The faults that the next step records: those of the instruction, or of the word that selects
none, and that of the step limit if the step is counted and reaches it. -/
def stepFaults (m : Machine) : List Fault :=
  if m.status = .finished then []
  else
    match m.fetch with
    | .ok i => m.faultsOf i (m.outcome i).1 ++ if counts (m.outcome i).1 then m.limitFaults else []
    | .error fault => .located (decodingPlace m.pc) fault :: m.limitFaults

theorem stepFaults_of_ok {m : Machine} (hgoing : m.status ≠ .finished) {i : Instruction}
    (hfetch : m.fetch = .ok i) :
    m.stepFaults =
      m.faultsOf i (m.outcome i).1 ++ if counts (m.outcome i).1 then m.limitFaults else [] := by
  rw [stepFaults, if_neg hgoing, hfetch]

theorem stepFaults_of_error {m : Machine} (hgoing : m.status ≠ .finished) {fault : Fault}
    (hfetch : m.fetch = .error fault) :
    m.stepFaults = .located (decodingPlace m.pc) fault :: m.limitFaults := by
  rw [stepFaults, if_neg hgoing, hfetch]

/-- What the step limit adds is its own fault and no other. -/
theorem mem_limitFaults {m : Machine} {fault : Fault} :
    fault ∈ m.limitFaults ↔
      ∃ limit, m.config.maxSteps = some limit ∧ limit.toNat ≤ m.counter + 1 ∧
        fault = .stepLimit limit := by
  unfold limitFaults
  cases hmax : m.config.maxSteps with
  | none => simp
  | some limit => by_cases hreached : limit.toNat ≤ m.counter + 1 <;> simp [hreached]

theorem recorded_step (m : Machine) : m.Recorded m.stepFaults m.step := by
  by_cases hfinished : m.status = .finished
  · rw [step_of_finished hfinished, stepFaults, if_pos hfinished]
    exact .nothing rfl rfl rfl [] (by simp) rfl
  · cases hfetch : m.fetch with
    | error fault =>
      rw [stepFaults_of_error hfinished hfetch]
      exact (step_of_error hfinished hfetch).2.recorded
    | ok i =>
      rw [stepFaults_of_ok hfinished hfetch]
      exact (step_of_ok hfinished hfetch).2.recorded

/-! ## What calls record -/

theorem recorded_refl (m : Machine) : m.Recorded [] m := .nothing rfl rfl rfl [] (by simp) rfl

theorem recorded_stop (m : Machine) : m.Recorded [] m.stop :=
  .nothing rfl rfl rfl [.stopped m.pc m.counter] (by simp [Event.fault?]) rfl

theorem recorded_conclude (m : Machine) : m.Recorded [] m.conclude :=
  .nothing rfl rfl rfl [.finished m.pc m.counter m.errorCount] (by simp [Event.fault?]) rfl

/-- A store from outside records nothing, also if it is refused. -/
theorem recorded_poke {m after : Machine} {address word : Word}
    (h : m.call? (.poke address word) = some after) : m.Recorded [] after := by
  rw [call?] at h
  cases hpoke : m.poke address word with
  | error fault =>
    rw [hpoke] at h
    obtain rfl := Option.some.inj h
    exact m.recorded_refl
  | ok poked =>
    rw [hpoke] at h
    obtain rfl := Option.some.inj h
    obtain ⟨events, hevents, hlog⟩ := Action.TellsAccesses.write address word m.core
    rw [poke_eq hpoke]
    exact .nothing rfl rfl rfl events (fun event hevent => (hevents event hevent).fault?) hlog

theorem recorded_runWithin {m last : Machine} {bound : Nat} (h : m.runWithin bound = some last) :
    m.Recorded ((m.runMoments bound).flatMap stepFaults) last := by
  induction bound generalizing m with
  | zero => cases h
  | succ bound ih =>
    have hstep : m.Recorded ([m].flatMap stepFaults) m.step := by
      simpa using m.recorded_step
    rw [runWithin_succ] at h
    rw [runMoments]
    split at h
    · obtain rfl := Option.some.inj h
      rwa [if_pos ‹_›]
    · rw [if_neg ‹_›]
      split at h
      · obtain rfl := Option.some.inj h
        rw [if_pos ‹_›, ← List.append_nil (List.flatMap _ _)]
        exact hstep.trans m.step.recorded_stop
      · rw [if_neg ‹_›, List.flatMap_cons]
        exact m.recorded_step.trans (ih h)

/-- A run records what its steps record. One that is refused takes no steps. -/
theorem recorded_run {m after : Machine} {bound : Nat} (h : m.call? (.run bound) = some after) :
    m.Recorded ((m.momentsOf (.run bound)).flatMap stepFaults) after := by
  rw [call?_run] at h
  rw [momentsOf]
  split at h
  · obtain ⟨last, hlast, rfl⟩ := Option.map_eq_some_iff.1 h
    rw [if_pos ‹_›, ← List.append_nil (List.flatMap _ _)]
    exact (recorded_runWithin hlast).trans last.recorded_conclude
  · obtain rfl := Option.some.inj h
    rw [if_neg ‹_›]
    exact m.recorded_refl

theorem recorded_call {m after : Machine} {call : Call} (h : m.call? call = some after) :
    m.Recorded ((m.momentsOf call).flatMap stepFaults) after := by
  cases call with
  | step =>
    obtain rfl := Option.some.inj h
    simpa [momentsOf] using m.recorded_step
  | run bound => exact recorded_run h
  | poke address word => exact recorded_poke h
  | requestStop | setInput input | setTerminal device =>
    obtain rfl := Option.some.inj h
    exact .nothing rfl rfl rfl [] (by simp) rfl

/-- Calls record what the steps at their moments record, one after the other. -/
theorem recorded_calls {m after : Machine} {calls : List Call} (h : m.calls? calls = some after) :
    m.Recorded ((m.moments calls).flatMap stepFaults) after := by
  induction calls generalizing m with
  | nil =>
    obtain rfl := Option.some.inj h
    exact m.recorded_refl
  | cons call rest ih =>
    obtain ⟨between, hcall, hrest⟩ := Option.bind_eq_some_iff.1 h
    rw [moments, hcall, List.flatMap_append]
    exact (recorded_call hcall).trans (ih hrest)

end WordMachine.Machine
