import WordMachine.Proofs.Machine.Calls
import WordMachine.Proofs.Machine.Record

/-! # Observation has no influence

Terminals, pacing and the length of the stack that snapshots show are for those who watch a
machine. Two machines that differ in nothing else stay in lockstep whatever is asked of both. What
may tell them apart are faults of their terminals, and these are recorded and looked at by nobody.
-/
namespace WordMachine

/-! ## Recorded faults -/

/-- The fault is a failure of the terminal. -/
def Fault.isTerminal : Fault → Bool
  | .terminal _ => true
  | _ => false

namespace Log

/-- The recorded faults but for failures of the terminal. -/
def ownFaults (log : Log) : List Fault := log.faults.filter fun fault => !fault.isTerminal

/-- Both logs keep everything, and they have kept the same faults but for failures of the
terminal. -/
structure Akin (first second : Log) : Prop where
  complete : first.threshold = some .trace ∧ second.threshold = some .trace
  ownFaults : first.ownFaults = second.ownFaults

namespace Akin

variable {first second : Log}

theorem symm (h : first.Akin second) : second.Akin first := ⟨h.complete.symm, h.ownFaults.symm⟩

/-- Events that tell of no fault, or only of a failure of the terminal, go unnoticed. -/
theorem add_left (h : first.Akin second) {event : Event}
    (hevent : ∀ fault, event.fault? = some fault → fault.isTerminal = true) :
    (first.add event).Akin second := by
  obtain ⟨hfirst, hsecond⟩ := h.complete
  refine ⟨⟨by rw [threshold_add, hfirst], hsecond⟩, ?_⟩
  rw [← h.ownFaults, Log.ownFaults, faults_add (by simp [hfirst]), List.filter_append]
  cases hfault : event.fault? with
  | none => simp [Log.ownFaults]
  | some fault => simp [Log.ownFaults, hevent fault hfault]

theorem add (h : first.Akin second) {event other : Event} (hevent : event.fault? = other.fault?) :
    (first.add event).Akin (second.add other) := by
  obtain ⟨hfirst, hsecond⟩ := h.complete
  have hsame : first.faults.filter (fun fault => !fault.isTerminal) =
      second.faults.filter fun fault => !fault.isTerminal := h.ownFaults
  refine ⟨⟨by rw [threshold_add, hfirst], by rw [threshold_add, hsecond]⟩, ?_⟩
  rw [Log.ownFaults, Log.ownFaults, faults_add (by simp [hfirst]), faults_add (by simp [hsecond]),
    hevent, List.filter_append, List.filter_append, hsame]

theorem foldl_left {events : List Event} (h : first.Akin second)
    (hevents : ∀ event ∈ events, event.IsAccess) : (events.foldl Log.add first).Akin second := by
  induction events generalizing first with
  | nil => exact h
  | cons event rest ih =>
    have haccess : event.IsAccess := hevents event (by simp)
    refine ih (h.add_left ?_) fun later hlater => hevents later (by simp [hlater])
    intro fault hfault
    rw [haccess.fault?] at hfault
    cases hfault

end Akin

end Log

namespace Action

variable {α : Type} {x : Action α}

/-- What tells of accesses only keeps logs akin. -/
theorem TellsAccesses.akin (hx : TellsAccesses x) {first second : Core}
    (h : first.log.Akin second.log) : (x.run first).2.log.Akin (x.run second).2.log := by
  obtain ⟨events, hevents, hlog⟩ := hx first
  obtain ⟨others, hothers, hother⟩ := hx second
  rw [hlog, hother]
  exact ((h.foldl_left hevents).symm.foldl_left hothers).symm

end Action

namespace Machine

/-! ## Machines in lockstep -/

/-- The machines differ at most in what is for observation: in terminal, pacing, length of the
stack shown, published snapshot, log, and in what they keep of recorded faults. -/
structure Alike (first second : Machine) : Prop where
  core : first.core.Alike second.core
  pc : first.pc = second.pc
  status : first.status = second.status
  counter : first.counter = second.counter
  lastInstruction : first.lastInstruction = second.lastInstruction
  maxSteps : first.config.maxSteps = second.config.maxSteps
  stopRequested : first.monitor.stopRequested = second.monitor.stopRequested

/-- The machines are alike and have recorded the same faults but for failures of the terminal. -/
structure Twins (first second : Machine) : Prop extends Alike first second where
  log : first.core.log.Akin second.core.log

theorem Alike.symm {first second : Machine} (h : first.Alike second) : second.Alike first :=
  ⟨h.core.symm, h.pc.symm, h.status.symm, h.counter.symm, h.lastInstruction.symm,
    h.maxSteps.symm, h.stopRequested.symm⟩

theorem Twins.symm {first second : Machine} (h : first.Twins second) : second.Twins first :=
  ⟨h.toAlike.symm, h.log.symm⟩

/-- Attempts that left twins and are both counted or both not. -/
def Together (first second : Machine × Bool) : Prop :=
  first.1.Twins second.1 ∧ first.2 = second.2

namespace Twins

variable {first second : Machine} (h : first.Twins second)

include h

theorem report (event other : Event) (hevent : event.fault? = other.fault?) :
    (first.report event).Twins (second.report other) :=
  { h with core := ⟨h.core.store, h.core.stack, h.core.input⟩, log := h.log.add hevent }

theorem record (fault : Fault) : (first.record fault).Twins (second.record fault) := by
  have hreport := h.report (.recorded fault first.pc first.counter)
    (.recorded fault second.pc second.counter) rfl
  exact { hreport with core := hreport.core }

theorem record_terminal_left (reason : String) : (first.record (.terminal reason)).Twins second := by
  refine { h with core := ⟨h.core.store, h.core.stack, h.core.input⟩, log := h.log.add_left ?_ }
  intro fault hfault
  obtain rfl := Option.some.inj hfault
  rfl

theorem withTerminal_left (terminal : Terminal) :
    ({ first with terminal } : Machine).Twins second := { h with core := h.core }

/-- Whatever is written, and whatever becomes of it, the machines stay twins. -/
theorem emit_left (data : List UInt8) : (first.emit data).Twins second := by
  obtain ⟨terminal, hemit | ⟨reason, hemit⟩⟩ := first.emit_cases data
  · rw [hemit]
    exact h.withTerminal_left terminal
  · rw [hemit]
    exact (h.withTerminal_left terminal).record_terminal_left reason

theorem emit (data others : List UInt8) : (first.emit data).Twins (second.emit others) :=
  ((h.emit_left data).symm.emit_left others).symm

theorem finish : first.finish.Twins second.finish := { h with status := rfl }

theorem publish : first.publish.Twins second.publish :=
  { h with stopRequested := h.stopRequested }

theorem settle (i : Instruction) {result other : Except Fault Effect} (hresult : result = other) :
    Together (first.settle i result) (second.settle i other) := by
  subst hresult
  cases result with
  | ok effect =>
    cases effect with
    | proceed => exact ⟨h, rfl⟩
    | jump target => exact ⟨{ h with pc := rfl }, rfl⟩
    | output byte => exact ⟨h.emit [byte] [byte], rfl⟩
    | halt => exact ⟨(h.emit _ _).finish, rfl⟩
  | error fault =>
    cases fault with
    | inputExhausted => exact ⟨((h.report _ _ rfl).record _).finish, rfl⟩
    | _ => exact ⟨h.record _, rfl⟩

/-- An action answers both machines the same and leaves them twins. -/
theorem act {α : Type} {x : Action α} (hignores : x.IgnoresLog) (htells : x.TellsAccesses) :
    (x.run first.core).1 = (x.run second.core).1 ∧
      ({ first with core := (x.run first.core).2 } : Machine).Twins
        { second with core := (x.run second.core).2 } := by
  obtain ⟨hanswer, hcore⟩ := hignores.alike h.core
  exact ⟨hanswer, { h with core := hcore, log := htells.akin h.log }⟩

theorem fetched (i : Instruction) : (first.fetched i).Twins (second.fetched i) := by
  have hmoved : ({ first with pc := Instruction.addressAfter i.address i.length } : Machine).Twins
      { second with pc := Instruction.addressAfter i.address i.length } := { h with pc := rfl }
  exact hmoved.report _ _ rfl

theorem executed (i : Instruction) : Together (first.executed i) (second.executed i) := by
  obtain ⟨hanswer, hacted⟩ := (h.fetched i).act
    (Action.IgnoresLog.compositional.execute i (first.fetched i).pc)
    (Action.TellsAccesses.compositional.execute i (first.fetched i).pc)
  have hexecuted : ({ first.fetched i with
        core := ((i.execute (first.fetched i).pc).run (first.fetched i).core).2
        lastInstruction := some i } : Machine).Twins
      { second.fetched i with
        core := ((i.execute (first.fetched i).pc).run (second.fetched i).core).2
        lastInstruction := some i } := { hacted with lastInstruction := rfl }
  exact hexecuted.settle i hanswer

theorem attempt : Together first.attempt second.attempt := by
  have hdecode := Instruction.observes_decode first.pc
  obtain ⟨hanswer, hacted⟩ := h.act (.of_observes hdecode) (.of_observes hdecode)
  unfold Machine.attempt
  rw [← h.pc]
  rcases hfirst : (Instruction.decode Action.read first.pc).run first.core with ⟨answer, core⟩
  rcases hsecond : (Instruction.decode Action.read first.pc).run second.core with ⟨other, coreOther⟩
  rw [hfirst, hsecond] at hanswer hacted
  obtain rfl : answer = other := hanswer
  cases answer with
  | ok i => exact hacted.executed i
  | error fault =>
    have hskipped : ({ first with core, pc := Instruction.addressAfter first.pc 1 } : Machine).Twins
        { second with core := coreOther, pc := Instruction.addressAfter first.pc 1 } :=
      { hacted with pc := rfl }
    exact ⟨hskipped.record _, rfl⟩

theorem awake : first.awake.Twins second.awake := by
  unfold Machine.awake
  rw [h.status]
  split
  · have hrunning : ({ first with status := .running } : Machine).Twins
        { second with status := .running } := { h with status := rfl }
    exact hrunning.report _ _ rfl
  · exact h

theorem tick : first.tick.Twins second.tick := by
  have hcounted : ({ first with counter := first.counter + 1 } : Machine).Twins
      { second with counter := second.counter + 1 } :=
    { h with counter := congrArg (· + 1) h.counter }
  have hmax := h.maxSteps
  cases hlimit : first.config.maxSteps with
  | none =>
    rw [tick_of_unlimited hlimit, tick_of_unlimited (hmax.symm.trans hlimit)]
    exact hcounted
  | some limit =>
    have hreached : limit.toNat ≤ first.counter + 1 ∧ first.status = .running ↔
        limit.toNat ≤ second.counter + 1 ∧ second.status = .running := by
      rw [h.counter, h.status]
    rw [tick_of_limit hlimit, tick_of_limit (hmax.symm.trans hlimit)]
    simp only [hreached]
    split
    · exact (hcounted.record _).finish
    · exact hcounted

omit h in
theorem counted {attempt other : Machine × Bool} (h : Together attempt other) :
    (counted attempt).Twins (counted other) := by
  obtain ⟨after, counts⟩ := attempt
  obtain ⟨otherAfter, otherCounts⟩ := other
  obtain ⟨htwins, rfl⟩ : after.Twins otherAfter ∧ counts = otherCounts := h
  cases counts with
  | true => exact htwins.tick
  | false => exact htwins

theorem step : first.step.Twins second.step := by
  by_cases hfinished : first.status = .finished
  · rw [step_of_finished hfinished, step_of_finished (h.status.symm.trans hfinished)]
    exact h
  · rw [step_eq hfinished, step_eq (h.status ▸ hfinished)]
    exact (counted h.awake.attempt).publish

theorem conclude : first.conclude.Twins second.conclude := h.publish.report _ _ rfl

theorem stop : first.stop.Twins second.stop :=
  (h.report (.stopped first.pc first.counter) (.stopped second.pc second.counter) rfl).finish

theorem poke (address word : Word) :
    Option.Rel Twins (first.call? (.poke address word)) (second.call? (.poke address word)) := by
  obtain ⟨hanswer, hacted⟩ := h.act (.write address word) (.write address word)
  rcases hfirst : (Action.write address word).run first.core with ⟨answer, core⟩
  rcases hsecond : (Action.write address word).run second.core with ⟨other, coreOther⟩
  rw [hfirst, hsecond] at hanswer hacted
  obtain rfl : answer = other := hanswer
  simp only [call?, Machine.poke, hfirst, hsecond]
  cases answer with
  | ok done => exact .some hacted
  | error fault => exact .some h

omit h in
theorem lockstep : Lockstep Twins where
  status h := h.status
  stopRequested h := h.stopRequested
  step h := h.step
  stop h := h.stop
  conclude h := h.conclude
  requestStop h := { h with stopRequested := rfl }
  poke address word h := h.poke address word
  setInput _ h := { h with core := ⟨h.core.store, h.core.stack, rfl⟩ }
  setTerminal _ h := { h with core := h.core }

/-- Calls keep twins in lockstep. -/
theorem calls (calls : List Call) : Option.Rel Twins (first.calls? calls) (second.calls? calls) :=
  lockstep.calls h calls

end Twins

/-! ## Logs that keep less

Twins keep all events. Machines with other logs run like the twins that their traced versions
are. -/

namespace Alike

variable {first second : Machine}

theorem of_mute_eq (h : first.mute = second.mute) : first.Alike second where
  core := ⟨congrArg (·.core.store) h, congrArg (·.core.stack) h, congrArg (·.core.input) h⟩
  pc := congrArg (·.pc) h
  status := congrArg (·.status) h
  counter := congrArg (·.counter) h
  lastInstruction := congrArg (·.lastInstruction) h
  maxSteps := congrArg (·.config.maxSteps) h
  stopRequested := congrArg (·.monitor.stopRequested) h

theorem trans {third : Machine} (h : first.Alike second) (h' : second.Alike third) :
    first.Alike third where
  core := h.core.trans h'.core
  pc := h.pc.trans h'.pc
  status := h.status.trans h'.status
  counter := h.counter.trans h'.counter
  lastInstruction := h.lastInstruction.trans h'.lastInstruction
  maxSteps := h.maxSteps.trans h'.maxSteps
  stopRequested := h.stopRequested.trans h'.stopRequested

theorem traced (h : first.Alike second) : first.traced.Twins second.traced :=
  { h with core := ⟨h.core.store, h.core.stack, h.core.input⟩, log := ⟨⟨rfl, rfl⟩, rfl⟩ }

/-- Calls keep machines that are alike in lockstep. -/
theorem calls (h : first.Alike second) (calls : List Call) :
    Option.Rel Alike (first.calls? calls) (second.calls? calls) := by
  have htwins := h.traced.calls calls
  have hfirst := first.calls?_traced_mute calls
  have hsecond := second.calls?_traced_mute calls
  generalize first.traced.calls? calls = last, second.traced.calls? calls = lastOther
    at htwins hfirst hsecond
  cases htwins with
  | none =>
    rw [Option.map_none, eq_comm, Option.map_eq_none_iff] at hfirst hsecond
    rw [hfirst, hsecond]
    exact .none
  | some hlast =>
    rw [Option.map_some, eq_comm, Option.map_eq_some_iff] at hfirst hsecond
    obtain ⟨after, hafter, hmute⟩ := hfirst
    obtain ⟨other, hother, hmuteOther⟩ := hsecond
    rw [hafter, hother]
    exact .some (((of_mute_eq hmute).trans hlast.toAlike).trans (of_mute_eq hmuteOther.symm))

theorem step (h : first.Alike second) : first.step.Alike second.step := by
  cases h.calls [.step] with
  | some hstep => exact hstep

theorem steps (h : first.Alike second) (n : Nat) : (first.steps n).Alike (second.steps n) := by
  induction n with
  | zero => exact h
  | succ n ih =>
    rw [steps_succ_last, steps_succ_last]
    exact ih.step

end Alike

/-! ## What is observed -/

/-- The faults that the calls record, but for failures of the terminal. There are none to tell of if
a run among the calls does not finish. -/
def ownFaultsDuring (m : Machine) (calls : List Call) : Option (List Fault) :=
  (m.traced.calls? calls).map fun after => after.core.log.ownFaults

/-- Snapshots of the machines differ at most in how much of the stack they show and in what they tell
of errors, and they show the same stack, the newest entry first. -/
structure ShownAlike (first second : Machine) : Prop where
  snapshot : second.snapshot = { first.snapshot with
    stackHead := second.snapshot.stackHead
    errorCount := second.snapshot.errorCount
    lastError := second.snapshot.lastError }
  first_head : first.snapshot.stackHead <+: first.core.stack.toList.reverse
  second_head : second.snapshot.stackHead <+: first.core.stack.toList.reverse

theorem stackHead_snapshot (m : Machine) :
    m.snapshot.stackHead <+: m.core.stack.toList.reverse := by
  show m.core.stack.head _ <+: _
  rw [Stack.head_eq_take]
  exact List.take_prefix _ _

theorem Alike.shown {first second : Machine} (h : first.Alike second) :
    first.ShownAlike second where
  snapshot := by simp only [snapshot, h.status, h.pc, h.core.store, h.core.stack, h.counter]
  first_head := first.stackHead_snapshot
  second_head := by
    rw [h.core.stack]
    exact second.stackHead_snapshot

/-- **Observation has no influence.** Let two machines differ in what is for observation only, which
includes terminals that fail at any time in any way. Whatever is asked of both, a run of one
finishes within a bound if the run of the other does. What they are left with differs again in
nothing else, and the faults they have recorded are the same but for those of their terminals. -/
theorem calls_alike {first second : Machine} (h : first.Alike second) (calls : List Call) :
    Option.Rel (fun after other => after.Alike other ∧ after.ShownAlike other)
      (first.calls? calls) (second.calls? calls) ∧
    first.ownFaultsDuring calls = second.ownFaultsDuring calls := by
  constructor
  · have hcalls := h.calls calls
    generalize first.calls? calls = after, second.calls? calls = other at hcalls ⊢
    cases hcalls with
    | none => exact .none
    | some hafter => exact .some ⟨hafter, hafter.shown⟩
  · have htwins := h.traced.calls calls
    unfold ownFaultsDuring
    generalize first.traced.calls? calls = last, second.traced.calls? calls = lastOther at htwins ⊢
    cases htwins with
    | none => rfl
    | some hlast => exact congrArg some hlast.log.ownFaults

/-- Two machines of zeros halt at once. One of them fails to say so, which it records as its only
fault, and nothing else tells it from the other. -/
theorem calls_alike_zeros :
    let first := create .default none
    let second : Machine := { create ⟨0, 3, none⟩ none with
      terminal := ⟨true, ⟨[.failure "closed"], []⟩, .empty⟩ }
    first.Alike second ∧
    ∃ after other, first.calls? [.run 1] = some after ∧ second.calls? [.run 1] = some other ∧
      after.errorCount = 0 ∧ other.errorCount = 1 ∧ after.Alike other ∧ after.ShownAlike other ∧
      first.ownFaultsDuring [.run 1] = second.ownFaultsDuring [.run 1] := by
  intro first second
  have halike : first.Alike second := ⟨⟨rfl, rfl, rfl⟩, rfl, rfl, rfl, rfl, rfl, rfl⟩
  obtain ⟨hcalls, hfaults⟩ := calls_alike halike [.run 1]
  have hfirst : (first.calls? [.run 1]).map errorCount = some 0 := by decide +kernel
  have hsecond : (second.calls? [.run 1]).map errorCount = some 1 := by decide +kernel
  obtain ⟨after, hafter, hnone⟩ := Option.map_eq_some_iff.1 hfirst
  obtain ⟨other, hother, hone⟩ := Option.map_eq_some_iff.1 hsecond
  rw [hafter, hother, Option.rel_some_some] at hcalls
  exact ⟨halike, after, other, hafter, hother, hnone, hone, hcalls.1, hcalls.2, hfaults⟩

end Machine

end WordMachine
