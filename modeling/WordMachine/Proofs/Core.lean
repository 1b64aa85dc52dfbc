import WordMachine.Core
import WordMachine.Proofs.Store

/-! # Actions that only look

Much of what an instruction does is looking: it reads words and leaves nothing behind but
the reads in the log. `Observes` says so of an action and names the function of the store that
gives its answer. The log itself is looked at by nobody: an action that `IgnoresLog` does the
same whatever the log has kept and will keep. What actions add to it are reads and writes:
`TellsAccesses`.
-/
namespace WordMachine

/-- Steps of which one fails do not succeed together. -/
theorem bind_eq_ok {ε α β : Type} {x : Except ε α} {f : α → Except ε β} {b : β}
    (h : x >>= f = .ok b) : ∃ a, x = .ok a ∧ f a = .ok b := by
  cases x with
  | error failure => cases h
  | ok a => exact ⟨a, rfl, h⟩

/-- Whether an event tells of a read. -/
def Event.IsRead : Event → Prop
  | .read .. => True
  | _ => False

/-- Whether an event tells of a read or of a write. -/
def Event.IsAccess : Event → Prop
  | .read .. | .write .. => True
  | _ => False

theorem Event.IsRead.isAccess {event : Event} (h : event.IsRead) : event.IsAccess := by
  cases event with
  | read address target => trivial
  | _ => exact h.elim

namespace Log

theorem threshold_add (log : Log) (event : Event) : (log.add event).threshold = log.threshold := by
  unfold add
  split <;> rfl

/-- A log that keeps everything keeps an event. -/
theorem newest_add {log : Log} (h : log.threshold = some .trace) (event : Event) :
    (log.add event).newest = event :: log.newest := by
  have hkeeps : log.keeps event.level = true := by
    rw [keeps, h]
    cases event.level <;> rfl
  rw [add, if_pos hkeeps]

end Log

/-- A change of logs after which events are kept or dropped as before it. -/
def Log.Compatible (change : Log → Log) : Prop :=
  ∀ log event, change (log.add event) = (change log).add event

theorem Log.compatible_id : Log.Compatible id := fun _ _ => rfl

theorem Log.compatible_none : Log.Compatible fun _ => .empty none := fun _ _ => rfl

namespace Core

/-- Adds events to the log, the first of them first. -/
def reportAll (core : Core) (events : List Event) : Core := events.foldl report core

theorem reportAll_append (core : Core) (first second : List Event) :
    core.reportAll (first ++ second) = (core.reportAll first).reportAll second :=
  List.foldl_append

/-- Nothing but the log is touched. -/
theorem reportAll_eq (core : Core) (events : List Event) :
    core.reportAll events = { core with log := events.foldl Log.add core.log } := by
  induction events generalizing core with
  | nil => rfl
  | cons event rest ih => exact ih (core.report event)

@[simp] theorem store_reportAll (core : Core) (events : List Event) :
    (core.reportAll events).store = core.store := by
  rw [reportAll_eq]

@[simp] theorem stack_reportAll (core : Core) (events : List Event) :
    (core.reportAll events).stack = core.stack := by
  rw [reportAll_eq]

@[simp] theorem input_reportAll (core : Core) (events : List Event) :
    (core.reportAll events).input = core.input := by
  rw [reportAll_eq]

/-- The core with another log. -/
def relog (change : Log → Log) (core : Core) : Core := { core with log := change core.log }

theorem relog_report {change : Log → Log} (h : Log.Compatible change) (core : Core)
    (event : Event) : (core.report event).relog change = (core.relog change).report event :=
  congrArg (fun log => { core with log }) (h core.log event)

theorem relog_reportAll {change : Log → Log} (h : Log.Compatible change) (core : Core)
    (events : List Event) :
    (core.reportAll events).relog change = (core.relog change).reportAll events := by
  induction events generalizing core with
  | nil => rfl
  | cons event rest ih =>
    show ((core.report event).reportAll rest).relog change =
      ((core.relog change).report event).reportAll rest
    rw [ih, relog_report h]

/-- Store, stack and input are the same. -/
structure Alike (first second : Core) : Prop where
  store : first.store = second.store
  stack : first.stack = second.stack
  input : first.input = second.input

namespace Alike

variable {first second third : Core}

theorem refl (core : Core) : core.Alike core := ⟨rfl, rfl, rfl⟩

theorem symm (h : first.Alike second) : second.Alike first :=
  ⟨h.store.symm, h.stack.symm, h.input.symm⟩

theorem trans (h : first.Alike second) (h' : second.Alike third) : first.Alike third :=
  ⟨h.store.trans h'.store, h.stack.trans h'.stack, h.input.trans h'.input⟩

theorem reportAll (h : first.Alike second) (events : List Event) :
    (first.reportAll events).Alike second :=
  ⟨by rw [store_reportAll, h.store], by rw [stack_reportAll, h.stack],
    by rw [input_reportAll, h.input]⟩

end Alike

end Core

namespace Action

variable {α β : Type}

/-- The action answers what `answer` says of the store, and all it leaves are reads in the log,
which the store decides too. -/
def Observes (x : Action α) (answer : Store → Except Fault α) : Prop :=
  ∀ store : Store, ∃ reads : List Event, (∀ event ∈ reads, event.IsRead) ∧
    ∀ core : Core, core.store = store → x.run core = (answer store, core.reportAll reads)

namespace Observes

theorem run {x : Action α} {answer : Store → Except Fault α} (hx : Observes x answer)
    (core : Core) :
    ∃ reads : List Event, (∀ event ∈ reads, event.IsRead) ∧
      x.run core = (answer core.store, core.reportAll reads) := by
  obtain ⟨reads, hreads, hrun⟩ := hx core.store
  exact ⟨reads, hreads, hrun core rfl⟩

theorem pure (a : α) : Observes (Pure.pure a) fun _ => .ok a := by
  intro store
  refine ⟨[], by simp, fun core _ => ?_⟩
  rfl

theorem throw (fault : Fault) :
    Observes (MonadExcept.throw fault : Action α) fun _ => .error fault := by
  intro store
  refine ⟨[], by simp, fun core _ => ?_⟩
  rfl

theorem read (address : Word) : Observes (Action.read address) fun store => store.peek address := by
  intro store
  cases htarget : Target.of address with
  | ok target =>
    refine ⟨[.read address target], by simp [Event.IsRead], fun core hcore => ?_⟩
    subst hcore
    simp [run_read, Store.peek, htarget]
    rfl
  | error fault =>
    refine ⟨[], by simp, fun core hcore => ?_⟩
    simp [run_read, Store.peek, htarget]
    rfl

theorem value (raw : Word) : Observes (Action.value raw) fun store => store.value raw := by
  by_cases hliteral : raw < modulus
  · simpa only [Action.value, Store.value, if_pos hliteral] using pure raw
  · simpa only [Action.value, Store.value, if_neg hliteral] using read raw

/-- What follows an observation sees the store that was observed. -/
theorem run_bind {x : Action α} {answer : Store → Except Fault α} (hx : Observes x answer)
    (f : α → Action β) (core : Core) :
    ∃ reads : List Event, (∀ event ∈ reads, event.IsRead) ∧
      (x >>= f).run core =
        match answer core.store with
        | .ok a => (f a).run (core.reportAll reads)
        | .error fault => (.error fault, core.reportAll reads) := by
  obtain ⟨reads, hreads, hrun⟩ := hx.run core
  refine ⟨reads, hreads, ?_⟩
  rw [Action.run_bind, hrun]
  cases answer core.store <;> rfl

theorem bind {x : Action α} {f : α → Action β} {answer : Store → Except Fault α}
    {next : α → Store → Except Fault β} (hx : Observes x answer)
    (hf : ∀ a, Observes (f a) (next a)) :
    Observes (x >>= f) fun store => answer store >>= fun a => next a store := by
  intro store
  obtain ⟨first, hfirst, hrun⟩ := hx store
  cases hanswer : answer store with
  | error fault =>
    refine ⟨first, hfirst, fun core hcore => ?_⟩
    rw [Action.run_bind, hrun core hcore]
    simp only [hanswer]
    rfl
  | ok a =>
    obtain ⟨second, hsecond, hrest⟩ := hf a store
    refine ⟨first ++ second, ?_, fun core hcore => ?_⟩
    · exact List.forall_mem_append.2 ⟨hfirst, hsecond⟩
    · have hafter : (core.reportAll first).store = store := by simpa using hcore
      rw [Action.run_bind, hrun core hcore, Core.reportAll_append]
      simp only [hanswer]
      exact hrest _ hafter

theorem ite {condition : Prop} [Decidable condition] {x y : Action α}
    {answer other : Store → Except Fault α} (hx : Observes x answer) (hy : Observes y other) :
    Observes (if condition then x else y)
      fun store => if condition then answer store else other store := by
  by_cases h : condition
  · simpa only [if_pos h] using hx
  · simpa only [if_neg h] using hy

end Observes

/-- A property of actions that the primitive ones have and that sequences inherit. -/
structure Compositional (P : {α : Type} → Action α → Prop) : Prop where
  pure : ∀ {α : Type} (a : α), P (Pure.pure a)
  throw : ∀ {α : Type} (fault : Fault), P (MonadExcept.throw fault : Action α)
  bind : ∀ {α β : Type} {x : Action α} {f : α → Action β}, P x → (∀ a, P (f a)) → P (x >>= f)
  observes : ∀ {α : Type} {x : Action α} {answer : Store → Except Fault α},
    Observes x answer → P x
  write : ∀ address word, P (Action.write address word)
  push : ∀ word, P (Action.push word)
  pop? : P Action.pop?
  readByte : P Action.readByte

/-- The action does the same whatever the log keeps. -/
def IgnoresLog (x : Action α) : Prop :=
  ∀ change, Log.Compatible change →
    ∀ core : Core, x.run (core.relog change) = ((x.run core).1, (x.run core).2.relog change)

namespace IgnoresLog

theorem pure (a : α) : IgnoresLog (Pure.pure a) := fun _ _ _ => rfl

theorem throw (fault : Fault) : IgnoresLog (MonadExcept.throw fault : Action α) := fun _ _ _ => rfl

theorem bind {x : Action α} {f : α → Action β} (hx : IgnoresLog x) (hf : ∀ a, IgnoresLog (f a)) :
    IgnoresLog (x >>= f) := by
  intro change hchange core
  rw [run_bind, run_bind, hx change hchange core]
  rcases hrun : x.run core with ⟨_ | a, after⟩
  · rfl
  · exact hf a change hchange after

theorem of_observes {x : Action α} {answer : Store → Except Fault α}
    (hx : Observes x answer) : IgnoresLog x := by
  intro change hchange core
  obtain ⟨reads, -, hrun⟩ := hx core.store
  rw [hrun core rfl, hrun (core.relog change) rfl, Core.relog_reportAll hchange]

theorem write (address word : Word) : IgnoresLog (Action.write address word) := by
  intro change hchange core
  rw [run_write, run_write]
  cases Target.of address with
  | error fault => rfl
  | ok target =>
    have hreport := Core.relog_report hchange core (.write address target (word % modulus))
    exact congrArg (fun logged : Core => (Except.ok (),
      { logged with store := core.store.set target (word % modulus) })) hreport.symm

theorem push (word : Word) : IgnoresLog (Action.push word) := fun _ _ _ => rfl

theorem pop? : IgnoresLog Action.pop? := by
  intro change _ core
  have hstack : (core.relog change).stack = core.stack := rfl
  rw [run_pop?, run_pop?, hstack]
  cases core.stack.pop? <;> rfl

theorem readByte : IgnoresLog Action.readByte := by
  intro change _ core
  have hinput : (core.relog change).input = core.input := rfl
  rw [run_readByte, run_readByte, hinput]
  rcases core.input.next with ⟨_ | _ | _, _⟩ <;> rfl

theorem compositional : Compositional @IgnoresLog :=
  ⟨pure, throw, bind, of_observes, write, push, pop?, readByte⟩

end IgnoresLog

/-- What ignores the log does the same to cores that differ in nothing else. -/
theorem IgnoresLog.alike {x : Action α} (hx : IgnoresLog x) {first second : Core}
    (h : first.Alike second) :
    (x.run first).1 = (x.run second).1 ∧ (x.run first).2.Alike (x.run second).2 := by
  have hmuted : first.relog (fun _ => .empty none) = second.relog fun _ => .empty none := by
    obtain ⟨store, stack, input, log⟩ := first
    obtain ⟨rfl, rfl, rfl⟩ := h
    rfl
  have hfirst := hx _ Log.compatible_none first
  rw [hmuted, hx _ Log.compatible_none second] at hfirst
  obtain ⟨hanswer, hcore⟩ := Prod.mk.inj hfirst
  injection hcore with hstore hstack hinput
  exact ⟨hanswer.symm, hstore.symm, hstack.symm, hinput.symm⟩

/-- All that the action adds to the log are reads and writes. -/
def TellsAccesses (x : Action α) : Prop :=
  ∀ core : Core, ∃ events : List Event, (∀ event ∈ events, event.IsAccess) ∧
    (x.run core).2.log = events.foldl Log.add core.log

namespace TellsAccesses

theorem of_log_eq {x : Action α} (h : ∀ core, (x.run core).2.log = core.log) :
    TellsAccesses x := by
  intro core
  exact ⟨[], by simp, h core⟩

theorem pure (a : α) : TellsAccesses (Pure.pure a) := .of_log_eq fun _ => rfl

theorem throw (fault : Fault) : TellsAccesses (MonadExcept.throw fault : Action α) :=
  .of_log_eq fun _ => rfl

theorem bind {x : Action α} {f : α → Action β} (hx : TellsAccesses x)
    (hf : ∀ a, TellsAccesses (f a)) : TellsAccesses (x >>= f) := by
  intro core
  obtain ⟨first, hfirst, hlog⟩ := hx core
  rw [run_bind]
  rcases hrun : x.run core with ⟨fault | a, after⟩
  · rw [hrun] at hlog
    exact ⟨first, hfirst, hlog⟩
  · rw [hrun] at hlog
    obtain ⟨second, hsecond, hrest⟩ := hf a after
    refine ⟨first ++ second, ?_, ?_⟩
    · exact List.forall_mem_append.2 ⟨hfirst, hsecond⟩
    · rw [List.foldl_append, ← hlog]
      exact hrest

theorem of_observes {x : Action α} {answer : Store → Except Fault α} (hx : Observes x answer) :
    TellsAccesses x := by
  intro core
  obtain ⟨reads, hreads, hrun⟩ := hx.run core
  refine ⟨reads, fun event hevent => (hreads event hevent).isAccess, ?_⟩
  rw [hrun, Core.reportAll_eq]

theorem write (address word : Word) : TellsAccesses (Action.write address word) := by
  intro core
  rw [run_write]
  cases Target.of address with
  | error fault => exact ⟨[], by simp, rfl⟩
  | ok target => exact ⟨[.write address target (word % modulus)], by simp [Event.IsAccess], rfl⟩

theorem push (word : Word) : TellsAccesses (Action.push word) := .of_log_eq fun _ => rfl

theorem pop? : TellsAccesses Action.pop? := by
  refine .of_log_eq fun core => ?_
  rw [run_pop?]
  cases core.stack.pop? <;> rfl

theorem readByte : TellsAccesses Action.readByte := by
  refine .of_log_eq fun core => ?_
  rw [run_readByte]
  rcases core.input.next with ⟨_ | _ | _, _⟩ <;> rfl

theorem compositional : Compositional @TellsAccesses :=
  ⟨pure, throw, bind, of_observes, write, push, pop?, readByte⟩

end TellsAccesses

end Action

end WordMachine
