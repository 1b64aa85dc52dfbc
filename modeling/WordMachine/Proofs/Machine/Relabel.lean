import WordMachine.Proofs.Instruction.Deed
import WordMachine.Proofs.Machine.Step

/-! # Nobody looks at the log

Apart from the instruction itself, nothing that a machine does looks into its core, and little looks
at its settings: what changes them commutes with each phase. An attempt at an instruction looks
neither at the log nor at the settings: relabeling a machine with others commutes with it. Counting
looks at the limit and publishing at the length of the stack shown, but at the pacing and at the log
nobody looks at all. A muted machine, whose log keeps nothing, thus runs like the machine
itself, and facts about a run that is logged completely are facts about the same run with any
log.
-/
namespace WordMachine

/-- The change of settings is one that no machine looks at: limit and length of the stack that
snapshots show are kept. -/
structure Config.Unseen (settings : Config → Config) : Prop where
  maxSteps : ∀ config, (settings config).maxSteps = config.maxSteps
  stackHeadLength : ∀ config, (settings config).stackHeadLength = config.stackHeadLength

theorem Config.unseen_id : Config.Unseen id := ⟨fun _ => rfl, fun _ => rfl⟩

namespace Machine

/-- The machine with other settings and with its core changed. -/
def dress (settings : Config → Config) (change : Core → Core) (m : Machine) : Machine :=
  { m with config := settings m.config, core := change m.core }

/-! ## Phases that look neither at the settings nor into the core -/

section Dress

variable {settings : Config → Config} {change : Core → Core}
  (hchange : ∀ core event, change (core.report event) = (change core).report event)

include hchange

theorem report_dress (m : Machine) (event : Event) :
    (m.dress settings change).report event = (m.report event).dress settings change :=
  congrArg (fun core => { m.dress settings change with core }) (hchange m.core event).symm

theorem record_dress (m : Machine) (fault : Fault) :
    (m.dress settings change).record fault = (m.record fault).dress settings change := by
  unfold record
  rw [report_dress hchange]
  rfl

theorem emit_dress (m : Machine) (data : List UInt8) :
    (m.dress settings change).emit data = (m.emit data).dress settings change := by
  have hterminal : (m.dress settings change).terminal = m.terminal := rfl
  unfold emit
  rw [hterminal]
  rcases m.terminal.emit data with ⟨_ | reason, terminal⟩
  · rfl
  · exact record_dress hchange { m with terminal } _

theorem settle_dress (m : Machine) (i : Instruction) (result : Except Fault Effect) :
    (m.dress settings change).settle i result =
      ((m.settle i result).1.dress settings change, (m.settle i result).2) := by
  cases result with
  | ok effect =>
    cases effect with
    | proceed | jump target => rfl
    | output byte => exact congrArg (·, true) (emit_dress hchange m [byte])
    | halt => exact congrArg (finish ·, false) (emit_dress hchange m _)
  | error fault =>
    cases fault with
    | inputExhausted =>
      have hreport : (m.dress settings change).report (.exhausted i.address) =
          (m.report (.exhausted i.address)).dress settings change := report_dress hchange m _
      have hrecord : ((m.dress settings change).report (.exhausted i.address)).record
            .inputExhausted =
          ((m.report (.exhausted i.address)).record .inputExhausted).dress settings change := by
        rw [hreport]
        exact record_dress hchange _ _
      exact congrArg (finish ·, false) hrecord
    | _ => exact congrArg (·, true) (record_dress hchange m _)

theorem awake_dress (m : Machine) :
    (m.dress settings change).awake = m.awake.dress settings change := by
  have hstatus : (m.dress settings change).status = m.status := rfl
  unfold awake
  rw [hstatus]
  split
  · exact report_dress hchange { m with status := .running } .started
  · rfl

/-- Counting looks at the limit, but not into the core. -/
theorem tick_dress (hlimit : ∀ config, (settings config).maxSteps = config.maxSteps) (m : Machine) :
    (m.dress settings change).tick = m.tick.dress settings change := by
  have hsame : (m.dress settings change).config.maxSteps = m.config.maxSteps := hlimit m.config
  cases hmax : m.config.maxSteps with
  | none =>
    rw [tick_of_unlimited hmax, tick_of_unlimited (hsame.trans hmax)]
    rfl
  | some limit =>
    have hcounter : (m.dress settings change).counter = m.counter := rfl
    have hstatus : (m.dress settings change).status = m.status := rfl
    rw [tick_of_limit hmax, tick_of_limit (hsame.trans hmax), hcounter, hstatus]
    split
    · have hrecord : (({ m with counter := m.counter + 1 } : Machine).dress settings change).record
          (.stepLimit limit) = _ := record_dress hchange { m with counter := m.counter + 1 } _
      exact congrArg finish hrecord
    · rfl

end Dress

/-! ## Another log -/

/-- The machine with other settings and another log. -/
def relabel (settings : Config → Config) (change : Log → Log) (m : Machine) : Machine :=
  { m with config := settings m.config, core := m.core.relog change }

section Relabel

variable {settings : Config → Config} {change : Log → Log} (hchange : Log.Compatible change)

include hchange

theorem executed_relabel (m : Machine) (i : Instruction) :
    (m.relabel settings change).executed i =
      ((m.executed i).1.relabel settings change, (m.executed i).2) := by
  have hrun := Action.IgnoresLog.compositional.execute i (m.fetched i).pc change hchange
    (m.fetched i).core
  have hfetched : (m.relabel settings change).fetched i =
      (m.fetched i).relabel settings change := report_dress (Core.relog_report hchange)
        { m with pc := Instruction.addressAfter i.address i.length } _
  have hcore : ((m.fetched i).relabel settings change).core =
      (m.fetched i).core.relog change := rfl
  have hpc : ((m.fetched i).relabel settings change).pc = (m.fetched i).pc := rfl
  unfold executed
  simp only [hfetched, hcore, hpc, hrun]
  exact settle_dress (Core.relog_report hchange) { m.fetched i with
    core := ((i.execute (m.fetched i).pc).run (m.fetched i).core).2
    lastInstruction := some i } i _

theorem attempt_relabel (m : Machine) :
    (m.relabel settings change).attempt =
      (m.attempt.1.relabel settings change, m.attempt.2) := by
  have hrun := Action.IgnoresLog.of_observes (Instruction.observes_decode m.pc) change hchange
    m.core
  have hcore : (m.relabel settings change).core = m.core.relog change := rfl
  have hpc : (m.relabel settings change).pc = m.pc := rfl
  unfold attempt
  rw [hcore, hpc, hrun]
  rcases (Instruction.decode Action.read m.pc).run m.core with ⟨fault | i, core⟩
  · exact congrArg (·, true) (record_dress (Core.relog_report hchange)
      { m with core, pc := Instruction.addressAfter m.pc 1 } _)
  · exact executed_relabel hchange { m with core } i

theorem awake_relabel (m : Machine) :
    (m.relabel settings change).awake = m.awake.relabel settings change :=
  awake_dress (Core.relog_report hchange) m

theorem report_relabel (m : Machine) (event : Event) :
    (m.relabel settings change).report event = (m.report event).relabel settings change :=
  report_dress (Core.relog_report hchange) m event

/-! ### Settings that no machine looks at -/

variable (hsettings : Config.Unseen settings)

include hsettings

omit hchange in
theorem snapshot_relabel (m : Machine) : (m.relabel settings change).snapshot = m.snapshot := by
  have hhead : (m.relabel settings change).config.stackHeadLength = m.config.stackHeadLength :=
    hsettings.stackHeadLength m.config
  unfold snapshot
  rw [hhead]
  rfl

omit hchange in
theorem publish_relabel (m : Machine) :
    (m.relabel settings change).publish = m.publish.relabel settings change := by
  unfold publish
  rw [snapshot_relabel hsettings]
  rfl

theorem step_relabel (m : Machine) :
    (m.relabel settings change).step = m.step.relabel settings change := by
  by_cases hfinished : m.status = .finished
  · have hrelabeled : (m.relabel settings change).status = .finished := hfinished
    rw [step_of_finished hfinished, step_of_finished hrelabeled]
  · have hrelabeled : (m.relabel settings change).status ≠ .finished := hfinished
    rw [step_eq hfinished, step_eq hrelabeled, awake_relabel hchange, attempt_relabel hchange,
      ← publish_relabel hsettings]
    rcases m.awake.attempt with ⟨after, _ | _⟩
    · rfl
    · exact congrArg publish (tick_dress (Core.relog_report hchange) hsettings.maxSteps after)

theorem runWithin_relabel (m : Machine) (bound : Nat) :
    (m.relabel settings change).runWithin bound =
      (m.runWithin bound).map (relabel settings change) := by
  induction bound generalizing m with
  | zero => rfl
  | succ bound ih =>
    have hstatus : (m.step.relabel settings change).status = m.step.status := rfl
    have hmonitor : (m.step.relabel settings change).monitor = m.step.monitor := rfl
    rw [runWithin_succ, runWithin_succ, step_relabel hchange hsettings, hstatus, hmonitor, ih]
    split
    · rfl
    · split
      · have hstop : (m.step.relabel settings change).report
            (.stopped m.step.pc m.step.counter) = _ := report_relabel hchange m.step _
        exact congrArg (some ·.finish) hstop
      · rfl

theorem run_relabel (m : Machine) (bound : Nat) :
    (m.relabel settings change).run bound =
      (m.run bound).map (Except.map (relabel settings change)) := by
  have hstatus : (m.relabel settings change).status = m.status := rfl
  have hconclude : ∀ last : Machine,
      (last.relabel settings change).conclude = last.conclude.relabel settings change := by
    intro last
    unfold conclude
    rw [publish_relabel hsettings, ← report_relabel hchange]
    rfl
  unfold run
  rw [hstatus, runWithin_relabel hchange hsettings]
  split
  · rw [Option.map_map, Option.map_map]
    exact congrArg (Option.map · _) (funext fun last => congrArg Except.ok (hconclude last))
  · rfl

end Relabel

/-! ## Muted machines -/

/-- The machine with a log that keeps nothing. -/
def mute (m : Machine) : Machine := m.relabel id fun _ => .empty none

theorem step_mute (m : Machine) : m.mute.step = m.step.mute :=
  step_relabel Log.compatible_none Config.unseen_id m

theorem run_mute (m : Machine) (bound : Nat) :
    m.mute.run bound = (m.run bound).map (Except.map mute) :=
  run_relabel Log.compatible_none Config.unseen_id m bound

theorem poke_mute (m : Machine) (address word : Word) :
    m.mute.poke address word = (m.poke address word).map mute := by
  have hrun := Action.IgnoresLog.write address word _ Log.compatible_none m.core
  have hcore : m.mute.core = m.core.relog fun _ => .empty none := rfl
  unfold poke
  rw [hcore, hrun]
  rcases (Action.write address word).run m.core with ⟨_ | _, core⟩ <;> rfl

end Machine

end WordMachine
