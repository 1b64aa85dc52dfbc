import WordMachine.Proofs.Machine.Reachable

/-! # The monitor is never stale after a step

Observers see the snapshot that was published last. A machine publishes one when it is made, after
every step and at the end of a run. In between only such calls are made as leave alone what a
snapshot shows, unless somebody stores to a register or exchanges registers and stack: then
observers are behind until the next step or run. Looking at a word (`Machine.peek`) gives no other
machine, so it is not among the calls.
-/
namespace WordMachine

/-- The call does not store to a register. -/
def Call.SparesRegisters : Call → Prop
  | .poke address _ => isRegister address = false
  | _ => True

instance : (call : Call) → Decidable call.SparesRegisters
  | .poke address _ => inferInstanceAs (Decidable (isRegister address = false))
  | .step | .run _ | .requestStop | .setInput _ | .setTerminal _ =>
    inferInstanceAs (Decidable True)

/-- The snapshot shows the machine as it is. Of the stack it shows the depth and as many of the
newest entries as the settings say. -/
structure Snapshot.Shows (s : Snapshot) (m : Machine) : Prop where
  status : s.status = m.status
  address : s.address = m.pc
  registers : s.registers = m.core.store.registers
  stackDepth : s.stackDepth = m.core.stack.toList.length
  stackHead : s.stackHead = m.core.stack.toList.reverse.take
    (min m.config.stackHeadLength.toNat m.core.stack.toList.length)
  counter : s.counter = m.counter
  errorCount : s.errorCount = m.errorCount
  lastError : s.lastError = m.lastFault.map Fault.message

namespace Machine

/-- Observers see the machine as it is. -/
def Fresh (m : Machine) : Prop := m.monitor.latest = m.snapshot

theorem Reachable.shows {m : Machine} (h : m.Reachable) : m.snapshot.Shows m where
  status := rfl
  address := rfl
  registers := rfl
  stackDepth := rfl
  stackHead := by
    show m.core.stack.head m.config.stackHeadLength.toNat = _
    rw [Stack.head_eq_take, List.take_eq_take_min, List.length_reverse]
  counter := rfl
  errorCount := rfl
  lastError := h.faultText_eq

/-! ## How observers come to be up to date -/

theorem Made.fresh {image : List Word} {m : Machine} (h : Made image m) : m.Fresh := by
  obtain ⟨-, config, threshold, log, rfl⟩ := h.eq
  rfl

theorem fresh_step {m : Machine} (hgoing : m.status ≠ .finished) : m.step.Fresh := by
  rw [step_eq hgoing]
  rfl

/-- The machine has just been made, or has taken a step or ended a run after whatever was done to
it. -/
inductive Refreshed : Machine → Prop where
  | made {image : List Word} {m : Machine} (hmade : Made image m) : Refreshed m
  | stepped {m : Machine} (h : m.Reachable) (hgoing : m.status ≠ .finished) : Refreshed m.step
  | ran {m after : Machine} {bound : Nat} (h : m.Reachable)
      (hrun : m.run bound = some (.ok after)) : Refreshed after

theorem Refreshed.reachable {m : Machine} (h : m.Refreshed) : m.Reachable := by
  cases h with
  | made hmade => exact .made hmade
  | @stepped m h hgoing =>
    have hcall : m.call? .step = some m.step := rfl
    exact h.call hcall
  | @ran before after bound h hrun =>
    have hcall : before.call? (.run bound) = some m := by rw [call?, hrun]; rfl
    exact h.call hcall

theorem Refreshed.fresh {m : Machine} (h : m.Refreshed) : m.Fresh := by
  cases h with
  | made hmade => exact hmade.fresh
  | stepped h hgoing => exact fresh_step hgoing
  | ran h hrun => exact latest_of_run hrun

/-! ## How they stay so -/

/-- A store to anything but a register leaves alone what a snapshot shows. -/
theorem write_of_not_register {address : Word} (h : isRegister address = false) (word : Word)
    (core : Core) :
    ((Action.write address word).run core).2.store.registers = core.store.registers ∧
      ((Action.write address word).run core).2.stack = core.stack := by
  have hband : address.toNat < 0x8000 ∨ 0x8008 ≤ address.toNat := by
    have hregister := mt (isRegister_iff address).2 (by simp [h])
    omega
  rw [Action.run_write, Target.of_eq]
  rcases hband with hcell | hlarge
  · rw [if_pos hcell]
    exact ⟨rfl, rfl⟩
  · rw [if_neg (by omega), if_neg (by omega)]
    exact ⟨rfl, rfl⟩

theorem Fresh.call {m after : Machine} {call : Call} (h : m.Fresh) (hspares : call.SparesRegisters)
    (hcall : m.call? call = some after) : after.Fresh := by
  cases call with
  | step =>
    obtain rfl := Option.some.inj hcall
    by_cases hfinished : m.status = .finished
    · rwa [step_of_finished hfinished]
    · exact fresh_step hfinished
  | run bound =>
    rw [call?_run] at hcall
    split at hcall
    · obtain ⟨last, -, rfl⟩ := Option.map_eq_some_iff.1 hcall
      rfl
    · obtain rfl := Option.some.inj hcall
      exact h
  | poke address word =>
    rw [call?] at hcall
    cases hpoke : m.poke address word with
    | error fault =>
      rw [hpoke] at hcall
      obtain rfl := Option.some.inj hcall
      exact h
    | ok poked =>
      rw [hpoke] at hcall
      obtain rfl := Option.some.inj hcall
      obtain ⟨hregisters, hstack⟩ := write_of_not_register hspares word m.core
      rw [poke_eq hpoke, Fresh, snapshot, hregisters, hstack]
      exact h
  | requestStop | setInput input | setTerminal device =>
    obtain rfl := Option.some.inj hcall
    exact h

theorem Fresh.calls {m after : Machine} {calls : List Call} (h : m.Fresh)
    (hspares : ∀ call ∈ calls, call.SparesRegisters) (hcalls : m.calls? calls = some after) :
    after.Fresh :=
  calls?_induction h
    (fun _ call _ hmem hbefore hcall => hbefore.call (hspares call hmem) hcall) hcalls

/-- **The monitor is never stale after a step.** Once a machine has been made, or has taken a step
or ended a run whatever was done to it before, its observers see it as it is after each further
call, in any order, but for stores to registers. -/
theorem monitor_fresh {m after : Machine} {calls : List Call} (h : m.Refreshed)
    (hspares : ∀ call ∈ calls, call.SparesRegisters) (hcalls : m.calls? calls = some after) :
    after.monitor.latest = after.snapshot ∧ after.monitor.latest.Shows after := by
  have hfresh : after.monitor.latest = after.snapshot := h.fresh.calls hspares hcalls
  refine ⟨hfresh, ?_⟩
  rw [hfresh]
  exact (h.reachable.calls hcalls).shows

/-- A machine with a word that selects no operation behind a `noop`, whose stack was exchanged for
one of twelve entries. -/
def stacked : Machine :=
  ((create .default none).withRam (holding [21, 250] (by decide)).core.store.ram).withCpu .zeros
    (.ofList [1, 2, 3, 4, 5, 6, 7, 8, 9, 10, 11, 12])

/-- After the first step a run is refused, the next step records a fault, and a store into memory
changes nothing that is shown: ten of the twelve entries. -/
theorem monitor_fresh_stacked :
    let calls := [.run 3, .step, .requestStop, .poke 9 7]
    stacked.step.Refreshed ∧ (∀ call ∈ calls, call.SparesRegisters) ∧
    ∃ after, stacked.step.calls? calls = some after ∧
      after.monitor.latest = after.snapshot ∧ after.snapshot.stackDepth = 12 ∧
      after.monitor.latest.stackHead = [12, 11, 10, 9, 8, 7, 6, 5, 4, 3] ∧
      after.monitor.latest.lastError =
        some "decode at 0x0001: command with opcode [250] not found" := by
  intro calls
  have hreachable : stacked.Reachable := .withCpu (.withRam (.made (.blank .default none)) _) _ _
  have hrefreshed : stacked.step.Refreshed := .stepped hreachable (by decide +kernel)
  have hspares : ∀ call ∈ [Call.run 3, .step, .requestStop, .poke 9 7], call.SparesRegisters := by
    decide
  have hshown : (stacked.step.calls? calls).map (fun after =>
      (after.snapshot.stackDepth, after.monitor.latest.stackHead,
        after.monitor.latest.lastError)) =
      some (12, [12, 11, 10, 9, 8, 7, 6, 5, 4, 3],
        some "decode at 0x0001: command with opcode [250] not found") := by decide +kernel
  obtain ⟨after, hcalls, hparts⟩ := Option.map_eq_some_iff.1 hshown
  injection hparts with hdepth hrest
  injection hrest with hhead hlast
  obtain ⟨hfresh, -⟩ := monitor_fresh hrefreshed hspares hcalls
  exact ⟨hrefreshed, hspares, after, hcalls, hfresh, hdepth, hhead, hlast⟩

end Machine

end WordMachine
