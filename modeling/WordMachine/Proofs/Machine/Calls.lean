import WordMachine.Proofs.Image
import WordMachine.Proofs.Machine.Relabel

/-! # Calls from outside

Whoever owns a machine steps it, runs it, asks it to stop, stores words, and exchanges its
input and its terminal, in any order. A property that every single one of these preserves is
preserved by all of them together, and for a run it is enough that steps preserve it. The same goes
for a relation of two machines of which the same is asked.
-/
namespace WordMachine

/-- What may be asked of a machine. -/
inductive Call where
  | step
  /-- Runs the machine, which is to finish within so many steps. -/
  | run (bound : Nat)
  | requestStop
  | poke (address word : Word)
  | setInput (input : Input)
  | setTerminal (device : Device)

namespace Machine

/-- The machine after a call, which a refused call leaves as it was. There is none if a run does
not finish within its bound. -/
def call? (m : Machine) : Call → Option Machine
  | .step => some m.step
  | .run bound =>
    (m.run bound).map fun
      | .ok after => after
      | .error _ => m
  | .requestStop => some m.requestStop
  | .poke address word =>
    match m.poke address word with
    | .ok after => some after
    | .error _ => some m
  | .setInput input => some (m.setInput input)
  | .setTerminal device => some (m.setTerminal device)

theorem call?_run (m : Machine) (bound : Nat) :
    m.call? (.run bound) =
      if m.status = .new then (m.runWithin bound).map conclude else some m := by
  rw [call?, run]
  split
  · rw [Option.map_map]
    rfl
  · rfl

/-- The machine after calls one after the other, if every run among them finishes. -/
def calls? (m : Machine) : List Call → Option Machine
  | [] => some m
  | call :: rest => (m.call? call).bind fun after => after.calls? rest

theorem calls?_append (m : Machine) (before after : List Call) :
    m.calls? (before ++ after) = (m.calls? before).bind fun between => between.calls? after := by
  induction before generalizing m with
  | nil => rfl
  | cons call rest ih =>
    rw [List.cons_append, calls?, calls?, Option.bind_assoc]
    congr 1
    funext between
    exact ih between

/-- A store from outside that succeeds is the write on the core. -/
theorem poke_eq {m after : Machine} {address word : Word} (h : m.poke address word = .ok after) :
    after = { m with core := ((Action.write address word).run m.core).2 } := by
  unfold poke at h
  rcases hwrite : (Action.write address word).run m.core with ⟨_ | _, core⟩
  · rw [hwrite] at h
    cases h
  · rw [hwrite] at h
    exact (Except.ok.inj h).symm

/-! ## Properties that calls preserve -/

/-- What each of the calls preserves is preserved by all of them. -/
theorem calls?_induction {P : Machine → Prop} {m after : Machine} {calls : List Call} (hm : P m)
    (hstep : ∀ before call between, call ∈ calls → P before →
      before.call? call = some between → P between)
    (hcalls : m.calls? calls = some after) : P after := by
  induction calls generalizing m with
  | nil =>
    obtain rfl := Option.some.inj hcalls
    exact hm
  | cons call rest ih =>
    obtain ⟨between, hcall, hrest⟩ := Option.bind_eq_some_iff.1 hcalls
    refine ih (hstep m call between List.mem_cons_self hm hcall) ?_ hrest
    exact fun before later after hlater => hstep before later after (List.mem_cons_of_mem _ hlater)

/-- Everything that happens to a machine keeps the property. -/
structure Preserved (P : Machine → Prop) : Prop where
  step : ∀ m, P m → P m.step
  stop : ∀ m, P m → P m.stop
  conclude : ∀ m, P m → P m.conclude
  requestStop : ∀ m, P m → P m.requestStop
  poke : ∀ m address word after, P m → m.poke address word = .ok after → P after
  setInput : ∀ m input, P m → P (m.setInput input)
  setTerminal : ∀ m device, P m → P (m.setTerminal device)

namespace Preserved

variable {P : Machine → Prop} (hP : Preserved P)

include hP

theorem runWithin {m after : Machine} {bound : Nat} (hm : P m)
    (hrun : m.runWithin bound = some after) : P after := by
  induction bound generalizing m with
  | zero => cases hrun
  | succ bound ih =>
    have hstep := hP.step m hm
    rw [runWithin_succ] at hrun
    split at hrun
    · obtain rfl := Option.some.inj hrun
      exact hstep
    · split at hrun
      · obtain rfl := Option.some.inj hrun
        exact hP.stop _ hstep
      · exact ih hstep hrun

theorem run {m after : Machine} {bound : Nat} (hm : P m)
    (hrun : m.run bound = some (.ok after)) : P after := by
  unfold Machine.run at hrun
  split at hrun
  · obtain ⟨last, hlast, heq⟩ := Option.map_eq_some_iff.1 hrun
    obtain rfl := Except.ok.inj heq
    exact hP.conclude last (hP.runWithin hm hlast)
  · cases hrun

theorem call {m after : Machine} {call : Call} (hm : P m) (hcall : m.call? call = some after) :
    P after := by
  cases call with
  | step =>
    obtain rfl := Option.some.inj hcall
    exact hP.step m hm
  | run bound =>
    obtain ⟨result, hresult, heq⟩ := Option.map_eq_some_iff.1 hcall
    cases result with
    | ok last =>
      obtain rfl : last = after := heq
      exact hP.run hm hresult
    | error fault =>
      obtain rfl : m = after := heq
      exact hm
  | requestStop =>
    obtain rfl := Option.some.inj hcall
    exact hP.requestStop m hm
  | poke address word =>
    unfold call? at hcall
    cases hpoke : m.poke address word with
    | ok poked =>
      simp only [hpoke] at hcall
      obtain rfl := Option.some.inj hcall
      exact hP.poke m address word poked hm hpoke
    | error fault =>
      simp only [hpoke] at hcall
      obtain rfl := Option.some.inj hcall
      exact hm
  | setInput input =>
    obtain rfl := Option.some.inj hcall
    exact hP.setInput m input hm
  | setTerminal device =>
    obtain rfl := Option.some.inj hcall
    exact hP.setTerminal m device hm

theorem calls {m after : Machine} {calls : List Call} (hm : P m)
    (hcalls : m.calls? calls = some after) : P after :=
  calls?_induction hm (fun _ _ _ _ hbefore hcall => hP.call hbefore hcall) hcalls

end Preserved

/-! ## Relations that calls preserve -/

/-- Everything that happens to two machines keeps them related. -/
structure Lockstep (R : Machine → Machine → Prop) : Prop where
  status : ∀ {first second}, R first second → first.status = second.status
  stopRequested : ∀ {first second}, R first second →
    first.monitor.stopRequested = second.monitor.stopRequested
  step : ∀ {first second}, R first second → R first.step second.step
  stop : ∀ {first second}, R first second → R first.stop second.stop
  conclude : ∀ {first second}, R first second → R first.conclude second.conclude
  requestStop : ∀ {first second}, R first second → R first.requestStop second.requestStop
  poke : ∀ {first second} address word, R first second →
    Option.Rel R (first.call? (.poke address word)) (second.call? (.poke address word))
  setInput : ∀ {first second} input, R first second →
    R (first.setInput input) (second.setInput input)
  setTerminal : ∀ {first second} device, R first second →
    R (first.setTerminal device) (second.setTerminal device)

namespace Lockstep

variable {R : Machine → Machine → Prop} (hR : Lockstep R) {first second : Machine}
  (h : R first second)

include hR h

theorem steps (n : Nat) : R (first.steps n) (second.steps n) := by
  induction n with
  | zero => exact h
  | succ n ih =>
    rw [steps_succ_last, steps_succ_last]
    exact hR.step ih

theorem runWithin (bound : Nat) :
    Option.Rel R (first.runWithin bound) (second.runWithin bound) := by
  induction bound generalizing first second with
  | zero => exact .none
  | succ bound ih =>
    have hstep := hR.step h
    rw [runWithin_succ, runWithin_succ, hR.status hstep, hR.stopRequested hstep]
    split
    · exact .some hstep
    · split
      · exact .some (hR.stop hstep)
      · exact ih hstep

theorem call (call : Call) : Option.Rel R (first.call? call) (second.call? call) := by
  cases call with
  | step => exact .some (hR.step h)
  | run bound =>
    have hlast := hR.runWithin h bound
    rw [call?_run, call?_run, hR.status h]
    generalize first.runWithin bound = last, second.runWithin bound = lastOther at hlast ⊢
    split
    · cases hlast with
      | some hlast => exact .some (hR.conclude hlast)
      | none => exact .none
    · exact .some h
  | requestStop => exact .some (hR.requestStop h)
  | poke address word => exact hR.poke address word h
  | setInput input => exact .some (hR.setInput input h)
  | setTerminal device => exact .some (hR.setTerminal device h)

theorem calls (calls : List Call) : Option.Rel R (first.calls? calls) (second.calls? calls) := by
  induction calls generalizing first second with
  | nil => exact .some h
  | cons call rest ih =>
    have hcall := hR.call h call
    rw [calls?, calls?]
    generalize first.call? call = after, second.call? call = afterOther at hcall ⊢
    cases hcall with
    | none => exact .none
    | some hafter => exact ih hafter

end Lockstep

/-! ## Machines that were made and called -/

/-- The machine was just made, with this image in memory. -/
inductive Made : List Word → Machine → Prop where
  | blank (config : Config) (threshold : Option Level) : Made [] (create config threshold)
  | loaded {source : Input} {image : List Word} {config : Config} {threshold : Option Level}
      {m : Machine} (hread : Image.read source = .ok image)
      (hmade : ofImage source config threshold = .ok m) : Made image m

/-- A machine that was just made is a blank one but for the image in memory and for the log. -/
theorem Made.eq {image : List Word} {m : Machine} (h : Made image m) :
    image.length ≤ ramSize ∧ ∃ config threshold log,
      m = { create config threshold with
        core := ⟨⟨Ram.zeros.setFrom 0 image, .zeros⟩, .empty, .empty, log⟩ } := by
  cases h with
  | blank config threshold => exact ⟨Nat.zero_le _, config, threshold, _, rfl⟩
  | @loaded source image config threshold m hread hmade =>
    refine ⟨Image.length_of_read hread, config, threshold,
      (create config threshold).core.log.add (.imageLoaded image.length), ?_⟩
    rw [ofImage, Image.load_of_read hread] at hmade
    exact (Except.ok.inj hmade).symm

theorem Made.get_ram {image : List Word} {m : Machine} (h : Made image m) (address : Word) :
    m.core.store.ram.get address = image[address.toNat]?.getD 0 := by
  obtain ⟨hfits, config, threshold, log, rfl⟩ := h.eq
  show ((Ram.zeros.setFrom 0 image).get? address).getD 0 = _
  rw [Ram.get?_setFrom _ 0 image (by rwa [Nat.zero_add])]
  split
  · rw [Nat.sub_zero]
  · rename_i houtside
    have hnone : image[address.toNat]? = none := by
      rw [List.getElem?_eq_none_iff]
      omega
    rw [hnone, Ram.get?, Ram.zeros, Vector.getElem?_replicate]
    split <;> rfl

/-- A new machine with these words in memory. -/
def holding (words : List Word) (hfits : words.length ≤ ramSize) : Machine :=
  let blank := create .default none
  let ram : Ram := ⟨⟨(words ++ List.replicate (ramSize - words.length) 0).toArray, by
    rw [List.size_toArray, List.length_append, List.length_replicate]
    omega⟩⟩
  { blank with core := { blank.core with store := ⟨ram, .zeros⟩ } }

theorem call?_mute (m : Machine) (call : Call) : m.mute.call? call = (m.call? call).map mute := by
  cases call with
  | step => exact congrArg some m.step_mute
  | run bound =>
    simp only [call?, run_mute, Option.map_map]
    congr 1
    funext result
    cases result <;> rfl
  | poke address word =>
    simp only [call?, poke_mute]
    cases m.poke address word <;> rfl
  | requestStop | setInput input | setTerminal device => rfl

/-- The same calls do the same to machines that differ in nothing but the log. -/
theorem calls?_mute (m : Machine) (calls : List Call) :
    m.mute.calls? calls = (m.calls? calls).map mute := by
  induction calls generalizing m with
  | nil => rfl
  | cons call rest ih =>
    rw [calls?, calls?, call?_mute, Option.bind_map, Option.map_bind]
    congr 1
    funext between
    exact ih between

/-- The machine with a log that keeps everything from now on. -/
def traced (m : Machine) : Machine :=
  { m with core := { m.core with log := .empty (some .trace) } }

theorem mute_traced (m : Machine) : m.traced.mute = m.mute := rfl

theorem calls?_traced_mute (m : Machine) (calls : List Call) :
    (m.traced.calls? calls).map mute = (m.calls? calls).map mute := by
  rw [← calls?_mute, ← calls?_mute, mute_traced]

/-- Calls that a machine finishes are finished by the traced machine too, with the same result. -/
theorem calls?_traced {m after : Machine} {calls : List Call} (h : m.calls? calls = some after) :
    ∃ last, m.traced.calls? calls = some last ∧ last.mute = after.mute := by
  have hmute := m.calls?_traced_mute calls
  rw [h] at hmute
  exact Option.map_eq_some_iff.1 hmute

end Machine

end WordMachine
