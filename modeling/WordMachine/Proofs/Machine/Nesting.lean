import WordMachine.Proofs.Instruction.Frame
import WordMachine.Proofs.Machine.Commit

/-! # Calls and returns nest

Whatever is executed, the stack changes at its newest end only, and by one entry at most. So the
oldest entries stay for as long as the stack is not cut down to fewer of them. A `ret` at the depth
that a `call` left therefore finds the address behind that `call` on top, and below it what the
`call` found, however many calls were made and returned from in between.
-/
namespace WordMachine

namespace Stack

theorem length_toList (s : Stack) : s.toList.length = s.depth := Array.length_toList

theorem ofList_toList (s : Stack) : ofList s.toList = s := rfl

/-- The oldest entries stay if no fewer are left. -/
theorem Moves.keeps {s after : Stack} {oldest : List Word} (h : s.Moves after)
    (holdest : oldest <+: s.toList) (hdepth : oldest.length ≤ after.depth) :
    oldest <+: after.toList := by
  cases h with
  | stay => exact holdest
  | push word =>
    rw [toList_push]
    exact holdest.trans (List.prefix_append _ _)
  | pop hpop =>
    have hlist := toList_of_pop? hpop
    rw [← length_toList] at hdepth
    refine List.prefix_of_prefix_length_le holdest ?_ hdepth
    rw [hlist]
    exact List.prefix_append _ _

/-- Off a stack of these entries and one more, the one more is taken, and these are left. -/
theorem pop?_of_keeps {s before : Stack} {word : Word} (h : before.toList ++ [word] <+: s.toList)
    (hdepth : s.depth = before.depth + 1) : s.pop? = some (word, before) := by
  have hlist : s.toList = before.toList ++ [word] := by
    refine (h.eq_of_length ?_).symm
    rw [List.length_append, length_toList, length_toList, hdepth, List.length_singleton]
  rw [pop?_of_toList_append hlist, ofList_toList]

end Stack

namespace Machine

/-- A step moves the stack by one entry at most. -/
theorem stack_step (m : Machine) : m.core.stack.Moves m.step.core.stack := by
  by_cases hfinished : m.status = .finished
  · rw [step_of_finished hfinished]
    exact .stay
  · cases hfetch : m.fetch with
    | error fault =>
      rw [(step_of_error hfinished hfetch).1.core.stack]
      exact .stay
    | ok i =>
      rw [(step_of_ok hfinished hfetch).1.core.stack]
      exact i.stack_execute _ _

/-- Steps leave the oldest entries alone while there are no fewer. -/
theorem stack_steps {m : Machine} {oldest : List Word} (holdest : oldest <+: m.core.stack.toList)
    {n : Nat} (hdepth : ∀ j ≤ n, oldest.length ≤ (m.steps j).core.stack.depth) :
    oldest <+: (m.steps n).core.stack.toList := by
  induction n with
  | zero => exact holdest
  | succ n ih =>
    have hbefore := ih fun j hj => hdepth j (by omega)
    have hafter := hdepth (n + 1) (by omega)
    rw [steps_succ_last] at hafter ⊢
    exact (m.steps n).stack_step.keeps hbefore hafter

/-- A `ret` that finds an address below `0x8000` on the stack leaves the machine there. -/
theorem step_of_ret {m : Machine} {r : Instruction} (hnext : m.next? = some r)
    (hret : r.opcode = .ret) {address : Word} {rest : Stack}
    (hpop : m.core.stack.pop? = some (address, rest)) (haddress : address.toNat < 0x8000) :
    m.step.pc = address ∧ m.step.core.stack = rest := by
  obtain ⟨hgoing, hfetch⟩ := next?_eq_some_iff.1 hnext
  obtain ⟨hperforms, -⟩ := step_of_ok hgoing hfetch
  have houtcome : m.outcome r =
      (.ok (.jump (address % modulus)), { m.core with stack := rest }) := by
    rw [outcome, Instruction.execute_ret hret, Deed.run_ret, hpop]
  have hpc := hperforms.pc
  have hstack := hperforms.core.stack
  rw [houtcome] at hpc hstack
  refine ⟨?_, hstack⟩
  rw [hpc, ← UInt16.toNat_inj, toNat_mod_modulus, Nat.mod_eq_of_lt haddress]

/-- **Calls and returns nest.** Once a `call` has succeeded, the address behind it stays where it
was put, with the older entries below, while the stack does not get any smaller. A `ret` at just
that depth takes the machine behind the `call` and leaves the stack as the `call` found it. -/
theorem call_returns {m : Machine} {i : Instruction} {effect : Effect} (hnext : m.next? = some i)
    (hcall : i.opcode = .call) (hsucceeds : (m.outcome i).1 = .ok effect) :
    ∃ back : Word, back.toNat = (m.pc.toNat + 2) % 32768 ∧
      ∀ n, (∀ j ≤ n, m.core.stack.depth + 1 ≤ (m.steps (j + 1)).core.stack.depth) →
        (∀ j ≤ n, m.core.stack.toList ++ [back] <+: (m.steps (j + 1)).core.stack.toList) ∧
        ∀ r, (m.steps (n + 1)).next? = some r → r.opcode = .ret →
          (m.steps (n + 1)).core.stack.depth = m.core.stack.depth + 1 →
          (m.steps (n + 2)).pc = back ∧ (m.steps (n + 2)).core.stack = m.core.stack := by
  obtain ⟨hgoing, hfetch⟩ := next?_eq_some_iff.1 hnext
  have hcalled : m.step.core.stack.toList = m.core.stack.toList ++ [m.behind i] := by
    rw [(step_of_ok hgoing hfetch).1.core.stack, outcome, Instruction.stack_call hcall hsucceeds,
      Stack.toList_push]
  have hback : (m.behind i).toNat = (m.pc.toNat + 2) % 32768 := by
    rw [toNat_behind, Instruction.length, hcall]
    rfl
  refine ⟨m.behind i, hback, fun n hdepth => ?_⟩
  have hkept : ∀ j ≤ n,
      m.core.stack.toList ++ [m.behind i] <+: (m.steps (j + 1)).core.stack.toList := by
    intro j hj
    rw [steps_succ]
    refine stack_steps (hcalled ▸ List.prefix_rfl) fun k hk => ?_
    rw [← steps_succ, List.length_append, Stack.length_toList, List.length_singleton]
    exact hdepth k (by omega)
  refine ⟨hkept, fun r hr hret hlevel => ?_⟩
  rw [steps_succ_last]
  exact step_of_ret hr hret (Stack.pop?_of_keeps (hkept n (Nat.le_refl n)) hlevel) (by omega)

/-- A machine that is to call a routine at 4, which puts out a letter and returns. -/
def caller : Machine := holding [17, 4, 0, 0, 19, 67, 18] (by decide)

/-- The call is made with nothing on the stack, and after the letter the machine is back behind
it. -/
theorem call_returns_letter :
    let call : Instruction := ⟨0, .call, 4, 0, 0⟩
    let ret : Instruction := ⟨6, .ret, 0, 0, 0⟩
    caller.next? = some call ∧ (caller.outcome call).1 = .ok (.jump 4) ∧
    (∀ j ≤ 1, 1 ≤ (caller.steps (j + 1)).core.stack.depth) ∧ (caller.steps 2).next? = some ret ∧
    ∃ back : Word, back.toNat = 2 ∧ [back] <+: (caller.steps 2).core.stack.toList ∧
      (caller.steps 3).pc = back ∧ (caller.steps 3).core.stack = .empty := by
  intro call ret
  have hnext : caller.next? = some call := by decide +kernel
  have hsucceeds : (caller.outcome call).1 = .ok (.jump 4) := by decide +kernel
  have hdepth : ∀ j ≤ 1, 1 ≤ (caller.steps (j + 1)).core.stack.depth := by decide +kernel
  have hret : (caller.steps 2).next? = some ret := by decide +kernel
  obtain ⟨back, hback, hreturns⟩ := call_returns hnext rfl hsucceeds
  obtain ⟨hkept, hends⟩ := hreturns 1 hdepth
  obtain ⟨hpc, hstack⟩ := hends ret hret rfl (by decide +kernel)
  exact ⟨hnext, hsucceeds, hdepth, hret, back, hback, hkept 1 (Nat.le_refl 1), hpc, hstack⟩

end Machine

end WordMachine
