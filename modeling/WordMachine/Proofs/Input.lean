import WordMachine.Input

/-! # What a source has to offer

Two views of a source that do not show the borders of its chunks. Its events are what single
reads see one after the other, and reading an event takes the first of them away. What it
delivers are the bytes up to the first read that brings none, with the reason if that read
failed.
-/
namespace WordMachine.Input

theorem nextOf_eq (deliveries : List Delivery) :
    (nextOf deliveries).1 = (deliveries.flatMap eventsOf).headD .endOfInput ∧
      (nextOf deliveries).2.flatMap eventsOf = (deliveries.flatMap eventsOf).tail := by
  fun_induction nextOf deliveries with
  | case1 => exact ⟨rfl, rfl⟩
  | case2 rest ih => simpa [eventsOf] using ih
  | case3 b data rest => simp [eventsOf]
  | case4 data rest ih => simpa [eventsOf] using ih
  | case5 times rest ih => simpa [eventsOf] using ih
  | case6 b data times rest => simp [eventsOf, List.replicate_succ]
  | case7 rest ih => simpa [eventsOf] using ih
  | case8 reason rest => simp [eventsOf]
  | case9 rest => simp [eventsOf]

/-- Reading gives the first event, or the end of input when there is none. -/
theorem next_fst (input : Input) : input.next.1 = input.events.headD .endOfInput :=
  (nextOf_eq input.deliveries).1

/-- Reading leaves the events after the first. -/
theorem events_next (input : Input) : input.next.2.events = input.events.tail :=
  (nextOf_eq input.deliveries).2

/-- Either no event is left and reading finds the end of input, or reading takes the first. -/
theorem next_cases (input : Input) :
    (∃ rest, input.events = [] ∧ input.next = (.endOfInput, rest) ∧ rest.events = []) ∨
      ∃ event rest, input.events = event :: rest.events ∧ input.next = (event, rest) := by
  have hfirst := input.next_fst
  have hrest := input.events_next
  rcases hnext : input.next with ⟨event, rest⟩
  rw [hnext] at hfirst hrest
  cases hevents : input.events with
  | nil =>
    rw [hevents] at hfirst hrest
    obtain rfl : event = .endOfInput := hfirst
    exact .inl ⟨rest, rfl, rfl, hrest⟩
  | cons first others =>
    rw [hevents] at hfirst hrest
    obtain rfl : event = first := hfirst
    obtain rfl : rest.events = others := hrest
    exact .inr ⟨event, rest, rfl, rfl⟩

/-- The event that comes after so many others. Behind the last one the input has ended for good. -/
def event (input : Input) (k : Nat) : InputEvent := input.events[k]?.getD .endOfInput

theorem event_zero (input : Input) : input.event 0 = input.next.1 := by
  rw [next_fst, event, ← List.head?_eq_getElem?, List.headD_eq_head?_getD]

/-- Reading brings every later event one nearer. -/
theorem event_next (input : Input) (k : Nat) : input.next.2.event k = input.event (k + 1) := by
  rw [event, event, events_next, List.getElem?_tail]

/-- The sources have the same events. -/
def Agrees (first second : Input) : Prop := ∀ k, second.event k = first.event k

theorem Agrees.next {first second : Input} (h : first.Agrees second) :
    second.next.1 = first.next.1 ∧ first.next.2.Agrees second.next.2 := by
  constructor
  · rw [← event_zero, ← event_zero, h 0]
  · intro k
    rw [event_next, event_next, h (k + 1)]

/-! ## Deliveries up to the first that brings no bytes -/

/-- The bytes that the reads of these deliveries bring before one of them brings none or fails,
interruptions apart, and the reason if it failed. -/
def deliveredBy : List Delivery → List UInt8 × Option String
  | [] => ([], none)
  | .bytes data :: rest => (data ++ (deliveredBy rest).1, (deliveredBy rest).2)
  | .repeated data times :: rest =>
    ((List.replicate times data).flatten ++ (deliveredBy rest).1, (deliveredBy rest).2)
  | .interrupted :: rest => deliveredBy rest
  | .failure reason :: _ => ([], some reason)
  | .endOfInput :: _ => ([], none)

/-- The bytes that a source delivers before a read brings none or fails, and the reason if that
read failed. -/
def delivered (input : Input) : List UInt8 × Option String := deliveredBy input.deliveries

theorem deliveredBy_eq (deliveries : List Delivery) :
    deliveredBy deliveries =
      match nextOf deliveries with
      | (.byte b, rest) => (b :: (deliveredBy rest).1, (deliveredBy rest).2)
      | (.failure reason, _) => ([], some reason)
      | (.endOfInput, _) => ([], none) := by
  fun_induction nextOf deliveries with
  | case1 => rfl
  | case2 rest ih => simpa [deliveredBy] using ih
  | case3 b data rest => rfl
  | case4 data rest ih => simpa [deliveredBy] using ih
  | case5 times rest ih => simpa [deliveredBy] using ih
  | case6 b data times rest => simp [deliveredBy, List.replicate_succ]
  | case7 rest ih => exact ih
  | case8 reason rest => rfl
  | case9 rest => rfl

/-- A read takes the first delivered byte, if there is one. -/
theorem delivered_eq (input : Input) :
    input.delivered =
      match input.next with
      | (.byte b, rest) => (b :: rest.delivered.1, rest.delivered.2)
      | (.failure reason, _) => ([], some reason)
      | (.endOfInput, _) => ([], none) := by
  rw [delivered, deliveredBy_eq, next]
  rcases nextOf input.deliveries with ⟨_ | _ | _, rest⟩ <;> rfl

end WordMachine.Input
