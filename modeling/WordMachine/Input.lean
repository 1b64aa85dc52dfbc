/-! # Byte sources

A source hands out chunks of bytes, failures and ends of input in a scripted order, and
after the script the input has ended for good. A reader of single bytes that retries
interrupted reads sees neither the borders of the chunks nor the interruptions: `next`
takes one event off a source, and `events` lists all of them.
-/
namespace WordMachine

/-- What a source has ready for its readers. -/
inductive Delivery where
  /-- Bytes, handed out as far as each read asks for them; none at all is no delivery. -/
  | bytes (data : List UInt8)
  /-- The same bytes so many times over, handed out like one delivery after the other. -/
  | repeated (data : List UInt8) (times : Nat)
  /-- One read is interrupted before it delivers anything. -/
  | interrupted
  /-- One read fails for the stated reason. -/
  | failure (reason : String)
  /-- One read returns no bytes. -/
  | endOfInput
  deriving Repr, DecidableEq

/-- What a reader of single bytes sees once interrupted reads have been retried. -/
inductive InputEvent where
  | byte (value : UInt8)
  | failure (reason : String)
  | endOfInput
  deriving Repr, DecidableEq

structure Input where
  deliveries : List Delivery
  deriving Repr, DecidableEq

namespace Input

def empty : Input := ⟨[]⟩

/-- The source that delivers these bytes and then ends. -/
def ofBytes (data : List UInt8) : Input := ⟨[.bytes data]⟩

/-- The next event of a list of deliveries and what remains after it. -/
def nextOf : List Delivery → InputEvent × List Delivery
  | [] => (.endOfInput, [])
  | .bytes [] :: rest => nextOf rest
  | .bytes (b :: data) :: rest => (.byte b, .bytes data :: rest)
  | .repeated _ 0 :: rest => nextOf rest
  | .repeated [] (_ + 1) :: rest => nextOf rest
  | .repeated (b :: data) (times + 1) :: rest =>
    (.byte b, .bytes data :: .repeated (b :: data) times :: rest)
  | .interrupted :: rest => nextOf rest
  | .failure reason :: rest => (.failure reason, rest)
  | .endOfInput :: rest => (.endOfInput, rest)

/-- Reads single bytes until a read is not interrupted. -/
def next (input : Input) : InputEvent × Input :=
  let (event, rest) := nextOf input.deliveries
  (event, ⟨rest⟩)

def eventsOf : Delivery → List InputEvent
  | .bytes data => data.map .byte
  | .repeated data times => (List.replicate times (data.map .byte)).flatten
  | .interrupted => []
  | .failure reason => [.failure reason]
  | .endOfInput => [.endOfInput]

/-- The events before the input ends for good. -/
def events (input : Input) : List InputEvent := input.deliveries.flatMap eventsOf

def isSpent (input : Input) : Bool :=
  input.deliveries.all fun
    | .bytes data => data.isEmpty
    | .repeated data times => data.isEmpty || times == 0
    | .interrupted => true
    | _ => false

end Input

end WordMachine
