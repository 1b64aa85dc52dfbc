import WordMachine.Input
import WordMachine.Log
import WordMachine.Ram

/-! # Program images

An image is a sequence of words, low byte first, without a header. It is read completely
before anything is stored, so a failed load leaves memory as it was. An image may fill
the address space but not exceed it.
-/
namespace WordMachine

inductive ImageError where
  /-- The source failed for the stated reason. -/
  | unreadable (reason : String)
  /-- The bytes end in the middle of a word, whose first byte is at the offset. -/
  | danglingByte (offset : Nat)
  /-- More words were read than the address space holds. -/
  | tooLarge (words : Nat)
  deriving Repr, DecidableEq

namespace ImageError

def message : ImageError → String
  | unreadable reason => "failed to read program image: " ++ reason
  | danglingByte offset =>
    "program image ends with a dangling byte at offset " ++ toString offset
  | tooLarge words =>
    "program image exceeds the address space (" ++ toString words ++ " words read)"

/-- The wordings of an error and of what it was caused by. -/
def chain : ImageError → List String
  | unreadable reason => [(unreadable reason).message, reason]
  | error => [error.message]

end ImageError

namespace Image

/-- The bytes of one word, as far as the source has them. -/
inductive Pair where
  | none
  | half
  | full (word : Word)
  deriving Repr, DecidableEq

/-- Takes the bytes of the next word off a source. -/
def takePair (input : Input) : Except ImageError (Pair × Input) :=
  match input.next with
  | (.failure reason, _) => .error (.unreadable reason)
  | (.endOfInput, rest) => .ok (.none, rest)
  | (.byte low, rest) =>
    match rest.next with
    | (.failure reason, _) => .error (.unreadable reason)
    | (.endOfInput, rest) => .ok (.half, rest)
    | (.byte high, rest) => .ok (.full (wordOfBytes low high), rest)

/-- Reads words up to the end of a source, given how many more fit and those already read,
the newest first. -/
def readOnto (room : Nat) (newest : List Word) (input : Input) : Except ImageError (List Word) :=
  match takePair input with
  | .error error => .error error
  | .ok (.none, _) => .ok newest.reverse
  | .ok (.half, _) => .error (.danglingByte (2 * newest.length))
  | .ok (.full word, rest) =>
    match room with
    | 0 => .error (.tooLarge (newest.length + 1))
    | room + 1 => readOnto room (word :: newest) rest

def read (input : Input) : Except ImageError (List Word) := readOnto ramSize [] input

/-- Reads an image and copies it to address 0; gives the number of its words. -/
def load (input : Input) (ram : Ram) (log : Log) : Except ImageError (Nat × Ram × Log) := do
  let words ← read input
  return (words.length, ram.setFrom 0 words, log.add (.imageLoaded words.length))

end Image

end WordMachine
