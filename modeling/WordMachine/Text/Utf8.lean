/-! # Reading bytes as UTF-8

Every byte string has a text: each maximal part that begins no well-formed sequence
becomes one replacement character. The reader is a transducer that holds the sequence
it is in the middle of.
-/
namespace WordMachine.Utf8

/-- The character that stands for bytes that form no text. -/
def replacement : Char := '\uFFFD'

/-- What the bytes read so far leave open. -/
inductive State where
  | ready
  /-- Inside a sequence: `missing + 1` bytes are to come, the next within `low` and `high`. -/
  | inside (missing : Nat) (value : Nat) (low high : UInt8)
  deriving Repr, DecidableEq

/-- Starts a sequence with its first byte. -/
def start (b : UInt8) : List Char × State :=
  if b < 0x80 then ([Char.ofNat b.toNat], .ready)
  else if b < 0xC2 then ([replacement], .ready)
  else if b < 0xE0 then ([], .inside 0 (b.toNat - 0xC0) 0x80 0xBF)
  else if b = 0xE0 then ([], .inside 1 0 0xA0 0xBF)
  else if b = 0xED then ([], .inside 1 0xD 0x80 0x9F)
  else if b < 0xF0 then ([], .inside 1 (b.toNat - 0xE0) 0x80 0xBF)
  else if b = 0xF0 then ([], .inside 2 0 0x90 0xBF)
  else if b < 0xF4 then ([], .inside 2 (b.toNat - 0xF0) 0x80 0xBF)
  else if b = 0xF4 then ([], .inside 2 4 0x80 0x8F)
  else ([replacement], .ready)

/-- Takes one byte; a byte that does not fit cuts the open sequence off and starts anew. -/
def State.feed : State → UInt8 → List Char × State
  | .ready, b => start b
  | .inside missing value low high, b =>
    if low ≤ b ∧ b ≤ high then
      let value := value * 64 + (b.toNat - 0x80)
      match missing with
      | 0 => ([Char.ofNat value], .ready)
      | missing + 1 => ([], .inside missing value 0x80 0xBF)
    else
      let (chars, state) := start b
      (replacement :: chars, state)

def State.close : State → List Char
  | .ready => []
  | .inside .. => [replacement]

/-- The characters written for some bytes, newest first, and the state after them. -/
def read (bytes : List UInt8) : List Char × State :=
  bytes.foldl
    (fun (chars, state) b =>
      let (new, state) := state.feed b
      (new.reverse ++ chars, state))
    ([], .ready)

def decode (bytes : List UInt8) : String :=
  let (chars, state) := read bytes
  String.ofList (state.close ++ chars).reverse

end WordMachine.Utf8
