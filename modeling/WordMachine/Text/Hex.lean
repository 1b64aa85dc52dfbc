import WordMachine.Word

/-! # Hexadecimal addresses

Addresses are written `0x` and four upper-case digits. Reading is laxer: any number of
`0x` marks, then any number of `0X` marks, then one optional plus sign, then digits of
either case with any number of leading zeros.
-/
namespace WordMachine.Hex

/-- The upper-case digit of a value below sixteen. -/
def digit (n : Nat) : Char :=
  if n < 10 then Char.ofNat (48 + n) else Char.ofNat (55 + n)

/-- The four digits of a word, most significant first. -/
def digits (w : Word) : List Char :=
  [digit (w.toNat / 4096), digit (w.toNat / 256 % 16), digit (w.toNat / 16 % 16),
    digit (w.toNat % 16)]

def render (w : Word) : String := String.ofList ('0' :: 'x' :: digits w)

/-- The value of a digit of either case. -/
def value? (c : Char) : Option Nat :=
  if '0' ≤ c ∧ c ≤ '9' then some (c.toNat - 48)
  else if 'a' ≤ c ∧ c ≤ 'f' then some (c.toNat - 87)
  else if 'A' ≤ c ∧ c ≤ 'F' then some (c.toNat - 55)
  else none

inductive Error where
  | empty
  | invalidDigit
  | tooLarge
  deriving Repr, DecidableEq

def Error.message : Error → String
  | .empty => "cannot parse integer from empty string"
  | .invalidDigit => "invalid digit found in string"
  | .tooLarge => "number too large to fit in target type"

/-- Drops every leading `0x`, where `mark` is the letter that follows the zero. -/
def dropMarks (mark : Char) : List Char → List Char
  | '0' :: c :: rest => if c = mark then dropMarks mark rest else '0' :: c :: rest
  | text => text

/-- Reads digits from the left onto `acc`; the first fault met decides the error. -/
def readDigits (acc : Nat) : List Char → Except Error Nat
  | [] => .ok acc
  | c :: rest =>
    match value? c with
    | none => .error .invalidDigit
    | some d =>
      if acc * 16 + d < 0x10000 then readDigits (acc * 16 + d) rest else .error .tooLarge

/-- Reads a number of at least one digit after an optional plus sign. -/
def readNumber : List Char → Except Error Nat
  | [] => .error .empty
  | ['+'] => .error .invalidDigit
  | '+' :: rest => readDigits 0 rest
  | text => readDigits 0 text

def parse (text : String) : Except Error Word :=
  (readNumber (dropMarks 'X' (dropMarks 'x' text.toList))).map Nat.toUInt16

end WordMachine.Hex
