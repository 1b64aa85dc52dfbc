import WordMachine.Text.Hex

/-! # JSON strings

A string between quotes is written with quotes, backslashes and control characters
escaped, and nothing else. Reading admits every escape; a character beyond the first plane
may be escaped as the two halves of a surrogate pair. A string whose escapes leave half of
a pair alone is no text; such a string may stand where nobody looks at it.
-/
namespace WordMachine

/-- The text of a string, unless its escapes leave half of a surrogate pair alone. -/
abbrev JsonText := Option String

namespace JsonText

/-! ## Writing -/

/-- The lower-case hexadecimal digit of a value below sixteen. -/
def hexDigit (n : Nat) : Char := if n < 10 then Char.ofNat (48 + n) else Char.ofNat (87 + n)

def escaped (c : Char) : List Char :=
  if c = '"' then ['\\', '"']
  else if c = '\\' then ['\\', '\\']
  else if c = '\x08' then ['\\', 'b']
  else if c = '\x09' then ['\\', 't']
  else if c = '\x0A' then ['\\', 'n']
  else if c = '\x0C' then ['\\', 'f']
  else if c = '\x0D' then ['\\', 'r']
  else if c.toNat < 0x20 then
    ['\\', 'u', '0', '0', hexDigit (c.toNat / 16), hexDigit (c.toNat % 16)]
  else [c]

/-- A string between quotes; half of a surrogate pair stands for a string that is no text. -/
def chars : JsonText → List Char
  | some s => '"' :: (s.toList.flatMap escaped ++ ['"'])
  | none => ['"', '\\', 'u', 'd', '8', '0', '0', '"']

/-! ## Reading -/

def hex4? (a b c d : Char) : Option Nat := do
  return (((← Hex.value? a) * 16 + (← Hex.value? b)) * 16 + (← Hex.value? c)) * 16
    + (← Hex.value? d)

/-- The code that a one-letter escape stands for. -/
def escape? : Char → Option Nat
  | '"' => some 0x22
  | '\\' => some 0x5C
  | '/' => some 0x2F
  | 'b' => some 0x08
  | 'f' => some 0x0C
  | 'n' => some 0x0A
  | 'r' => some 0x0D
  | 't' => some 0x09
  | _ => none

/-- The codes of a string up to its closing quote, and what follows the quote. -/
def codes? : List Char → Option (List Nat × List Char)
  | [] => none
  | '"' :: rest => some ([], rest)
  | '\\' :: 'u' :: a :: b :: c :: d :: rest => do
    let code ← hex4? a b c d
    let (codes, rest) ← codes? rest
    return (code :: codes, rest)
  | '\\' :: letter :: rest => do
    let code ← escape? letter
    let (codes, rest) ← codes? rest
    return (code :: codes, rest)
  | '\\' :: [] => none
  | c :: rest =>
    if c.toNat < 0x20 then none
    else do
      let (codes, rest) ← codes? rest
      return (c.toNat :: codes, rest)

def isHigh (code : Nat) : Bool := 0xD800 ≤ code && code < 0xDC00

def isLow (code : Nat) : Bool := 0xDC00 ≤ code && code < 0xE000

/-- The character whose surrogate pair has these halves. -/
def paired (high low : Nat) : Char :=
  Char.ofNat (0x10000 + (high - 0xD800) * 0x400 + (low - 0xDC00))

/-- The characters of codes, where the halves of a pair must stand together. -/
def decode? : List Nat → Option (List Char)
  | [] => some []
  | [code] => if isHigh code || isLow code then none else some [Char.ofNat code]
  | code :: next :: rest =>
    if isHigh code then
      if isLow next then (decode? rest).map (paired code next :: ·) else none
    else if isLow code then none
    else (decode? (next :: rest)).map (Char.ofNat code :: ·)

/-- The string whose opening quote stands before a text, and the rest of the text. -/
def read? (s : List Char) : Option (JsonText × List Char) := do
  let (codes, rest) ← codes? s
  return ((decode? codes).map String.ofList, rest)

theorem length_codes? {s rest : List Char} {codes : List Nat}
    (h : codes? s = some (codes, rest)) : rest.length ≤ s.length := by
  fun_induction codes? s generalizing codes with
  | case1 => cases h
  | case2 tail =>
    cases h
    exact Nat.le_succ _
  | case3 a b c d tail ih =>
    simp only [bind, Option.bind_eq_some_iff, pure, Option.some.injEq, Prod.mk.injEq,
      Prod.exists] at h
    obtain ⟨_, _, _, _, htail, -, rfl⟩ := h
    have := ih htail
    simp only [List.length_cons]
    omega
  | case4 letter tail _ ih =>
    simp only [bind, Option.bind_eq_some_iff, pure, Option.some.injEq, Prod.mk.injEq,
      Prod.exists] at h
    obtain ⟨_, _, _, _, htail, -, rfl⟩ := h
    have := ih htail
    simp only [List.length_cons]
    omega
  | case5 => cases h
  | case6 => cases h
  | case7 c tail _ _ _ _ _ ih =>
    simp only [bind, Option.bind_eq_some_iff, pure, Option.some.injEq, Prod.mk.injEq,
      Prod.exists] at h
    obtain ⟨_, _, htail, -, rfl⟩ := h
    have := ih htail
    simp only [List.length_cons]
    omega

theorem length_read? {s rest : List Char} {t : JsonText} (h : read? s = some (t, rest)) :
    rest.length ≤ s.length := by
  simp only [read?, bind, Option.bind_eq_some_iff, pure, Option.some.injEq, Prod.mk.injEq,
    Prod.exists] at h
  obtain ⟨_, _, hcodes, -, rfl⟩ := h
  exact length_codes? hcodes

end JsonText

end WordMachine
