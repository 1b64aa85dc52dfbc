/-! # JSON numbers

A number keeps the digits it is written with, so none passes through a binary fraction.
Its whole part has no leading zeros, and its point and its exponent are followed by at
least one digit each; so every number here has a written form, given by `chars`, and
`read?` takes a number off the front of a text.
-/
namespace WordMachine

inductive ExponentSign where
  | none | plus | minus
  deriving Repr, DecidableEq

/-- The power of ten that a number is written with. -/
structure Exponent where
  sign : ExponentSign
  first : Fin 10
  further : List (Fin 10)
  deriving Repr, DecidableEq

/-- A number by its written parts. -/
structure JsonNumber where
  negative : Bool
  whole : Nat
  /-- The digits after the point; no digits mean that there is no point. -/
  fraction : List (Fin 10)
  exponent : Option Exponent
  deriving Repr, DecidableEq

namespace JsonNumber

/-- The number that is written with the decimal digits of `n` alone. -/
def ofNat (n : Nat) : JsonNumber := ⟨false, n, [], none⟩

/-- The value of a number that is written with digits alone. -/
def toNat? : JsonNumber → Option Nat
  | ⟨false, n, [], none⟩ => some n
  | _ => none

/-! ## Writing -/

def digitChar (d : Fin 10) : Char := Char.ofNat (48 + d.val)

def signChars : ExponentSign → List Char
  | .none => []
  | .plus => ['+']
  | .minus => ['-']

def fractionChars : List (Fin 10) → List Char
  | [] => []
  | ds => '.' :: ds.map digitChar

def exponentChars : Option Exponent → List Char
  | none => []
  | some e => 'e' :: (signChars e.sign ++ digitChar e.first :: e.further.map digitChar)

def chars (n : JsonNumber) : List Char :=
  (if n.negative then ['-'] else []) ++ Nat.toDigits 10 n.whole ++ fractionChars n.fraction
    ++ exponentChars n.exponent

/-! ## Reading -/

def digit? (c : Char) : Option (Fin 10) :=
  if h : 48 ≤ c.toNat ∧ c.toNat < 58 then some ⟨c.toNat - 48, by omega⟩ else none

/-- The digits that a text starts with, and the rest. -/
def digits : List Char → List (Fin 10) × List Char
  | [] => ([], [])
  | c :: rest =>
    match digit? c with
    | some d => (d :: (digits rest).1, (digits rest).2)
    | none => ([], c :: rest)

/-- Joins neighbouring blocks of digits. A block is its value and the power of ten by which it
moves what stands to its left. -/
def joinBlocks : List (Nat × Nat) → List (Nat × Nat)
  | (v, p) :: (w, q) :: rest => (v * q + w, p * q) :: joinBlocks rest
  | rest => rest

/-- The number that blocks of digits write from the left, after a number to their left. -/
def natOfBlocks (left : Nat) (blocks : List (Nat × Nat)) : Nat :=
  blocks.foldl (fun n (v, p) => n * p + v) left

/-- The number that digits write from the left. Digits are joined to pairs, pairs to fours and
so on, so that even a very long number is found by few multiplications of long numbers. -/
def natOfDigits (ds : List (Fin 10)) : Nat :=
  natOfBlocks 0 ((Nat.log2 ds.length + 1).repeat joinBlocks (ds.map fun d => (d.val, 10)))

theorem natOfBlocks_joinBlocks (left : Nat) (blocks : List (Nat × Nat)) :
    natOfBlocks left (joinBlocks blocks) = natOfBlocks left blocks := by
  fun_induction joinBlocks blocks generalizing left with
  | case1 v p w q rest ih =>
    have hleft : left * (p * q) + (v * q + w) = (left * p + v) * q + w := by
      rw [Nat.add_mul, Nat.mul_assoc, Nat.add_assoc]
    simpa only [natOfBlocks, List.foldl_cons, hleft] using ih ((left * p + v) * q + w)
  | case2 => rfl

/-- However the digits are joined, each moves what stands to its left by one place. -/
theorem natOfDigits_eq_foldl (ds : List (Fin 10)) :
    natOfDigits ds = ds.foldl (fun n d => n * 10 + d.val) 0 := by
  have hjoin : ∀ rounds blocks,
      natOfBlocks 0 (Nat.repeat joinBlocks rounds blocks) = natOfBlocks 0 blocks := by
    intro rounds
    induction rounds with
    | zero => intro blocks; rfl
    | succ rounds ih =>
      intro blocks
      rw [Nat.repeat, natOfBlocks_joinBlocks, ih]
  rw [natOfDigits, hjoin, natOfBlocks, List.foldl_map]

/-- The whole part of a number: at least one digit, and no zero in front of others. -/
def whole? : List (Fin 10) → Option Nat
  | [] => none
  | [d] => some d.val
  | d :: ds => if d = 0 then none else some (natOfDigits (d :: ds))

def fraction? : List Char → Option (List (Fin 10) × List Char)
  | '.' :: rest =>
    match digits rest with
    | ([], _) => none
    | (ds, rest) => some (ds, rest)
  | rest => some ([], rest)

def exponentSign : List Char → ExponentSign × List Char
  | '+' :: rest => (.plus, rest)
  | '-' :: rest => (.minus, rest)
  | rest => (.none, rest)

def exponent? : List Char → Option (Option Exponent × List Char)
  | [] => some (none, [])
  | c :: rest =>
    if c = 'e' ∨ c = 'E' then
      match digits (exponentSign rest).2 with
      | ([], _) => none
      | (d :: ds, after) => some (some ⟨(exponentSign rest).1, d, ds⟩, after)
    else some (none, c :: rest)

/-- A number at the start of a text, after its sign, and the rest. -/
def read? (negative : Bool) (s : List Char) : Option (JsonNumber × List Char) := do
  let whole ← whole? (digits s).1
  let (fraction, rest) ← fraction? (digits s).2
  let (exponent, rest) ← exponent? rest
  return (⟨negative, whole, fraction, exponent⟩, rest)

theorem length_digits (s : List Char) : (digits s).2.length ≤ s.length := by
  fun_induction digits s with
  | case1 => exact Nat.le_refl _
  | case2 c rest d hd ih =>
    exact Nat.le_succ_of_le ih
  | case3 => exact Nat.le_refl _

theorem length_digits_lt {s : List Char} (h : (digits s).1 ≠ []) :
    (digits s).2.length < s.length := by
  cases s with
  | nil => exact absurd rfl h
  | cons c rest =>
    have hrest := length_digits rest
    cases hd : digit? c with
    | none => simp [digits, hd] at h
    | some d =>
      simp only [digits, hd, List.length_cons]
      omega

theorem length_fraction? {s rest : List Char} {ds : List (Fin 10)}
    (h : fraction? s = some (ds, rest)) : rest.length ≤ s.length := by
  unfold fraction? at h
  split at h
  · rename_i tail
    have htail := length_digits tail
    split at h
    · cases h
    · rename_i heq
      cases h
      rw [heq] at htail
      exact Nat.le_succ_of_le htail
  · cases h
    exact Nat.le_refl _

theorem length_exponentSign (s : List Char) : (exponentSign s).2.length ≤ s.length := by
  unfold exponentSign
  split <;> simp

theorem length_exponent? {s rest : List Char} {e : Option Exponent}
    (h : exponent? s = some (e, rest)) : rest.length ≤ s.length := by
  unfold exponent? at h
  split at h
  · cases h
    exact Nat.le_refl _
  · rename_i c tail
    have hsign := length_exponentSign tail
    have hdigits := length_digits (exponentSign tail).2
    split at h
    · split at h
      · cases h
      · rename_i heq
        cases h
        rw [heq] at hdigits
        exact Nat.le_succ_of_le (Nat.le_trans hdigits hsign)
    · cases h
      exact Nat.le_refl _

/-- A number takes at least one character. -/
theorem length_read? {negative : Bool} {s rest : List Char} {n : JsonNumber}
    (h : read? negative s = some (n, rest)) : rest.length < s.length := by
  simp only [read?, bind, Option.bind_eq_some_iff, pure, Option.some.injEq, Prod.mk.injEq,
    Prod.exists] at h
  obtain ⟨whole, hwhole, fraction, r, hfraction, exponent, after, hexponent, -, rfl⟩ := h
  have hne : (digits s).1 ≠ [] := by
    intro hnil
    rw [hnil] at hwhole
    cases hwhole
  have hdigits := length_digits_lt hne
  have hfraction := length_fraction? hfraction
  have hexponent := length_exponent? hexponent
  omega

end JsonNumber

end WordMachine
