import WordMachine.Json.Number

/-! # JSON numbers are read as they are written

A number is spelled in one way, but that its exponent is marked by a letter of either case. Nothing
marks the end of a number but that what follows cannot go on with it. Where that is so, what is read
back are the digits that were written: no number is rounded, however long it is.
-/
namespace WordMachine.JsonNumber

/-- Nothing comes next that could go on with a number. -/
def Ended : List Char → Prop
  | [] => True
  | c :: _ => digit? c = none ∧ c ≠ '.' ∧ c ≠ 'e' ∧ c ≠ 'E'

/-- What comes next is not a digit. -/
def NoDigit : List Char → Prop
  | [] => True
  | c :: _ => digit? c = none

theorem Ended.noDigit {rest : List Char} (h : Ended rest) : NoDigit rest := by
  cases rest with
  | nil => trivial
  | cons c tail => exact h.1

/-! ## Digits -/

theorem digit?_digitChar (d : Fin 10) : digit? (digitChar d) = some d := by
  decide +revert

theorem digitChar_eq (d : Fin 10) : Nat.digitChar d.val = digitChar d := by
  decide +revert

/-- Digits are read up to what is not a digit. -/
theorem digits_append (ds : List (Fin 10)) {rest : List Char} (h : NoDigit rest) :
    digits (ds.map digitChar ++ rest) = (ds, rest) := by
  induction ds with
  | nil =>
    cases rest with
    | nil => rfl
    | cons c tail =>
      have hc : digit? c = none := h
      simp only [List.map_nil, List.nil_append, digits, hc]
  | cons d ds ih =>
    simp only [List.map_cons, List.cons_append, digits, digit?_digitChar, ih]

theorem natOfDigits_concat (ds : List (Fin 10)) (d : Fin 10) :
    natOfDigits (ds ++ [d]) = natOfDigits ds * 10 + d.val := by
  rw [natOfDigits_eq_foldl, natOfDigits_eq_foldl, List.foldl_append]
  rfl

/-- A number is written with at least one digit, and with a leading zero only if it is zero. -/
theorem exists_digits (n : Nat) :
    ∃ d ds, Nat.toDigits 10 n = (d :: ds).map digitChar ∧ natOfDigits (d :: ds) = n ∧
      (d = 0 → ds = []) := by
  induction n using Nat.strongRecOn with
  | ind n ih =>
    rcases Nat.lt_or_ge n 10 with hsmall | hlarge
    · refine ⟨⟨n, hsmall⟩, [], ?_, ?_, fun _ => rfl⟩
      · rw [Nat.toDigits_of_lt_base hsmall, digitChar_eq ⟨n, hsmall⟩]
        rfl
      · rw [natOfDigits_eq_foldl]
        exact Nat.zero_add n
    · obtain ⟨d, ds, hchars, hvalue, hzero⟩ := ih (n / 10) (by omega)
      refine ⟨d, ds ++ [⟨n % 10, Nat.mod_lt n (by decide)⟩], ?_, ?_, fun h => ?_⟩
      · rw [Nat.toDigits_of_base_le (by decide) hlarge, hchars,
          digitChar_eq ⟨n % 10, Nat.mod_lt n (by decide)⟩, ← List.cons_append, List.map_append]
        rfl
      · rw [← List.cons_append, natOfDigits_concat, hvalue]
        exact Nat.div_add_mod' n 10
      · -- a leading zero would be all of `n / 10`
        obtain rfl := hzero h
        rw [h, natOfDigits_eq_foldl] at hvalue
        have hnone : n / 10 = 0 := hvalue.symm
        omega

theorem whole?_digits {d : Fin 10} {ds : List (Fin 10)} (h : d = 0 → ds = []) :
    whole? (d :: ds) = some (natOfDigits (d :: ds)) := by
  cases ds with
  | nil =>
    rw [natOfDigits_eq_foldl]
    exact congrArg some (Nat.zero_add d.val).symm
  | cons e es =>
    have hd : d ≠ 0 := fun hzero => by cases h hzero
    rw [whole?, if_neg hd]
    exact List.cons_ne_nil e es

/-! ## The parts of a number -/

theorem fraction?_chars (ds : List (Fin 10)) {rest : List Char} (h : NoDigit rest)
    (hpoint : ∀ tail, rest ≠ '.' :: tail) :
    fraction? (fractionChars ds ++ rest) = some (ds, rest) := by
  cases ds with
  | nil =>
    unfold fractionChars fraction?
    split
    · exact absurd ‹_› (hpoint _)
    · rfl
  | cons d ds =>
    simp only [fractionChars, List.cons_append, fraction?, digits_append _ h]

theorem digitChar_ne_sign (d : Fin 10) : digitChar d ≠ '+' ∧ digitChar d ≠ '-' := by
  decide +revert

theorem exponentSign_chars (sign : ExponentSign) (d : Fin 10) (rest : List Char) :
    exponentSign (signChars sign ++ digitChar d :: rest) = (sign, digitChar d :: rest) := by
  cases sign with
  | plus | minus => rfl
  | none =>
    obtain ⟨hplus, hminus⟩ := digitChar_ne_sign d
    show exponentSign (digitChar d :: rest) = _
    unfold exponentSign
    split
    · exact absurd (List.cons.inj ‹_›).1 hplus
    · exact absurd (List.cons.inj ‹_›).1 hminus
    · rfl

/-- The letters that may stand in front of an exponent. -/
def IsMark (mark : Char) : Prop := mark = 'e' ∨ mark = 'E'

/-- An exponent behind its mark. -/
def exponentBehind (mark : Char) : Option Exponent → List Char
  | none => []
  | some e => mark :: (signChars e.sign ++ digitChar e.first :: e.further.map digitChar)

theorem exponentChars_eq (e : Option Exponent) : exponentChars e = exponentBehind 'e' e := by
  cases e <;> rfl

theorem exponent?_behind {mark : Char} (hmark : IsMark mark) (e : Option Exponent)
    {rest : List Char} (h : Ended rest) :
    exponent? (exponentBehind mark e ++ rest) = some (e, rest) := by
  cases e with
  | none =>
    cases rest with
    | nil => rfl
    | cons c tail =>
      have hplain : ¬ (c = 'e' ∨ c = 'E') := not_or.2 ⟨h.2.2.1, h.2.2.2⟩
      show exponent? (c :: tail) = _
      rw [exponent?, if_neg hplain]
  | some e =>
    have hdigits := digits_append (e.first :: e.further) h.noDigit
    have hchars : exponentBehind mark (some e) ++ rest = mark :: (signChars e.sign ++
        digitChar e.first :: (e.further.map digitChar ++ rest)) := by
      simp [exponentBehind]
    have hletter : mark = 'e' ∨ mark = 'E' := hmark
    rw [List.map_cons, List.cons_append] at hdigits
    rw [hchars, exponent?, if_pos hletter, exponentSign_chars, hdigits]

/-- What follows the digits of a number is not one of them, nor is the exponent a point. -/
theorem exponentBehind_follow {mark : Char} (hmark : IsMark mark) (e : Option Exponent)
    {rest : List Char} (h : Ended rest) :
    NoDigit (exponentBehind mark e ++ rest) ∧
      ∀ tail, exponentBehind mark e ++ rest ≠ '.' :: tail := by
  cases e with
  | some e => rcases hmark with rfl | rfl <;> exact ⟨rfl, nofun⟩
  | none =>
    refine ⟨h.noDigit, fun tail htail => ?_⟩
    rw [exponentBehind, List.nil_append] at htail
    rw [htail] at h
    exact h.2.1 rfl

theorem fractionChars_follow (ds : List (Fin 10)) {rest : List Char} (h : NoDigit rest) :
    NoDigit (fractionChars ds ++ rest) := by
  cases ds with
  | nil => exact h
  | cons d ds =>
    show digit? '.' = none
    decide

/-! ## Whole numbers -/

/-- A number without its sign, with this mark in front of its exponent. -/
def unsignedChars (mark : Char) (n : JsonNumber) : List Char :=
  Nat.toDigits 10 n.whole ++ (fractionChars n.fraction ++ exponentBehind mark n.exponent)

/-- The spellings of a number. -/
def Spelled (n : JsonNumber) (spelling : List Char) : Prop :=
  ∃ mark, IsMark mark ∧
    spelling = if n.negative then '-' :: n.unsignedChars mark else n.unsignedChars mark

theorem spelled_chars (n : JsonNumber) : n.Spelled n.chars := by
  refine ⟨'e', .inl rfl, ?_⟩
  rw [chars, unsignedChars, exponentChars_eq]
  cases n.negative <;> simp

/-- **A number is read as it is written**, whatever its sign, its length and its exponent. -/
theorem read?_unsignedChars {mark : Char} (hmark : IsMark mark) (n : JsonNumber) {rest : List Char}
    (h : Ended rest) : read? n.negative (n.unsignedChars mark ++ rest) = some (n, rest) := by
  obtain ⟨d, ds, hchars, hvalue, hzero⟩ := exists_digits n.whole
  obtain ⟨hexponent, hpoint⟩ := exponentBehind_follow hmark n.exponent h
  have hfraction := fractionChars_follow n.fraction hexponent
  have hwhole : whole? (d :: ds) = some n.whole := by rw [whole?_digits hzero, hvalue]
  rw [unsignedChars, hchars, List.append_assoc, List.append_assoc, read?, digits_append _ hfraction]
  simp only [hwhole, fraction?_chars n.fraction hexponent hpoint,
    exponent?_behind hmark n.exponent h, bind, Option.bind]
  rfl

/-- A number starts with a digit, once its sign is gone. -/
theorem exists_unsignedChars (mark : Char) (n : JsonNumber) :
    ∃ d rest, n.unsignedChars mark = digitChar d :: rest := by
  obtain ⟨d, ds, hchars, -⟩ := exists_digits n.whole
  exact ⟨d, _, by rw [unsignedChars, hchars, List.map_cons, List.cons_append]⟩

end WordMachine.JsonNumber
