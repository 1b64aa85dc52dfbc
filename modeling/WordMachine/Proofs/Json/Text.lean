import WordMachine.Json.Text

/-! # JSON strings are read as they are spelled

A string can be spelled in many ways: a character stands for itself, has a letter of its own behind
a backslash, or is given by the hexadecimal digits of its code. Whichever is chosen, the codes are
read back. What is written is one of these spellings, and no character has the code of half a
surrogate pair, so every text comes back, and the one written form of a string that is no text
comes back as such a string.
-/
namespace WordMachine.JsonText

/-! ## Spellings -/

/-- The codes of a string, and what may stand for them behind the opening quote. -/
inductive Body : List Nat → List Char → Prop where
  | close : Body [] ['"']
  | plain {c : Char} {codes : List Nat} {body : List Char} (hquote : c ≠ '"')
      (hbackslash : c ≠ '\\') (hcontrol : 0x20 ≤ c.toNat) (h : Body codes body) :
      Body (c.toNat :: codes) (c :: body)
  | letter {letter : Char} {code : Nat} {codes : List Nat} {body : List Char}
      (hletter : escape? letter = some code) (h : Body codes body) :
      Body (code :: codes) ('\\' :: letter :: body)
  | hex {a b c d : Char} {code : Nat} {codes : List Nat} {body : List Char}
      (hcode : hex4? a b c d = some code) (h : Body codes body) :
      Body (code :: codes) ('\\' :: 'u' :: a :: b :: c :: d :: body)

/-- The spellings of a string. One whose codes leave half of a surrogate pair alone spells no
text. -/
def Spelled (t : JsonText) (spelling : List Char) : Prop :=
  ∃ codes body, Body codes body ∧ t = (decode? codes).map String.ofList ∧ spelling = '"' :: body

theorem codes?_plain {c : Char} (hquote : c ≠ '"') (hbackslash : c ≠ '\\')
    (hcontrol : 0x20 ≤ c.toNat) (rest : List Char) :
    codes? (c :: rest) = (codes? rest).bind fun (codes, rest) => some (c.toNat :: codes, rest) := by
  have hnot : ¬ c.toNat < 0x20 := Nat.not_lt.2 hcontrol
  rw [codes?, if_neg hnot]
  · rfl
  all_goals simp_all

theorem codes?_letter {letter : Char} {code : Nat} (h : escape? letter = some code)
    (rest : List Char) :
    codes? ('\\' :: letter :: rest) =
      (codes? rest).bind fun (codes, rest) => some (code :: codes, rest) := by
  have hletter : letter ≠ 'u' := by
    rintro rfl
    cases h
  rw [codes?, h]
  · rfl
  all_goals simp_all

/-- The codes that a string is spelled with are read, up to its closing quote. -/
theorem codes?_of_body {codes : List Nat} {body : List Char} (h : Body codes body)
    (rest : List Char) : codes? (body ++ rest) = some (codes, rest) := by
  induction h with
  | close => rfl
  | plain hquote hbackslash hcontrol _ ih =>
    rw [List.cons_append, codes?_plain hquote hbackslash hcontrol, ih, Option.bind_some]
  | letter hletter _ ih =>
    rw [List.cons_append, List.cons_append, codes?_letter hletter, ih, Option.bind_some]
  | hex hcode _ ih =>
    simp only [List.cons_append, codes?, hcode, ih, bind, Option.bind, pure]

/-- **A string is read as it is spelled.** -/
theorem read?_of_body {codes : List Nat} {body : List Char} (h : Body codes body)
    (rest : List Char) : read? (body ++ rest) = some ((decode? codes).map String.ofList, rest) := by
  rw [read?, codes?_of_body h]
  rfl

/-! ## The written form -/

theorem hex4?_hexDigit : ∀ n < 0x20,
    hex4? '0' '0' (hexDigit (n / 16)) (hexDigit (n % 16)) = some n := by
  decide

/-- A character is escaped into a spelling of its code. -/
theorem body_escaped (c : Char) {codes : List Nat} {body : List Char} (h : Body codes body) :
    Body (c.toNat :: codes) (escaped c ++ body) := by
  unfold escaped
  -- the seven characters that have a letter of their own
  iterate 7
    split
    · subst c
      exact .letter rfl h
  split
  · exact .hex (hex4?_hexDigit c.toNat ‹_›) h
  · exact .plain ‹_› ‹_› (Nat.not_lt.1 ‹_›) h

theorem body_flatMap (cs : List Char) : Body (cs.map Char.toNat) (cs.flatMap escaped ++ ['"']) := by
  induction cs with
  | nil => exact .close
  | cons c cs ih =>
    rw [List.flatMap_cons, List.append_assoc]
    exact body_escaped c ih

/-- No character has the code of half a surrogate pair. -/
theorem not_surrogate (c : Char) : isHigh c.toNat = false ∧ isLow c.toNat = false := by
  have hvalid : c.toNat < 0xd800 ∨ 0xdfff < c.toNat ∧ c.toNat < 0x110000 := c.valid
  simp only [isHigh, isLow, Bool.and_eq_false_iff, decide_eq_false_iff_not]
  omega

theorem decode?_map (cs : List Char) : decode? (cs.map Char.toNat) = some cs := by
  induction cs with
  | nil => rfl
  | cons c cs ih =>
    obtain ⟨hhigh, hlow⟩ := not_surrogate c
    cases cs with
    | nil => simp [decode?, hhigh, hlow]
    | cons next rest =>
      simp only [List.map_cons] at ih ⊢
      simp [decode?, hhigh, hlow, ih]

/-- What is written of a string is one of its spellings. -/
theorem spelled_chars (t : JsonText) : t.Spelled (chars t) := by
  cases t with
  | some s =>
    refine ⟨_, _, body_flatMap s.toList, ?_, rfl⟩
    rw [decode?_map, Option.map_some, String.ofList_toList]
  | none => exact ⟨[0xD800], _, .hex rfl .close, rfl, rfl⟩

end WordMachine.JsonText
