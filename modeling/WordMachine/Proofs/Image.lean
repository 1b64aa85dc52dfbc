import WordMachine.Machine.Basic
import WordMachine.Proofs.Input
import WordMachine.Proofs.Store

/-! # Loading images

The bytes that a source delivers, and the failure that ended them if there was one, decide
what reading an image gives. The chunks in which they come, the interruptions between them,
and everything behind their end do not matter. What was read reaches memory as a whole or
not at all.
-/
namespace WordMachine

namespace Image

/-- The bytes of words, low bytes first. -/
def encode (words : List Word) : List UInt8 := words.flatMap bytesOfWord

/-- The words that bytes encode, but for the last byte of an odd number. -/
def wordsOf : List UInt8 → List Word
  | low :: high :: rest => wordOfBytes low high :: wordsOf rest
  | _ => []

theorem encode_cons (w : Word) (rest : List Word) : encode (w :: rest) = bytesOfWord w ++ encode rest :=
  List.flatMap_cons

theorem length_encode (words : List Word) : (encode words).length = 2 * words.length := by
  induction words with
  | nil => rfl
  | cons w rest ih =>
    rw [encode_cons, List.length_append, ih, List.length_cons]
    simp [bytesOfWord]
    omega

theorem wordsOf_encode (words : List Word) : wordsOf (encode words) = words := by
  induction words with
  | nil => rfl
  | cons w rest ih =>
    show wordOfBytes w.toUInt8 (w >>> 8).toUInt8 :: wordsOf (encode rest) = w :: rest
    rw [wordOfBytes_bytesOfWord, ih]

theorem encode_wordsOf {data : List UInt8} (heven : data.length % 2 ≠ 1) :
    encode (wordsOf data) = data := by
  fun_induction wordsOf data with
  | case1 low high rest ih =>
    simp only [List.length_cons] at heven
    rw [encode_cons, bytesOfWord_wordOfBytes, ih (by omega)]
    rfl
  | case2 data hshort =>
    match data with
    | [] => rfl
    | [b] => exact absurd rfl heven
    | low :: high :: rest => exact absurd rfl (hshort low high rest)

/-- What the bytes delivered by a source, with the reason of the failure behind them if there
was one, make of reading an image. Since bytes encode at most one list of words, they leave no
choice. -/
inductive Decodes (data : List UInt8) :
    Option String → Except ImageError (List Word) → Prop where
  /-- There are bytes for more words than there are cells; what follows them is not asked for. -/
  | tooLarge {failure : Option String} (hlong : 0x10002 ≤ data.length) :
      Decodes data failure (.error (.tooLarge 0x8001))
  /-- The source failed, on whichever byte of a word. -/
  | unreadable {reason : String} (hshort : data.length < 0x10002) :
      Decodes data (some reason) (.error (.unreadable reason))
  /-- The bytes end in the middle of a word. -/
  | danglingByte (hshort : data.length < 0x10002) (hodd : data.length % 2 = 1) :
      Decodes data none (.error (.danglingByte (data.length - 1)))
  /-- The bytes are those of the words. -/
  | words {words : List Word} (hshort : data.length < 0x10002) (hdata : encode words = data) :
      Decodes data none (.ok words)

/-- What the rest of a source makes of an image, given how many more words fit and those
already read, the newest first. -/
def decodeOnto (room : Nat) (newest : List Word) (data : List UInt8) (failure : Option String) :
    Except ImageError (List Word) :=
  if 2 * (room + 1) ≤ data.length then .error (.tooLarge (newest.length + room + 1))
  else
    match failure with
    | some reason => .error (.unreadable reason)
    | none =>
      if data.length % 2 = 1 then .error (.danglingByte (2 * newest.length + data.length - 1))
      else .ok (newest.reverse ++ wordsOf data)

theorem decodes_iff (data : List UInt8) (failure : Option String)
    (result : Except ImageError (List Word)) :
    Decodes data failure result ↔ decodeOnto ramSize [] data failure = result := by
  have hsize : 2 * (ramSize + 1) = 0x10002 := rfl
  unfold decodeOnto
  rw [hsize]
  constructor
  · intro h
    cases h with
    | tooLarge hlong => rw [if_pos hlong]; rfl
    | unreadable hshort => rw [if_neg (by omega)]
    | danglingByte hshort hodd => simp [hodd, Nat.not_le.2 hshort]
    | @words words hshort hdata =>
      have heven : data.length % 2 ≠ 1 := by
        rw [← hdata, length_encode]
        omega
      have hwords : wordsOf data = words := by rw [← hdata, wordsOf_encode]
      simp [heven, hwords, Nat.not_le.2 hshort]
  · intro h
    by_cases hlong : 0x10002 ≤ data.length
    · rw [if_pos hlong] at h
      exact h ▸ .tooLarge hlong
    · rw [if_neg hlong] at h
      have hshort := Nat.lt_of_not_le hlong
      cases failure with
      | some reason => exact h ▸ .unreadable hshort
      | none =>
        by_cases hodd : data.length % 2 = 1
        · simp only [hodd, if_true, List.length_nil, Nat.mul_zero, Nat.zero_add] at h
          exact h ▸ .danglingByte hshort hodd
        · simp only [hodd, if_false, List.reverse_nil, List.nil_append] at h
          exact h ▸ .words hshort (encode_wordsOf hodd)

/-- The four ways to take the bytes of a word off a source. -/
theorem takePair_cases (input : Input) :
    (∃ reason, takePair input = .error (.unreadable reason) ∧
      input.delivered.1.length < 2 ∧ input.delivered.2 = some reason) ∨
    (∃ rest, takePair input = .ok (.none, rest) ∧ input.delivered = ([], none)) ∨
    (∃ b rest, takePair input = .ok (.half, rest) ∧ input.delivered = ([b], none)) ∨
    ∃ low high rest, takePair input = .ok (.full (wordOfBytes low high), rest) ∧
      input.delivered = (low :: high :: rest.delivered.1, rest.delivered.2) := by
  have hfirst := input.delivered_eq
  unfold takePair
  rcases hlow : input.next with ⟨low | reason | _, rest⟩
  · have hsecond := rest.delivered_eq
    simp only [hlow] at hfirst ⊢
    rcases hhigh : rest.next with ⟨high | reason | _, others⟩
    · simp only [hhigh] at hsecond
      rw [hsecond] at hfirst
      exact .inr (.inr (.inr ⟨low, high, others, rfl, hfirst⟩))
    · simp only [hhigh] at hsecond
      rw [hsecond] at hfirst
      exact .inl ⟨reason, rfl, by rw [hfirst]; exact Nat.lt_add_one 1, by rw [hfirst]⟩
    · simp only [hhigh] at hsecond
      rw [hsecond] at hfirst
      exact .inr (.inr (.inl ⟨low, others, rfl, hfirst⟩))
  · rw [hlow] at hfirst
    exact .inl ⟨reason, rfl, by rw [hfirst]; exact Nat.zero_lt_two, by rw [hfirst]⟩
  · rw [hlow] at hfirst
    exact .inr (.inl ⟨rest, rfl, hfirst⟩)

/-- A word more fits on those already read if there is room. -/
theorem decodeOnto_full (room : Nat) (newest : List Word) (low high : UInt8) (data : List UInt8)
    (failure : Option String) :
    decodeOnto (room + 1) newest (low :: high :: data) failure =
      decodeOnto room (wordOfBytes low high :: newest) data failure := by
  have hlength : (low :: high :: data).length = data.length + 2 := rfl
  have hlong : 2 * (room + 1 + 1) ≤ data.length + 2 ↔ 2 * (room + 1) ≤ data.length := by omega
  have hcount : newest.length + (room + 1) + 1 = newest.length + 1 + room + 1 := by omega
  have hoffset : 2 * newest.length + (data.length + 2) - 1 =
      2 * (newest.length + 1) + data.length - 1 := by omega
  simp only [decodeOnto, hlength, hlong, hcount, hoffset, List.length_cons, Nat.add_mod_right,
    wordsOf, List.reverse_cons, List.append_assoc, List.singleton_append]

theorem readOnto_eq (room : Nat) (newest : List Word) (input : Input) :
    readOnto room newest input = decodeOnto room newest input.delivered.1 input.delivered.2 := by
  induction room generalizing newest input with
  | zero =>
    unfold readOnto decodeOnto
    rcases takePair_cases input with ⟨reason, htake, hshort, hfailure⟩ | ⟨rest, htake, hall⟩ |
      ⟨b, rest, htake, hall⟩ | ⟨low, high, rest, htake, hall⟩
    · rw [htake, hfailure, if_neg (by omega)]
    · simp [htake, hall, wordsOf]
    · simp [htake, hall]
    · simp [htake, hall]
  | succ room ih =>
    rw [readOnto]
    rcases takePair_cases input with ⟨reason, htake, hshort, hfailure⟩ | ⟨rest, htake, hall⟩ |
      ⟨b, rest, htake, hall⟩ | ⟨low, high, rest, htake, hall⟩
    · unfold decodeOnto
      rw [htake, hfailure, if_neg (by omega)]
    · simp [htake, hall, decodeOnto, wordsOf]
    · have hroom : 1 < 2 * (room + 1 + 1) := by omega
      simp [htake, hall, decodeOnto, hroom]
    · rw [htake, hall, decodeOnto_full]
      exact ih _ rest

/-- What is delivered decides what is read, and every outcome of reading is accounted for. -/
theorem read_iff (source : Input) (result : Except ImageError (List Word)) :
    read source = result ↔ Decodes source.delivered.1 source.delivered.2 result := by
  rw [decodes_iff, read, readOnto_eq]

/-- An image that was read fits into memory. -/
theorem length_of_read {source : Input} {words : List Word} (h : read source = .ok words) :
    words.length ≤ ramSize := by
  have hdecodes := (read_iff source _).1 h
  generalize source.delivered.2 = failure at hdecodes
  cases hdecodes with
  | words hshort hdata =>
    rw [← hdata, length_encode] at hshort
    show words.length ≤ 0x8000
    omega

theorem load_of_read {source : Input} {words : List Word} (h : read source = .ok words)
    (ram : Ram) (log : Log) :
    load source ram log =
      .ok (words.length, ram.setFrom 0 words, log.add (.imageLoaded words.length)) := by
  rw [load, h]
  rfl

theorem load_of_read_error {source : Input} {error : ImageError} (h : read source = .error error)
    (ram : Ram) (log : Log) : load source ram log = .error error := by
  rw [load, h]
  rfl

end Image

namespace Machine

/-- Words that fit are copied to address 0 and nothing else changes. -/
theorem load?_eq (m : Machine) {words : List Word} (hfits : words.length ≤ ramSize) :
    m.load? words =
      some { m with core := { m.core with
        store := { m.core.store with ram := m.core.store.ram.setFrom 0 words } } } := by
  rw [load?, modifyStore?, Ram.load?, if_pos hfits]
  rfl

/-- A machine made from an image is a blank one with the words of the image copied into it, but
for the report of the copying. -/
theorem ofImage_of_read {source : Input} {words : List Word} (h : Image.read source = .ok words)
    (config : Config) (threshold : Option Level) :
    ∃ m, (create config threshold).load? words = some m ∧
      ofImage source config threshold = .ok (m.report (.imageLoaded words.length)) := by
  refine ⟨_, load?_eq _ (Image.length_of_read h), ?_⟩
  rw [ofImage, Image.load_of_read h]
  rfl

theorem ofImage_of_read_error {source : Input} {error : ImageError}
    (h : Image.read source = .error error) (config : Config) (threshold : Option Level) :
    ofImage source config threshold = .error error := by
  rw [ofImage, Image.load_of_read_error h]

end Machine

namespace Image

end Image

end WordMachine
