import WordMachine.Json.Reader
import WordMachine.Json.Writer
import WordMachine.Proofs.Json.Number
import WordMachine.Proofs.Json.Text

/-! # JSON documents are read as they are written

A document writes the tokens of its value one after the other, with blanks around them. Scanning
finds the tokens again, however each of them is spelled, since blanks and brackets end numbers; and
reading them completes the value again. So every value comes back from every document that writes
it, whatever it holds and however deep it is. The layouts of the writer are such documents.
-/
namespace WordMachine

open JsonNumber (Ended)

namespace Json

mutual

/-- The tokens that a value is written with. -/
def tokens : Json → List JsonToken
  | null => [.null]
  | bool b => [.bool b]
  | number n => [.number n]
  | text t => [.text t]
  | array [] => [.openArray, .closeArray]
  | array (item :: rest) => .openArray :: (tokens item ++ itemTokens rest ++ [.closeArray])
  | object [] => [.openObject, .closeObject]
  | object ((name, value) :: rest) =>
    .openObject :: .text name :: .colon :: (tokens value ++ memberTokens rest ++ [.closeObject])

/-- The tokens of further elements of an array. -/
def itemTokens : List Json → List JsonToken
  | [] => []
  | item :: rest => .comma :: (tokens item ++ itemTokens rest)

/-- The tokens of further members of an object. -/
def memberTokens : List (JsonText × Json) → List JsonToken
  | [] => []
  | (name, value) :: rest => .comma :: .text name :: .colon :: (tokens value ++ memberTokens rest)

end

end Json

namespace JsonToken

/-- The spellings of a token. -/
inductive Spelled : JsonToken → List Char → Prop where
  | openArray : Spelled .openArray ['[']
  | closeArray : Spelled .closeArray [']']
  | openObject : Spelled .openObject ['{']
  | closeObject : Spelled .closeObject ['}']
  | comma : Spelled .comma [',']
  | colon : Spelled .colon [':']
  | null : Spelled .null ['n', 'u', 'l', 'l']
  | true : Spelled (.bool true) ['t', 'r', 'u', 'e']
  | false : Spelled (.bool false) ['f', 'a', 'l', 's', 'e']
  | number {n : JsonNumber} {spelling : List Char} (h : n.Spelled spelling) :
      Spelled (.number n) spelling
  | text {t : JsonText} {spelling : List Char} (h : t.Spelled spelling) :
      Spelled (.text t) spelling

def Blanks (cs : List Char) : Prop := ∀ c ∈ cs, isBlank c = true

/-- The texts that write some tokens one after the other. Blanks may stand in front of each and at
the end, and nothing goes on with a number. -/
inductive Written : List JsonToken → List Char → Prop where
  | done {blanks : List Char} (hblanks : Blanks blanks) : Written [] blanks
  | token {blanks spelling rest : List Char} {t : JsonToken} {tokens : List JsonToken}
      (hblanks : Blanks blanks) (hspelling : t.Spelled spelling)
      (hends : ∀ n, t = .number n → Ended rest) (hrest : Written tokens rest) :
      Written (t :: tokens) (blanks ++ (spelling ++ rest))

/-! ## Scanning -/

/-- Blanks are passed over, and then a token is taken off. -/
theorem scanOnto_eq (newest : List JsonToken) (s : List Char) :
    scanOnto newest s =
      match s.dropWhile isBlank with
      | [] => some newest.reverse
      | c :: rest => (next? c rest).bind fun (t, after) => scanOnto (t :: newest) after := by
  rw [scanOnto]
  split
  · rename_i hrest
    rw [hrest]
  · rename_i c rest hrest
    rw [hrest]
    split
    · rename_i hnext
      simp only [hnext, Option.bind_none]
    · rename_i t after hnext
      simp only [hnext, Option.bind_some]

theorem scan_blanks {blanks : List Char} (h : Blanks blanks) (newest : List JsonToken)
    (rest : List Char) : scanOnto newest (blanks ++ rest) = scanOnto newest rest := by
  rw [scanOnto_eq, scanOnto_eq newest rest, List.dropWhile_append_of_pos h]

theorem scan_next {c : Char} {rest after : List Char} {t : JsonToken} (hblank : isBlank c = false)
    (h : next? c rest = some (t, after)) (newest : List JsonToken) :
    scanOnto newest (c :: rest) = scanOnto (t :: newest) after := by
  rw [scanOnto_eq, List.dropWhile_cons_of_neg (by simp [hblank])]
  simp only [h, Option.bind_some]

/-- What starts with a digit is a number. -/
theorem next?_digitChar : ∀ (d : Fin 10) (rest : List Char),
    isBlank (JsonNumber.digitChar d) = false ∧
      next? (JsonNumber.digitChar d) rest =
        (JsonNumber.read? false (JsonNumber.digitChar d :: rest)).map
          fun (n, rest) => (number n, rest)
  | 0, _ | 1, _ | 2, _ | 3, _ | 4, _ | 5, _ | 6, _ | 7, _ | 8, _ | 9, _ => ⟨rfl, rfl⟩

theorem scan_number {n : JsonNumber} {spelling : List Char} (hspelling : n.Spelled spelling)
    (newest : List JsonToken) {rest : List Char} (h : Ended rest) :
    scanOnto newest (spelling ++ rest) = scanOnto (number n :: newest) rest := by
  obtain ⟨mark, hmark, rfl⟩ := hspelling
  have hread := n.read?_unsignedChars hmark h
  cases hnegative : n.negative with
  | true =>
    have hnext : next? '-' (n.unsignedChars mark ++ rest) = some (number n, rest) := by
      show (JsonNumber.read? true (n.unsignedChars mark ++ rest)).map _ = _
      rw [hnegative] at hread
      rw [hread]
      rfl
    exact scan_next rfl hnext newest
  | false =>
    obtain ⟨d, further, hchars⟩ := n.exists_unsignedChars mark
    obtain ⟨hblank, hnext⟩ := next?_digitChar d (further ++ rest)
    rw [hnegative, hchars, List.cons_append] at hread
    rw [hread] at hnext
    rw [if_neg Bool.false_ne_true, hchars]
    exact scan_next hblank hnext newest

theorem scan_text {t : JsonText} {spelling : List Char} (hspelling : t.Spelled spelling)
    (newest : List JsonToken) (rest : List Char) :
    scanOnto newest (spelling ++ rest) = scanOnto (text t :: newest) rest := by
  obtain ⟨codes, body, hbody, rfl, rfl⟩ := hspelling
  refine scan_next rfl ?_ newest
  show (JsonText.read? (body ++ rest)).map _ = _
  rw [JsonText.read?_of_body hbody]
  rfl

/-- However a token is spelled, it is taken off. -/
theorem scan_spelled {t : JsonToken} {spelling rest : List Char} (h : t.Spelled spelling)
    (hends : ∀ n, t = .number n → Ended rest) (newest : List JsonToken) :
    scanOnto newest (spelling ++ rest) = scanOnto (t :: newest) rest := by
  cases h with
  | number hspelling => exact scan_number hspelling newest (hends _ rfl)
  | text hspelling => exact scan_text hspelling newest rest
  | _ => exact scan_next rfl rfl newest

/-- Scanning finds the tokens that a text writes. -/
theorem scan_written {tokens : List JsonToken} {cs : List Char} (h : Written tokens cs)
    (newest : List JsonToken) : scanOnto newest cs = some (newest.reverse ++ tokens) := by
  induction h generalizing newest with
  | @done blanks hblanks =>
    have hscan := scan_blanks hblanks newest []
    rw [List.append_nil] at hscan
    rw [hscan, scanOnto_eq, List.append_nil]
    rfl
  | token hblanks hspelling hends _ ih =>
    rw [scan_blanks hblanks, scan_spelled hspelling hends, ih]
    simp

end JsonToken

/-! ## Reading -/

namespace JsonState

/-- The state takes tokens as one that starts a value does. Only at the first element of an array a
closing bracket may come instead. -/
def Starts (state : JsonState) (outer : List JsonFrame) : Prop :=
  ∀ t, t ≠ .closeArray → state.step t = start outer t

theorem starts_value (outer : List JsonFrame) : (value outer).Starts outer := fun _ _ => rfl

theorem starts_firstItem (outer : List JsonFrame) :
    (firstItem outer).Starts (.items [] :: outer) := by
  intro t ht
  cases t with
  | closeArray => exact absurd rfl ht
  | _ => rfl

theorem read_cons {state next : JsonState} {t : JsonToken} (h : state.step t = some next)
    (rest : List JsonToken) : (t :: rest).foldlM step state = rest.foldlM step next := by
  rw [List.foldlM_cons, h]
  rfl

mutual

/-- Reading the tokens of a value completes it. -/
theorem read_tokens {state : JsonState} {outer : List JsonFrame} (h : state.Starts outer)
    (rest : List JsonToken) :
    (v : Json) → (v.tokens ++ rest).foldlM step state = rest.foldlM step (complete v outer)
  | .null => read_cons (h .null nofun) rest
  | .bool b => read_cons (h (.bool b) nofun) rest
  | .number n => read_cons (h (.number n) nofun) rest
  | .text t => read_cons (h (.text t) nofun) rest
  | .array [] => (read_cons (h .openArray nofun) _).trans (read_cons rfl rest)
  | .object [] => (read_cons (h .openObject nofun) _).trans (read_cons rfl rest)
  | .array (item :: items) => by
    rw [Json.tokens, List.cons_append, read_cons (h .openArray nofun), List.append_assoc,
      List.append_assoc]
    exact (read_tokens (starts_firstItem outer) _ item).trans
      (read_itemTokens outer [] item rest items)
  | .object ((member, v) :: members) => by
    rw [Json.tokens, List.cons_append, read_cons (h .openObject nofun), List.cons_append,
      read_cons rfl, List.cons_append, read_cons rfl, List.append_assoc, List.append_assoc]
    exact (read_tokens (starts_value _) _ v).trans
      (read_memberTokens outer [] member v rest members)

theorem read_itemTokens (outer : List JsonFrame) (newest : List Json) (v : Json)
    (rest : List JsonToken) :
    (items : List Json) →
      (Json.itemTokens items ++ .closeArray :: rest).foldlM step
          (complete v (.items newest :: outer)) =
        rest.foldlM step (complete (.array (newest.reverse ++ v :: items)) outer)
  | [] => by
    rw [← List.reverse_cons]
    exact read_cons rfl rest
  | item :: items => by
    rw [Json.itemTokens, List.cons_append, read_cons rfl, List.append_assoc,
      read_tokens (starts_value _) _ item, read_itemTokens outer (v :: newest) item rest items]
    simp

theorem read_memberTokens (outer : List JsonFrame) (newest : List (JsonText × Json))
    (member : JsonText) (v : Json) (rest : List JsonToken) :
    (members : List (JsonText × Json)) →
      (Json.memberTokens members ++ .closeObject :: rest).foldlM step
          (complete v (.members newest member :: outer)) =
        rest.foldlM step (complete (.object (newest.reverse ++ (member, v) :: members)) outer)
  | [] => by
    rw [← List.reverse_cons]
    exact read_cons rfl rest
  | (next, w) :: members => by
    rw [Json.memberTokens, List.cons_append, read_cons rfl, List.cons_append, read_cons rfl,
      List.cons_append, read_cons rfl, List.append_assoc, read_tokens (starts_value _) _ w,
      read_memberTokens outer ((member, v) :: newest) next w rest members]
    simp

end

end JsonState

namespace Json

/-- The documents that a value can be written as. -/
def Writes (value : Json) (document : String) : Prop :=
  JsonToken.Written value.tokens document.toList

theorem ofTokens?_tokens (value : Json) : ofTokens? value.tokens = some value := by
  have hread := JsonState.read_tokens (JsonState.starts_value []) [] value
  rw [List.append_nil] at hread
  rw [ofTokens?, hread]
  rfl

/-- **Every value is read from every document that writes it.** -/
theorem parse?_of_writes {value : Json} {document : String} (h : value.Writes document) :
    parse? document = some value := by
  have hscan : JsonToken.scan? document.toList = some value.tokens := JsonToken.scan_written h []
  rw [parse?, hscan]
  exact ofTokens?_tokens value

end Json

/-! ## The layouts of the writer -/

/-- All that the layout puts between tokens is blank. -/
structure Json.Layout.Blank (layout : Json.Layout) : Prop where
  newline : ∀ depth, JsonToken.Blanks (layout.newline depth)
  colon : ∃ blanks, layout.colon = ':' :: blanks ∧ JsonToken.Blanks blanks

theorem Json.Layout.blank_compact : Json.Layout.compact.Blank :=
  ⟨nofun, [], rfl, nofun⟩

theorem Json.Layout.blank_pretty : Json.Layout.pretty.Blank := by
  refine ⟨fun depth c hc => ?_, [' '], rfl, by simp [JsonToken.Blanks, JsonToken.isBlank]⟩
  rcases List.mem_cons.1 hc with rfl | hspace
  · rfl
  · rw [List.eq_of_mem_replicate hspace]
    rfl

namespace JsonToken

theorem Written.onto_blanks {blanks cs : List Char} {tokens : List JsonToken}
    (hblanks : Blanks blanks) (h : Written tokens cs) : Written tokens (blanks ++ cs) := by
  cases h with
  | done hrest => exact .done (List.forall_mem_append.2 ⟨hblanks, hrest⟩)
  | token hmore hspelling hends hrest =>
    rw [← List.append_assoc]
    exact .token (List.forall_mem_append.2 ⟨hblanks, hmore⟩) hspelling hends hrest

theorem Written.next {t : JsonToken} {spelling rest : List Char} {tokens : List JsonToken}
    (hspelling : t.Spelled spelling) (hends : ∀ n, t = .number n → Ended rest)
    (h : Written tokens rest) : Written (t :: tokens) (spelling ++ rest) := by
  have hblanks : Blanks [] := nofun
  exact .token hblanks hspelling hends h

/-- A token that is no number may have anything behind it. -/
theorem Written.onto {t : JsonToken} {spelling rest : List Char} {tokens : List JsonToken}
    (hspelling : t.Spelled spelling) (ht : ∀ n, t ≠ .number n) (h : Written tokens rest) :
    Written (t :: tokens) (spelling ++ rest) :=
  h.next hspelling fun n hn => absurd hn (ht n)

theorem Written.mark {t : JsonToken} {c : Char} {rest : List Char} {tokens : List JsonToken}
    (hspelling : t.Spelled [c]) (ht : ∀ n, t ≠ .number n) (h : Written tokens rest) :
    Written (t :: tokens) (c :: rest) :=
  h.onto hspelling ht

end JsonToken

/-- Blanks end a number, unless what follows them goes on with it. -/
theorem ended_blanks {blanks : List Char} (h : JsonToken.Blanks blanks) {rest : List Char}
    (hrest : Ended rest) : Ended (blanks ++ rest) := by
  cases blanks with
  | nil => exact hrest
  | cons c tail =>
    have hc : JsonToken.isBlank c = true := h c List.mem_cons_self
    simp only [JsonToken.isBlank, Bool.or_eq_true, beq_iff_eq] at hc
    rcases hc with ((rfl | rfl) | rfl) | rfl <;> exact ⟨rfl, by decide, by decide, by decide⟩

namespace Json

open JsonToken (Written)

section Layout

variable (layout : Layout) {rest : List Char}

theorem ended_itemChars (depth : Nat) (items : List Json) (h : Ended rest) :
    Ended (itemChars layout depth items ++ rest) := by
  cases items with
  | nil => exact h
  | cons item items => exact ⟨rfl, by decide, by decide, by decide⟩

theorem ended_memberChars (depth : Nat) (members : List (JsonText × Json)) (h : Ended rest) :
    Ended (memberChars layout depth members ++ rest) := by
  cases members with
  | nil => exact h
  | cons member members => exact ⟨rfl, by decide, by decide, by decide⟩

variable {layout} (hlayout : layout.Blank)

include hlayout

/-- In front of a closing bracket the layout may put blanks. -/
theorem ended_close (depth : Nat) {mark : Char} (h : Ended [mark]) (rest : List Char) :
    Ended (layout.newline depth ++ mark :: rest) :=
  ended_blanks (hlayout.newline depth) h

theorem written_name (name : JsonText) {tokens : List JsonToken} (h : Written tokens rest) :
    Written (.text name :: .colon :: tokens) (JsonText.chars name ++ (layout.colon ++ rest)) := by
  obtain ⟨blanks, hcolon, hblanks⟩ := hlayout.colon
  rw [hcolon]
  exact .onto (.text name.spelled_chars) nofun (.mark .colon nofun (h.onto_blanks hblanks))

mutual

/-- A layout writes the tokens of a value. -/
theorem written_chars (depth : Nat) {tokens : List JsonToken} {rest : List Char}
    (hends : Ended rest) (h : Written tokens rest) :
    (value : Json) → Written (value.tokens ++ tokens) (value.chars layout depth ++ rest)
  | .null => .onto .null nofun h
  | .bool true => .onto .true nofun h
  | .bool false => .onto .false nofun h
  | .number n => h.next (.number n.spelled_chars) fun _ _ => hends
  | .text t => .onto (.text t.spelled_chars) nofun h
  | .array [] => .mark .openArray nofun (.mark .closeArray nofun h)
  | .object [] => .mark .openObject nofun (.mark .closeObject nofun h)
  | .array (item :: items) => by
    have hend : Ended [']'] := ⟨rfl, by decide, by decide, by decide⟩
    have hclose := ended_close hlayout depth hend rest
    have hitems := ended_itemChars layout (depth + 1) items hclose
    have hlast : Written (.closeArray :: tokens) (layout.newline depth ++ ']' :: rest) :=
      .onto_blanks (hlayout.newline depth) (.mark .closeArray nofun h)
    simp only [chars, Json.tokens, List.cons_append, List.append_assoc, List.nil_append]
    exact .mark .openArray nofun (.onto_blanks (hlayout.newline _)
      (written_chars (depth + 1) hitems (written_itemChars (depth + 1) hclose hlast items) item))
  | .object ((name, value) :: members) => by
    have hend : Ended ['}'] := ⟨rfl, by decide, by decide, by decide⟩
    have hclose := ended_close hlayout depth hend rest
    have hmembers := ended_memberChars layout (depth + 1) members hclose
    have hlast : Written (.closeObject :: tokens) (layout.newline depth ++ '}' :: rest) :=
      .onto_blanks (hlayout.newline depth) (.mark .closeObject nofun h)
    simp only [chars, Json.tokens, List.cons_append, List.append_assoc, List.nil_append]
    exact .mark .openObject nofun (.onto_blanks (hlayout.newline _) (written_name hlayout name
      (written_chars (depth + 1) hmembers (written_memberChars (depth + 1) hclose hlast members)
        value)))

theorem written_itemChars (depth : Nat) {tokens : List JsonToken} {rest : List Char}
    (hends : Ended rest) (h : Written tokens rest) :
    (items : List Json) →
      Written (itemTokens items ++ tokens) (itemChars layout depth items ++ rest)
  | [] => h
  | item :: items => by
    have hitems := ended_itemChars layout depth items hends
    simp only [itemChars, itemTokens, List.cons_append, List.append_assoc]
    exact .mark .comma nofun (.onto_blanks (hlayout.newline _)
      (written_chars depth hitems (written_itemChars depth hends h items) item))

theorem written_memberChars (depth : Nat) {tokens : List JsonToken} {rest : List Char}
    (hends : Ended rest) (h : Written tokens rest) :
    (members : List (JsonText × Json)) →
      Written (memberTokens members ++ tokens) (memberChars layout depth members ++ rest)
  | [] => h
  | (name, value) :: members => by
    have hmembers := ended_memberChars layout depth members hends
    simp only [memberChars, memberTokens, List.cons_append, List.append_assoc]
    exact .mark .comma nofun (.onto_blanks (hlayout.newline _) (written_name hlayout name
      (written_chars depth hmembers (written_memberChars depth hends h members) value)))

end

/-- What a layout writes of a value is a document that writes it. -/
theorem writes_chars (value : Json) : value.Writes (String.ofList (value.chars layout 0)) := by
  have hwritten := written_chars hlayout 0 (show Ended [] from trivial) (.done nofun) value
  rw [List.append_nil, List.append_nil] at hwritten
  rw [Writes, String.toList_ofList]
  exact hwritten

end Layout

theorem writes_pretty (value : Json) : value.Writes value.pretty :=
  writes_chars Layout.blank_pretty value

theorem writes_compact (value : Json) : value.Writes value.compact :=
  writes_chars Layout.blank_compact value

theorem parse?_pretty (value : Json) : parse? value.pretty = some value :=
  parse?_of_writes value.writes_pretty

end Json

end WordMachine
