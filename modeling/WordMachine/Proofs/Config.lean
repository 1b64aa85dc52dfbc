import WordMachine.Config
import WordMachine.Proofs.Json.Document
import WordMachine.Proofs.Json.Value

/-! # Configurations are read field by field

Among the members of an object only those count that have the name of a field. A field takes the
value of the one member of its name, and its default where there is none; more than one member, or
a value that the field cannot take, leaves no configuration. Where those members stand, what stands
between them, and how any of it is spelled makes no difference.
-/
namespace WordMachine.Config

open Json (named valuesOf member? IsUInt64)

def fieldNames : List String := ["pacing_micros", "stack_head_len", "max_steps"]

/-! ## Values of fields -/

theorem uint64?_ofUInt64 (n : UInt64) : uint64? (ofUInt64 n) = some n := by
  rw [uint64?, ofUInt64, Json.natBelow?_ofNat n.toNat_lt, Option.map_some, Nat.toUInt64_eq,
    UInt64.ofNat_toNat]

theorem uint64?_of_not_isUInt64 {value : Json} (h : ¬ value.IsUInt64) : uint64? value = none := by
  rw [uint64?, Json.natBelow?_of_not_isUInt64 h, Option.map_none]

theorem steps?_ofOption (steps : Option UInt64) :
    Json.optionOf? uint64? (Json.ofOption ofUInt64 steps) = some steps := by
  cases steps with
  | none => rfl
  | some n =>
    show (uint64? (ofUInt64 n)).map some = _
    rw [uint64?_ofUInt64, Option.map_some]

theorem steps?_of_not_isUInt64 {value : Json} (h : ¬ value.IsUInt64) (hnull : value ≠ .null) :
    Json.optionOf? uint64? value = none := by
  rw [Json.optionOf?, uint64?_of_not_isUInt64 h, Option.map_none]
  exact hnull

/-- A field whose value is missing keeps its default, and any other takes the value. -/
theorem field_map {α : Type} {read : Json → Option α} {write : α → Json}
    (h : ∀ a, read (write a) = some a) (fallback : α) (value : Option α) :
    field read fallback (value.map write) = some (value.getD fallback) := by
  cases value with
  | none => rfl
  | some a => exact h a

/-! ## Members -/

/-- The configuration that named members give. -/
def ofMembers? (members : List (String × Json)) : Option Config := do
  ofFields? (← member? members "pacing_micros") (← member? members "stack_head_len")
    (← member? members "max_steps")

theorem parse?_named {members : List (String × Json)} {document : String}
    (h : (named members).Writes document) : parse? document = ofMembers? members := by
  rw [parse?, Json.parse?_of_writes h]
  show ofJson? (named members) = _
  rw [named, ofJson?, Json.namedMembers?_named]
  rfl

theorem ofMembers?_of_valuesOf {members : List (String × Json)} {pacing head : Option UInt64}
    {steps : Option (Option UInt64)}
    (hpacing : valuesOf "pacing_micros" members = (pacing.map ofUInt64).toList)
    (hhead : valuesOf "stack_head_len" members = (head.map ofUInt64).toList)
    (hsteps : valuesOf "max_steps" members = (steps.map (Json.ofOption ofUInt64)).toList) :
    ofMembers? members = some {
      pacingMicros := pacing.getD default.pacingMicros
      stackHeadLength := head.getD default.stackHeadLength
      maxSteps := steps.getD default.maxSteps } := by
  rw [ofMembers?, Json.member?_of_toList hpacing, Json.member?_of_toList hhead,
    Json.member?_of_toList hsteps]
  simp only [bind, Option.bind, ofFields?, field_map uint64?_ofUInt64, field_map steps?_ofOption]
  rfl

/-- There is no configuration if one of the fields has none. -/
theorem ofMembers?_eq_none {members : List (String × Json)}
    (h : (member? members "pacing_micros").bind (field uint64? default.pacingMicros) = none ∨
      (member? members "stack_head_len").bind (field uint64? default.stackHeadLength) = none ∨
      (member? members "max_steps").bind
        (field (Json.optionOf? uint64?) default.maxSteps) = none) :
    ofMembers? members = none := by
  rw [Option.eq_none_iff_forall_ne_some]
  intro config hconfig
  simp only [ofMembers?, ofFields?, bind, Option.bind_eq_some_iff] at hconfig
  obtain ⟨pacing, hpacing, head, hhead, steps, hsteps, p, hp, l, hl, s, hs, -⟩ := hconfig
  rw [hpacing, hhead, hsteps, Option.bind_some, Option.bind_some, Option.bind_some, hp, hl, hs] at h
  simp at h

theorem mem_fieldNames {name : String} (h : name ∈ fieldNames) :
    name = "pacing_micros" ∨ name = "stack_head_len" ∨ name = "max_steps" := by
  simpa [fieldNames] using h

theorem ofMembers?_of_repeated {members : List (String × Json)} {name : String}
    (hname : name ∈ fieldNames) (h : 2 ≤ (valuesOf name members).length) :
    ofMembers? members = none := by
  have hnone := Json.member?_of_repeated h
  apply ofMembers?_eq_none
  rcases mem_fieldNames hname with rfl | rfl | rfl
  · exact .inl (by rw [hnone, Option.bind_none])
  · exact .inr (.inl (by rw [hnone, Option.bind_none]))
  · exact .inr (.inr (by rw [hnone, Option.bind_none]))

/-- Where a name has a value that is not read, its field is not either. -/
theorem field_of_unread {α : Type} {read : Json → Option α} {members : List (String × Json)}
    {name : String} {value : Json} (h : value ∈ valuesOf name members) (hread : read value = none)
    (fallback : α) : (member? members name).bind (field read fallback) = none := by
  rcases Json.member?_of_mem h with hfound | hfound
  · rw [hfound, Option.bind_some]
    exact hread
  · rw [hfound, Option.bind_none]

theorem ofMembers?_of_unread {members : List (String × Json)} {name : String} {value : Json}
    (hname : name ∈ fieldNames) (h : value ∈ valuesOf name members) (hvalue : ¬ value.IsUInt64)
    (hnull : name = "max_steps" → value ≠ .null) : ofMembers? members = none := by
  have hunread := uint64?_of_not_isUInt64 hvalue
  apply ofMembers?_eq_none
  rcases mem_fieldNames hname with rfl | rfl | rfl
  · exact .inl (field_of_unread h hunread _)
  · exact .inr (.inl (field_of_unread h hunread _))
  · exact .inr (.inr (field_of_unread h (steps?_of_not_isUInt64 hvalue (hnull rfl)) _))

/-- Members of other names are not looked at. -/
theorem ofMembers?_congr {members others : List (String × Json)}
    (h : ∀ name ∈ fieldNames, valuesOf name others = valuesOf name members) :
    ofMembers? others = ofMembers? members := by
  have hfound : ∀ name ∈ fieldNames, member? others name = member? members name := by
    intro name hname
    rw [Json.member?_eq, Json.member?_eq, h name hname]
  rw [ofMembers?, ofMembers?, hfound _ (by simp [fieldNames]), hfound _ (by simp [fieldNames]),
    hfound _ (by simp [fieldNames])]

/-- A configuration is read from what is written of it. -/
theorem parse?_text (config : Config) : parse? config.text = some config := by
  let members : List (String × Json) := [
    ("pacing_micros", ofUInt64 config.pacingMicros),
    ("stack_head_len", ofUInt64 config.stackHeadLength),
    ("max_steps", Json.ofOption ofUInt64 config.maxSteps)]
  have hwrites : (named members).Writes config.text := Json.writes_compact config.toJson
  rw [parse?_named hwrites]
  exact @ofMembers?_of_valuesOf members (some config.pacingMicros) (some config.stackHeadLength)
    (some config.maxSteps) rfl rfl rfl

/-- **A configuration is read field by field from any document that writes an object**, with its
members in any order and between any others. Each field that one member alone names takes what that
member writes, and each that none names takes its default. A field that is named twice, or whose
value is neither a number of 64 bits nor, for the limit alone, null, leaves no configuration. The
members of other names have no influence. Every configuration is read from what is written of it. -/
theorem parse?_members (members : List (String × Json)) (document : String)
    (h : (named members).Writes document) :
    (∀ (pacing head : Option UInt64) (steps : Option (Option UInt64)),
      valuesOf "pacing_micros" members = (pacing.map ofUInt64).toList →
      valuesOf "stack_head_len" members = (head.map ofUInt64).toList →
      valuesOf "max_steps" members = (steps.map (Json.ofOption ofUInt64)).toList →
      parse? document = some {
        pacingMicros := pacing.getD default.pacingMicros
        stackHeadLength := head.getD default.stackHeadLength
        maxSteps := steps.getD default.maxSteps }) ∧
    (∀ name ∈ fieldNames, 2 ≤ (valuesOf name members).length → parse? document = none) ∧
    (∀ name ∈ fieldNames, ∀ value ∈ valuesOf name members, ¬ value.IsUInt64 →
      (name = "max_steps" → value ≠ .null) → parse? document = none) ∧
    (∀ (others : List (String × Json)) (document' : String), (named others).Writes document' →
      (∀ name ∈ fieldNames, valuesOf name others = valuesOf name members) →
      parse? document' = parse? document) ∧
    ∀ config : Config, parse? config.text = some config := by
  rw [parse?_named h]
  refine ⟨fun pacing head steps => ofMembers?_of_valuesOf, fun name => ofMembers?_of_repeated,
    fun name hname value => ofMembers?_of_unread hname, fun others document' h' hsame => ?_,
    parse?_text⟩
  rw [parse?_named h', ofMembers?_congr hsame]

/-- Fields out of their order, one of them missing, between members of other names whose values
hold names of fields again. -/
def scattered : List (String × Json) := [
  ("max_steps", .null),
  ("notes", .array [named [("pacing_micros", .ofNat 7), ("\"", .object [])], .text none]),
  ("pacing_micros", .ofNat 0xffffffffffffffff),
  ("", named [("max_steps", .bool true)])]

theorem parse?_members_scattered :
    (named scattered).Writes (named scattered).pretty ∧
      parse? (named scattered).pretty = some ⟨0xffffffffffffffff, 10, none⟩ :=
  ⟨Json.writes_pretty _,
    (parse?_members scattered _ (Json.writes_pretty _)).1 (some 0xffffffffffffffff) none (some none)
      rfl rfl rfl⟩

end WordMachine.Config
