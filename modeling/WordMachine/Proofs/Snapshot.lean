import WordMachine.Proofs.Json.Document
import WordMachine.Proofs.Json.Value
import WordMachine.Snapshot

/-! # Dumped snapshots are read back

A dumped snapshot is a document like any other, so its value is read back. Each field of that
value is then taken for what it was written from: words and counts are written with digits alone
and are not rounded, and texts come back character by character.
-/
namespace WordMachine

namespace Snapshot

theorem ofTag?_tag (status : Status) : Status.ofJson? (.ofString status.tag) = some status := by
  cases status <;> rfl

theorem word?_ofWord (w : Word) : word? (ofWord w) = some w := by
  rw [word?, ofWord, Json.natBelow?_ofNat w.toNat_lt, Option.map_some, Nat.toUInt16_eq,
    UInt16.ofNat_toNat]

theorem count?_ofNat {n : Nat} (h : n < UInt64.size) : count? (.ofNat n) = some n :=
  Json.natBelow?_ofNat h

theorem registers?_map (registers : Registers) :
    registers? (.array (registers.toList.map ofWord)) = some registers := by
  have hlength : registers.toList.length = registerCount := Vector.length_toList
  rw [registers?, Json.listOf?_map word?_ofWord]
  simp only [bind, Option.bind, dif_pos hlength]
  obtain ⟨⟨cells, hsize⟩⟩ := registers
  rfl

theorem lastError_ofOption (lastError : Option String) :
    Json.optionOf? Json.string? (Json.ofOption .ofString lastError) = some lastError := by
  cases lastError <;> rfl

/-- Every field is found under its name. -/
theorem ofJson?_toJson (s : Snapshot) :
    ofJson? s.toJson = ofFields? (.ofString s.status.tag) (ofWord s.address)
      (.array (s.registers.toList.map ofWord)) (.ofNat s.stackDepth)
      (.array (s.stackHead.map ofWord)) (.ofNat s.counter) (.ofNat s.errorCount)
      (Json.ofOption .ofString s.lastError) :=
  rfl

/-- **A dumped snapshot is read back as it was**, with every text for the last error and every
count of 64 bits. -/
theorem parse?_dump (s : Snapshot) (hdepth : s.stackDepth < UInt64.size)
    (hcounter : s.counter < UInt64.size) (herrors : s.errorCount < UInt64.size) :
    parse? s.dump = some s := by
  have hparse : Json.parse? s.dump = some s.toJson := Json.parse?_pretty s.toJson
  rw [parse?, hparse]
  show ofJson? s.toJson = some s
  rw [ofJson?_toJson]
  simp only [ofFields?, ofTag?_tag, word?_ofWord, registers?_map, count?_ofNat hdepth,
    Json.listOf?_map word?_ofWord, count?_ofNat hcounter, count?_ofNat herrors, lastError_ofOption,
    bind, Option.bind]
  rfl

/-- A snapshot with the largest words and counts, and an error that has to be escaped. -/
def extreme : Snapshot where
  status := .finished
  address := 0xffff
  registers := .set .zeros 7 0xffff
  stackDepth := 0xffffffffffffffff
  stackHead := [0xffff, 0]
  counter := 0xffffffffffffffff
  errorCount := 0xffffffffffffffff
  lastError := some "\"C:\\vm\"\n\x01\x7f \u00e9 \uffff 😀"

theorem parse?_dump_extreme :
    extreme.stackDepth < UInt64.size ∧ extreme.counter < UInt64.size ∧
      extreme.errorCount < UInt64.size ∧ parse? extreme.dump = some extreme :=
  ⟨by decide, by decide, by decide,
    parse?_dump extreme (by decide) (by decide) (by decide)⟩

end Snapshot

end WordMachine
