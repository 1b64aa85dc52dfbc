import WordMachine.Terminal

/-! # Terminals that fail

A device takes bytes in as many parts as its script says. An interrupted write takes none and is
made again; a write that accepts nothing or fails while bytes are left ends the emission, and then
the device is not flushed. Otherwise all bytes are delivered, and it is flushed once. What was
delivered is in any case a beginning of the bytes, and there is one reason for a failure at most.
-/
namespace WordMachine

namespace Transcript

@[simp] theorem contents_append (t : Transcript) (data : List UInt8) :
    (t.append data).contents = t.contents ++ data := by
  simp [append, contents]

theorem append_nil (t : Transcript) : t.append [] = t := by
  simp [append]

theorem append_append (t : Transcript) (first second : List UInt8) :
    (t.append first).append second = t.append (first ++ second) := by
  simp [append, ← Array.toList_inj]

end Transcript

namespace WriteOutcome

/-- How many of so many bytes a write accepts. -/
def accepts : WriteOutcome → Nat → Nat
  | all, size => size
  | atMost limit, size => min limit size
  | interrupted, _ | failure _, _ => 0

/-- The reason for which a write of bytes fails for good: it accepts none of them, or says so. -/
def refusal? : WriteOutcome → Option String
  | atMost 0 => some "failed to write whole buffer"
  | failure reason => some reason
  | all | atMost _ | interrupted => none

/-- How many of so many bytes the writes of a script accept, each of what the ones before left. -/
def accepted : Nat → List WriteOutcome → Nat
  | _, [] => 0
  | size, write :: rest => write.accepts size + accepted (size - write.accepts size) rest

theorem accepts_le (write : WriteOutcome) (size : Nat) : write.accepts size ≤ size := by
  cases write with
  | all => exact Nat.le_refl size
  | atMost limit => exact Nat.min_le_right limit size
  | interrupted | failure reason => exact Nat.zero_le size

/-- The write of this number is the first of a script that fails for good, for this reason, and
there are bytes left at that point. -/
structure GivesUpAt (writes : List WriteOutcome) (size k : Nat) (reason : String) : Prop where
  refused : writes[k]?.bind refusal? = some reason
  first : ∀ j < k, writes[j]?.bind refusal? = none
  left : accepted size (writes.take k) < size

namespace GivesUpAt

variable {write : WriteOutcome} {writes : List WriteOutcome} {size k : Nat} {reason : String}

theorem not_nil : ¬GivesUpAt [] size k reason := fun h => by
  have hrefused := h.refused
  simp at hrefused

theorem not_zero : ¬GivesUpAt writes 0 k reason := fun h => Nat.not_lt_zero _ h.left

theorem zero (hrefused : write.refusal? = some reason) (hleft : 0 < size) :
    GivesUpAt (write :: writes) size 0 reason :=
  ⟨hrefused, fun _ hj => absurd hj (Nat.not_lt_zero _), hleft⟩

/-- Behind a write that does not fail for good, the others see what it has left. -/
theorem succ_iff (haccepting : write.refusal? = none) :
    GivesUpAt (write :: writes) size (k + 1) reason ↔
      GivesUpAt writes (size - write.accepts size) k reason := by
  have hle := write.accepts_le size
  have hleft : accepted size ((write :: writes).take (k + 1)) < size ↔
      accepted (size - write.accepts size) (writes.take k) < size - write.accepts size := by
    rw [List.take_succ_cons, accepted]
    omega
  constructor
  · rintro ⟨hrefused, hfirst, hsome⟩
    exact ⟨hrefused, fun j hj => hfirst (j + 1) (Nat.succ_lt_succ hj), hleft.1 hsome⟩
  · rintro ⟨hrefused, hfirst, hsome⟩
    refine ⟨hrefused, fun j hj => ?_, hleft.2 hsome⟩
    cases j with
    | zero => exact haccepting
    | succ j => exact hfirst j (Nat.lt_of_succ_lt_succ hj)

theorem ne_zero (haccepting : write.refusal? = none)
    (h : GivesUpAt (write :: writes) size k reason) : ∃ j, k = j + 1 := by
  cases k with
  | zero =>
    have hrefused : write.refusal? = some reason := h.refused
    rw [haccepting] at hrefused
    cases hrefused
  | succ j => exact ⟨j, rfl⟩

/-- A script gives up only once. -/
theorem unique {j : Nat} {other : String} (h : GivesUpAt writes size k reason)
    (h' : GivesUpAt writes size j other) : j = k ∧ other = reason := by
  have hsame : j = k := by
    rcases Nat.lt_trichotomy j k with hlt | heq | hgt
    · cases (h.first j hlt).symm.trans h'.refused
    · exact heq
    · cases (h'.first k hgt).symm.trans h.refused
  subst hsame
  exact ⟨rfl, Option.some.inj (h'.refused.symm.trans h.refused)⟩

end GivesUpAt

end WriteOutcome

/-- The reason for which a flush fails. -/
def FlushOutcome.reason? : FlushOutcome → Option String
  | done => none
  | interrupted => some "operation interrupted"
  | failure reason => some reason

namespace Device

open WriteOutcome

theorem writeAll_nil (writes : List WriteOutcome) : writeAll writes [] = ([], writes, none) := by
  rw [writeAll]

theorem writeAll_of_refusal {write : WriteOutcome} {reason : String}
    (h : write.refusal? = some reason) (writes : List WriteOutcome) {data : List UInt8}
    (hdata : data ≠ []) : writeAll (write :: writes) data = ([], writes, some reason) := by
  cases write with
  | all | interrupted => cases h
  | failure said =>
    obtain rfl : said = reason := Option.some.inj h
    rw [writeAll]
    exact hdata
  | atMost limit =>
    cases limit with
    | zero =>
      obtain rfl := Option.some.inj h
      rw [writeAll]
      exact hdata
    | succ limit => cases h

/-- A write that does not fail for good delivers what it accepts, and the others the rest. -/
theorem writeAll_of_accepting {write : WriteOutcome} (h : write.refusal? = none)
    (writes : List WriteOutcome) {data : List UInt8} (hdata : data ≠ []) :
    writeAll (write :: writes) data =
      (data.take (write.accepts data.length) ++
          (writeAll writes (data.drop (write.accepts data.length))).1,
        (writeAll writes (data.drop (write.accepts data.length))).2) := by
  cases write with
  | all =>
    rw [writeAll, accepts, List.take_length, List.drop_length, writeAll_nil, List.append_nil]
    exact hdata
  | interrupted =>
    rw [writeAll, accepts, List.take_zero, List.drop_zero, List.nil_append]
    exact hdata
  | failure said => cases h
  | atMost limit =>
    cases limit with
    | zero => cases h
    | succ limit =>
      have htake : data.take (min (limit + 1) data.length) =
          data.take (limit + 1) := by
        rw [← List.take_take, List.take_length]
      have hdrop : data.drop (min (limit + 1) data.length) =
          data.drop (limit + 1) := by
        rcases Nat.le_total (limit + 1) data.length with hle | hge
        · rw [Nat.min_eq_left hle]
        · rw [Nat.min_eq_right hge, List.drop_length, List.drop_of_length_le hge]
      rw [accepts, htake, hdrop, writeAll]
      · omega
      · exact hdata

/-- Writing either gives up, and then what the writes before have accepted is delivered, or it
delivers everything. -/
theorem writeAll_cases (writes : List WriteOutcome) (data : List UInt8) :
    (∃ k reason, GivesUpAt writes data.length k reason ∧
      (writeAll writes data).1 = data.take (accepted data.length (writes.take k)) ∧
      (writeAll writes data).2.2 = some reason) ∨
    ((∀ k reason, ¬GivesUpAt writes data.length k reason) ∧ (writeAll writes data).1 = data ∧
      (writeAll writes data).2.2 = none) := by
  -- each write leaves the rest of the data to the rest of the script
  induction writes generalizing data with
  | nil =>
    refine .inr ⟨fun _ _ => GivesUpAt.not_nil, ?_⟩
    cases data <;> exact ⟨rfl, rfl⟩
  | cons write writes ih =>
    by_cases hdata : data = []
    · subst hdata
      rw [writeAll_nil]
      exact .inr ⟨fun _ _ => GivesUpAt.not_zero, rfl, rfl⟩
    · cases hrefusal : write.refusal? with
      | some reason =>
        rw [writeAll_of_refusal hrefusal writes hdata]
        exact .inl ⟨0, reason, .zero hrefusal (List.length_pos_iff.2 hdata), rfl, rfl⟩
      | none =>
        have hrest := ih (data.drop (write.accepts data.length))
        rw [List.length_drop] at hrest
        rw [writeAll_of_accepting hrefusal writes hdata]
        rcases hrest with ⟨k, reason, hgives, htaken, hfailed⟩ | ⟨hnever, htaken, hfailed⟩
        · refine .inl ⟨k + 1, reason, (GivesUpAt.succ_iff hrefusal).2 hgives, ?_, hfailed⟩
          rw [htaken, List.take_succ_cons, accepted, List.take_add]
        · refine .inr ⟨fun k reason hgives => ?_, ?_, hfailed⟩
          · obtain ⟨j, rfl⟩ := hgives.ne_zero hrefusal
            exact hnever j reason ((GivesUpAt.succ_iff hrefusal).1 hgives)
          · rw [htaken, List.take_append_drop]

theorem flush_eq (flushes : List FlushOutcome) :
    flush flushes = (flushes.tail, flushes.head?.bind FlushOutcome.reason?) := by
  cases flushes with
  | nil => rfl
  | cons first rest => cases first <;> rfl

end Device

namespace Terminal

open WriteOutcome

/-- What a terminal makes of bytes: so many of them are delivered, in order, and it fails or not. -/
structure Takes (before : Terminal) (data : List UInt8) (count : Nat) (failure : Option String)
    (after : Terminal) : Prop where
  count_le : count ≤ data.length
  contents : after.transcript.contents = before.transcript.contents ++ data.take count
  /-- All bytes are delivered unless a write fails for good while some are left. -/
  whole : count = data.length ↔ ∀ k reason, ¬GivesUpAt before.device.writes data.length k reason
  /-- The device is flushed if all bytes are delivered, and else not. -/
  flushed : (before.device.emit data).1.flushed = true ↔ count = data.length
  /-- It is flushed only once. -/
  flushes : after.device.flushes =
    if count = data.length then before.device.flushes.tail else before.device.flushes
  failed : failure ≠ none ↔
    count < data.length ∨ before.device.flushes.head?.bind FlushOutcome.reason? ≠ none
  refused : ∀ k reason, GivesUpAt before.device.writes data.length k reason →
    count = accepted data.length (before.device.writes.take k) ∧ failure = some reason
  unflushed : count = data.length →
    failure = before.device.flushes.head?.bind FlushOutcome.reason?

theorem emit_of_failure {terminal : Terminal} {data : List UInt8} {reason : String}
    (h : (Device.writeAll terminal.device.writes data).2.2 = some reason) :
    (terminal.device.emit data).1 =
      ⟨(Device.writeAll terminal.device.writes data).1, false, some reason⟩ ∧
    (terminal.device.emit data).2.flushes = terminal.device.flushes := by
  unfold Device.emit
  rcases hwritten : Device.writeAll terminal.device.writes data with ⟨delivered, rest, failure⟩
  rw [hwritten] at h
  obtain rfl : failure = some reason := h
  exact ⟨rfl, rfl⟩

theorem emit_of_written {terminal : Terminal} {data : List UInt8}
    (h : (Device.writeAll terminal.device.writes data).2.2 = none) :
    (terminal.device.emit data).1 = ⟨(Device.writeAll terminal.device.writes data).1, true,
      terminal.device.flushes.head?.bind FlushOutcome.reason?⟩ ∧
    (terminal.device.emit data).2.flushes = terminal.device.flushes.tail := by
  unfold Device.emit
  rcases hwritten : Device.writeAll terminal.device.writes data with ⟨delivered, rest, failure⟩
  rw [hwritten] at h
  obtain rfl : failure = none := h
  constructor <;> rw [Device.flush_eq]

theorem contents_emit {terminal : Terminal} (hconnected : terminal.connected = true)
    (data : List UInt8) :
    (terminal.emit data).2.transcript.contents =
      terminal.transcript.contents ++ (terminal.device.emit data).1.delivered := by
  unfold emit
  rcases terminal.device.emit data with ⟨emission, device⟩
  show (if terminal.connected = true then terminal.transcript.append emission.delivered
    else terminal.transcript).contents = terminal.transcript.contents ++ emission.delivered
  rw [if_pos hconnected, Transcript.contents_append]

theorem takes_of_failure {terminal : Terminal} (hconnected : terminal.connected = true)
    {data : List UInt8} {k : Nat} {reason : String}
    (hgives : GivesUpAt terminal.device.writes data.length k reason)
    (hdelivered : (Device.writeAll terminal.device.writes data).1 =
      data.take (accepted data.length (terminal.device.writes.take k)))
    (hfailed : (Device.writeAll terminal.device.writes data).2.2 = some reason) :
    terminal.Takes data (accepted data.length (terminal.device.writes.take k))
      (terminal.emit data).1 (terminal.emit data).2 := by
  obtain ⟨hemission, hflushes⟩ := emit_of_failure hfailed
  have hleft := hgives.left
  have hfailure : (terminal.emit data).1 = some reason := congrArg Emission.failure hemission
  have hcontents := contents_emit hconnected data
  rw [hemission, hdelivered] at hcontents
  rw [hfailure]
  exact {
    count_le := Nat.le_of_lt hleft
    contents := hcontents
    whole := ⟨fun hall => by omega, fun hnever => absurd hgives (hnever k reason)⟩
    flushed := by
      rw [hemission]
      exact ⟨fun hflushed => Bool.noConfusion hflushed, fun hall => by omega⟩
    flushes := by
      rw [if_neg (Nat.ne_of_lt hleft)]
      exact hflushes
    failed := ⟨fun _ => .inl hleft, fun _ => Option.some_ne_none reason⟩
    refused := fun j other hother => by
      obtain ⟨rfl, rfl⟩ := hgives.unique hother
      exact ⟨rfl, rfl⟩
    unflushed := fun hall => by omega }

theorem takes_of_written {terminal : Terminal} (hconnected : terminal.connected = true)
    {data : List UInt8}
    (hnever : ∀ k reason, ¬GivesUpAt terminal.device.writes data.length k reason)
    (hdelivered : (Device.writeAll terminal.device.writes data).1 = data)
    (hwritten : (Device.writeAll terminal.device.writes data).2.2 = none) :
    terminal.Takes data data.length (terminal.emit data).1 (terminal.emit data).2 := by
  obtain ⟨hemission, hflushes⟩ := emit_of_written hwritten
  have hfailure : (terminal.emit data).1 =
      terminal.device.flushes.head?.bind FlushOutcome.reason? := congrArg Emission.failure hemission
  have hcontents := contents_emit hconnected data
  rw [hemission, hdelivered] at hcontents
  rw [hfailure]
  exact {
    count_le := Nat.le_refl _
    contents := by rwa [List.take_length]
    whole := ⟨fun _ => hnever, fun _ => rfl⟩
    flushed := by
      rw [hemission]
      exact ⟨fun _ => rfl, fun _ => rfl⟩
    flushes := by
      rw [if_pos rfl]
      exact hflushes
    failed := ⟨.inr, fun hfailed => hfailed.resolve_left (Nat.lt_irrefl _)⟩
    refused := fun k reason hgives => absurd hgives (hnever k reason)
    unflushed := fun _ => rfl }

/-- Whatever the scripts of its device say, a connected terminal delivers a beginning of the
bytes, and there is one reason for a failure at most. -/
theorem takes_emit {terminal : Terminal} (hconnected : terminal.connected = true)
    (data : List UInt8) :
    ∃ count, terminal.Takes data count (terminal.emit data).1 (terminal.emit data).2 := by
  rcases Device.writeAll_cases terminal.device.writes data with
    ⟨k, reason, hgives, hdelivered, hfailed⟩ | ⟨hnever, hdelivered, hwritten⟩
  · exact ⟨_, takes_of_failure hconnected hgives hdelivered hfailed⟩
  · exact ⟨_, takes_of_written hconnected hnever hdelivered hwritten⟩

end Terminal

end WordMachine
