import ChannelDirectory.Attributes
import ChannelDirectory.Channels
import ChannelDirectory.Proofs.Program.Endings

/-!
# Commands as programs

`Command` is any write of the directory, and `Directory.program` is its program without the
answer (`Program.discard`). What is proved of every command is proved of these programs: a write of
tags or properties is one of seven, whichever kind it is about.
-/

namespace ChannelDirectory

/-- A write of tags or of properties. -/
inductive AttributeCommand (α : Type) where
  | create (name : String) (record : α)
  | createMany (records : List α)
  | addToChannel (name channel : String) (request : α)
  | update (name : String) (request : α)
  | updateMany (records : List α)
  | remove (name : String)
  | removeFromChannel (name channel : String)

/-- A write of the directory. -/
inductive Command where
  | createChannel (name : String) (c : Channel)
  | createChannels (channels : List Channel)
  | updateChannel (name : String) (request : Channel)
  | updateChannels (requests : List Channel)
  | removeChannel (name : String)
  | ofTags (command : AttributeCommand Tag)
  | ofProperties (command : AttributeCommand Property)

namespace Program

variable {α : Type} {p : Program α} {b b' : Backend}

/-- The program without its value. -/
def discard (p : Program α) : Program Unit :=
  p >>= fun _ => done ()

/-- Without its value a program succeeds where it did, and leaves the same backend. -/
theorem run_discard_ok_iff {value : Unit} :
    p.discard.run b = (.ok value, b') ↔ ∃ answer, p.run b = (.ok answer, b') := by
  rw [discard, run_bind]
  rcases p.run b with ⟨answer | e | _, after⟩
  · change (Outcome.ok (), after) = _ ↔ _
    simp
  · simp
  · simp

/-- Without its value a program fails where it did, with the same error. -/
theorem run_discard_failed_iff {e : Error} :
    p.discard.run b = (.failed e, b') ↔ p.run b = (.failed e, b') := by
  rw [discard, run_bind]
  rcases p.run b with ⟨answer | e' | _, after⟩
  · change (Outcome.ok (), after) = _ ↔ _
    simp
  · simp
  · simp

theorem run_discard_exhausted_iff :
    p.discard.run b = (.exhausted, b') ↔ p.run b = (.exhausted, b') := by
  rw [discard, run_bind]
  rcases p.run b with ⟨answer | e | _, after⟩
  · change (Outcome.ok (), after) = _ ↔ _
    simp
  · simp
  · simp

/-- Without its value a program does as little harm as with it. -/
theorem Harmless.discard {short : Prop} (h : p.Harmless b short) : p.discard.Harmless b short := by
  intro outcome b' hrun
  cases outcome with
  | ok value => exact ⟨by rintro _ ⟨⟩, by rintro ⟨⟩⟩
  | failed e =>
    obtain ⟨hfailed, -⟩ := h _ _ (run_discard_failed_iff.mp hrun)
    refine ⟨?_, by rintro ⟨⟩⟩
    rintro _ ⟨⟩
    exact hfailed e rfl
  | exhausted => exact ⟨by rintro _ ⟨⟩, fun _ => (h _ _ (run_discard_exhausted_iff.mp hrun)).2 rfl⟩

/-- Dropping the value does not change what is left behind. -/
theorem run_discard_snd : (p.discard.run b).2 = (p.run b).2 :=
  p.run_map_snd _ b

end Program

namespace Directory

section Attributes

variable {α ρ : Type} [Attribute α ρ] [Reference ρ] [DecidableEq ρ]

/-- The program of a write of tags or properties. -/
def attributeProgram (dir : Directory) : AttributeCommand α → Program Unit
  | .create name record => (dir.createAttribute name record).discard
  | .createMany records => (dir.createAttributes records).discard
  | .addToChannel name channel request => (dir.addToChannel name channel request).discard
  | .update name request => (dir.updateAttribute name request).discard
  | .updateMany records => (dir.updateAttributes records).discard
  | .remove name => dir.removeAttribute α name
  | .removeFromChannel name channel => dir.removeFromChannel α name channel

end Attributes

/-- The program of a command. -/
def program (dir : Directory) : Command → Program Unit
  | .createChannel name c => (dir.createChannel name c).discard
  | .createChannels channels => (dir.createChannels channels).discard
  | .updateChannel name request => (dir.updateChannel name request).discard
  | .updateChannels requests => (dir.updateChannels requests).discard
  | .removeChannel name => dir.removeChannel name
  | .ofTags command => dir.attributeProgram command
  | .ofProperties command => dir.attributeProgram command

end Directory

end ChannelDirectory
