import ChannelDirectory.Proofs.Json.RoundTrip
import ChannelDirectory.Record.Codec

/-!
# Records as texts

The document of a record is an object of texts and of lists of such objects, so it is printable
whatever the texts are, and reading its text gives it back (`Json.read_pretty`). A channel has
objects two levels below its own, and a tag or property with its channels has two more.
-/

namespace ChannelDirectory

open Json

theorem TagRef.printable_encode (ref : TagRef) : Printable 1 (ref.encode ofMembers) :=
  printable_ofMembers (by simp [printable_string])

theorem PropertyRef.printable_encode (ref : PropertyRef) : Printable 1 (ref.encode ofMembers) :=
  printable_ofMembers (by simp [printable_string])

theorem Channel.printable_encode (c : Channel) : Printable 3 (c.encode ofMembers) := by
  have htags : Printable 2 (.array (c.tags.map (TagRef.encode ofMembers))) :=
    printable_array (List.forall_mem_map.mpr fun ref _ => ref.printable_encode)
  have hproperties : Printable 2 (.array (c.properties.map (PropertyRef.encode ofMembers))) :=
    printable_array (List.forall_mem_map.mpr fun ref _ => ref.printable_encode)
  exact printable_ofMembers (by simp [printable_string, htags, hproperties])

theorem printable_encodeChannels (channels : List Channel) :
    ∀ e ∈ encodeChannels ofMembers channels, Printable 4 e.2 := by
  rw [encodeChannels]
  split
  · exact List.forall_mem_nil _
  · exact List.forall_mem_singleton.mpr
      (printable_array (List.forall_mem_map.mpr fun c _ => c.printable_encode))

theorem Tag.printable_encode (t : Tag) : Printable 5 (t.encode ofMembers) := by
  refine printable_ofMembers (List.forall_mem_append.mpr ⟨?_, printable_encodeChannels t.channels⟩)
  simp [printable_string]

theorem Property.printable_encode (p : Property) : Printable 5 (p.encode ofMembers) := by
  refine printable_ofMembers (List.forall_mem_append.mpr
    ⟨List.forall_mem_append.mpr ⟨?_, ?_⟩, printable_encodeChannels p.channels⟩)
  · simp [printable_string]
  · exact List.forall_mem_map.mpr fun value _ => printable_string value

end ChannelDirectory
