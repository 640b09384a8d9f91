import ChannelDirectory.Proofs.Directory.Conduct
import ChannelDirectory.Proofs.Record.Printing
import ChannelDirectory.Proofs.Store.Snapshots

/-!
# Commands write what can be printed

Commands write the documents of records and no others. That every document of a store has a property
is a rule for clients (`Regime.documents`), and the commands keep to it if the documents of all
records have the property (`Directory.upholds_documents`). Such documents are printable, hence a
store that can be saved can be saved after every command (`Directory.run_printable`).
-/

namespace ChannelDirectory

open Attribute Collection LawfulAttribute Program Json Store

/-! ## The rule -/

/-- A property that the documents of all records have. -/
structure OfRecords (P : Json → Prop) : Prop where
  channel : ∀ c : Channel, P (toDocument c)
  tag : ∀ t : Tag, P (toDocument t)
  property : ∀ p : Property, P (toDocument p)

/-- That documents can be printed is a matter of their records. -/
theorem ofRecords_printable : OfRecords (Printable documentDepth) where
  channel c := c.printable_encode.mono (by decide)
  tag t := t.canonical.printable_encode.mono (by decide)
  property p := p.canonical.printable_encode.mono (by decide)

/-- The rule that every document has a property. -/
def Regime.documents (P : Json → Prop) : Regime where
  state b := b.store.All P
  allows op := ∀ doc ∈ op.doc?, P doc
  errors _ := True
  congr h hstore _ := hstore ▸ h
  after h hops := h.after hops
  errors_of_not_refusal _ := trivial

namespace Directory

variable {dir : Directory} {P : Json → Prop}

/-- A property of documents that all records and channels have is granted to every command. -/
theorem attributeRules_documents {α ρ : Type} [Attribute α ρ] [Reference ρ] [LawfulAttribute α]
    (channel : ∀ c : Channel, P (toDocument c)) (record : ∀ r : α, P (toDocument r)) :
    dir.AttributeRules (.documents P) (fun _ => True) α fun _ => True where
  yields _ _ _ _ _ _ _ := trivial
  put c _ := by
    rintro _ ⟨⟩
    exact channel c
  replace c _ := by
    rintro _ ⟨⟩
    exact channel c
  delete _ := by rintro _ ⟨⟩
  refs _ _ _ _ := trivial
  setRefs _ _ _ _ _ := trivial
  memberRef _ _ _ _ := trivial
  singleRef _ _ _ _ _ := trivial
  rebind _ _ _ _ := trivial
  putRecord r _ := by
    rintro _ ⟨⟩
    exact record r
  deleteRecord _ := by rintro _ ⟨⟩

/-- Every command writes only documents of records. -/
theorem upholds_documents (h : OfRecords P) (command : Command) :
    (dir.program command).Upholds (.documents P) fun _ => True :=
  upholds_program (attributeRules_documents h.channel h.tag)
    (attributeRules_documents h.channel h.property) (fun _ _ _ _ _ _ => trivial) command

/-- A store that can be saved and loaded can be so after every command, however it ends. -/
theorem run_printable (dir : Directory) {b : Backend} (h : b.store.All (Printable documentDepth))
    (command : Command) :
    ((dir.program command).run b).2.store.All (Printable documentDepth) :=
  ((upholds_documents ofRecords_printable command).run h).1

end Directory

end ChannelDirectory
