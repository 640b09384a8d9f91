import ChannelDirectory.Proofs.KeyMap
import ChannelDirectory.Proofs.Record.RoundTrip

/-!
# The layout of documents

Which documents are written for records can be said without writing them : a document is an object
whose members are those of a list of fields, all of them except optional ones, each with a value of
its kind (`Json.IsRecord`). `Channel.fields`, `Tag.fields` and `Property.fields` list the fields of
each type, and a document has these fields if and only if it is the document of a record
(`Channel.isRecord_iff`, `Tag.isRecord_iff`, `Property.isRecord_iff`). A document with an unknown
member, an empty list of channels or a value that is null decodes as well, but no record is written
like that.
-/

namespace ChannelDirectory

/-- A member of a document: its name, of which kind its value is, and whether it may be left out. -/
structure RecordField where
  name : String
  kind : Json → Prop
  optional : Bool := false

namespace Json

/-- The value is a text. -/
def IsText (value : Json) : Prop :=
  ∃ text, value = .string text

/-- The value is a list of values of one kind. -/
def IsListOf (kind : Json → Prop) (value : Json) : Prop :=
  ∃ items, value = .array items ∧ ∀ item ∈ items, kind item

/-- The value is an object with these fields: it has no other members, none of its members is of
the wrong kind, and only optional ones are left out. -/
def IsRecord (fields : List RecordField) (value : Json) : Prop :=
  ∃ members, value = .object members ∧ Ascending members ∧
    (∀ e ∈ members, ∃ field ∈ fields, field.name = e.1 ∧ field.kind e.2) ∧
    ∀ field ∈ fields, field.optional = false → ∃ value, (field.name, value) ∈ members

/-- A list of documents is made of the documents of records. -/
theorem isListOf_iff {α : Type} {kind : Json → Prop} {encode : α → Json}
    (h : ∀ doc, kind doc ↔ ∃ record, doc = encode record) {value : Json} :
    IsListOf kind value ↔ ∃ records : List α, value = .array (records.map encode) := by
  constructor
  · rintro ⟨items, rfl, hitems⟩
    induction items with
    | nil => exact ⟨[], rfl⟩
    | cons item items ih =>
      obtain ⟨hitem, hrest⟩ := List.forall_mem_cons.mp hitems
      obtain ⟨record, rfl⟩ := (h item).mp hitem
      obtain ⟨records, hrecords⟩ := ih hrest
      exact ⟨record :: records, by rw [Json.array.inj hrecords]; rfl⟩
  · rintro ⟨records, rfl⟩
    refine ⟨_, rfl, fun item hitem => ?_⟩
    obtain ⟨record, -, rfl⟩ := List.mem_map.mp hitem
    exact (h _).mpr ⟨record, rfl⟩

/-- Values for the fields, in their order, without some of the optional ones. -/
inductive Fills : List RecordField → List (String × Json) → Prop where
  | nil : Fills [] []
  | cons {field : RecordField} {value : Json} {fields : List RecordField}
      {members : List (String × Json)} :
      field.kind value → Fills fields members →
        Fills (field :: fields) ((field.name, value) :: members)
  | skip {field : RecordField} {fields : List RecordField} {members : List (String × Json)} :
      field.optional = true → Fills fields members → Fills (field :: fields) members

variable {fields : List RecordField} {members : List (String × Json)}

theorem Fills.names_sublist (h : Fills fields members) :
    (members.map Prod.fst).Sublist (fields.map RecordField.name) := by
  induction h with
  | nil => exact List.Sublist.refl _
  | cons _ _ ih => exact ih.cons_cons _
  | skip _ _ ih => exact ih.cons _

theorem Fills.known (h : Fills fields members) :
    ∀ e ∈ members, ∃ field ∈ fields, field.name = e.1 ∧ field.kind e.2 := by
  induction h with
  | nil => exact List.forall_mem_nil _
  | cons hkind _ ih =>
    refine List.forall_mem_cons.mpr ⟨⟨_, List.mem_cons_self, rfl, hkind⟩, fun e he => ?_⟩
    obtain ⟨field, hfield, h⟩ := ih e he
    exact ⟨field, List.mem_cons_of_mem _ hfield, h⟩
  | skip _ _ ih =>
    intro e he
    obtain ⟨field, hfield, h⟩ := ih e he
    exact ⟨field, List.mem_cons_of_mem _ hfield, h⟩

theorem Fills.complete (h : Fills fields members) :
    ∀ field ∈ fields, field.optional = false → ∃ value, (field.name, value) ∈ members := by
  induction h with
  | nil => exact List.forall_mem_nil _
  | cons _ _ ih =>
    refine List.forall_mem_cons.mpr
      ⟨fun _ => ⟨_, List.mem_cons_self⟩, fun field hfield hneeded => ?_⟩
    obtain ⟨value, hvalue⟩ := ih field hfield hneeded
    exact ⟨value, List.mem_cons_of_mem _ hvalue⟩
  | skip hoptional _ ih =>
    refine List.forall_mem_cons.mpr ⟨fun hneeded => ?_, ih⟩
    rw [hoptional] at hneeded
    cases hneeded

/-- What an object holds under the names of the fields. -/
theorem fills_filterMap_lookup
    (hkind : ∀ field ∈ fields, ∀ value, KeyMap.lookup field.name members = some value →
      field.kind value)
    (hneeded : ∀ field ∈ fields, field.optional = false →
      ∃ value, KeyMap.lookup field.name members = some value) :
    Fills fields (fields.filterMap fun field =>
      (KeyMap.lookup field.name members).map fun value => (field.name, value)) := by
  induction fields with
  | nil => exact .nil
  | cons field fields ih =>
    obtain ⟨hkind, hkinds⟩ := List.forall_mem_cons.mp hkind
    obtain ⟨hneeded, hneededs⟩ := List.forall_mem_cons.mp hneeded
    rw [List.filterMap_cons]
    cases hlookup : KeyMap.lookup field.name members with
    | some value => exact .cons (hkind value hlookup) (ih hkinds hneededs)
    | none =>
      refine .skip ?_ (ih hkinds hneededs)
      by_contra hoptional
      obtain ⟨value, hvalue⟩ := hneeded (Bool.not_eq_true _ ▸ hoptional)
      rw [hlookup] at hvalue
      cases hvalue

/-- Values for the fields make an object with these fields. -/
theorem Fills.isRecord (distinct : (fields.map RecordField.name).Nodup)
    (h : Fills fields members) : IsRecord fields (ofMembers members) := by
  have hmem : ∀ e, e ∈ (KeyMap.ofList members).entries ↔ e ∈ members := fun e => by
    rw [← KeyMap.get?_eq_some_iff_mem]
    exact ⟨KeyMap.mem_of_get?_ofList,
      KeyMap.get?_ofList_of_mem (distinct.sublist h.names_sublist)⟩
  refine ⟨_, rfl, (KeyMap.ofList members).ascending, fun e he => h.known e ((hmem e).mp he),
    fun field hfield hneeded => ?_⟩
  obtain ⟨value, hvalue⟩ := h.complete field hfield hneeded
  exact ⟨value, (hmem _).mpr hvalue⟩

/-- Members that all belong to fields are those under the names of the fields. -/
theorem mem_filterMap_lookup_iff (ascending : Ascending members)
    (known : ∀ e ∈ members, ∃ field ∈ fields, field.name = e.1 ∧ field.kind e.2)
    (e : String × Json) :
    e ∈ (fields.filterMap fun field =>
      (KeyMap.lookup field.name members).map fun value => (field.name, value)) ↔ e ∈ members := by
  rw [List.mem_filterMap]
  constructor
  · rintro ⟨field, -, hvalue⟩
    obtain ⟨value, hfound, rfl⟩ := Option.map_eq_some_iff.mp hvalue
    exact (KeyMap.mem_iff_lookup ascending).mpr hfound
  · intro hmem
    obtain ⟨key, value⟩ := e
    obtain ⟨field, hfield, rfl, -⟩ := known _ hmem
    exact ⟨field, hfield, by rw [(KeyMap.mem_iff_lookup ascending).mp hmem]; rfl⟩

/-- An object with some fields is made by values for them : those under their names. -/
theorem IsRecord.exists_fills (distinct : (fields.map RecordField.name).Nodup) {doc : Json}
    (h : IsRecord fields doc) : ∃ members, Fills fields members ∧ doc = ofMembers members := by
  obtain ⟨members, rfl, ascending, known, complete⟩ := h
  have hkinds : ∀ field ∈ fields, ∀ value, KeyMap.lookup field.name members = some value →
      field.kind value := by
    intro field hfield value hvalue
    obtain ⟨field', hfield', hname, hkind⟩ := known _ ((KeyMap.mem_iff_lookup ascending).mpr hvalue)
    rwa [List.inj_on_of_nodup_map distinct hfield' hfield hname] at hkind
  have hneeded : ∀ field ∈ fields, field.optional = false →
      ∃ value, KeyMap.lookup field.name members = some value := by
    intro field hfield hoptional
    obtain ⟨value, hvalue⟩ := complete field hfield hoptional
    exact ⟨value, (KeyMap.mem_iff_lookup ascending).mp hvalue⟩
  have hfills := fills_filterMap_lookup hkinds hneeded
  have hmap : (⟨members, ascending⟩ : KeyMap Json) = KeyMap.ofList (fields.filterMap
      fun field => (KeyMap.lookup field.name members).map fun value => (field.name, value)) := by
    refine KeyMap.ext_get? fun key => Option.ext fun value => ?_
    rw [KeyMap.get?_eq_some_iff_mem, ← mem_filterMap_lookup_iff ascending known]
    exact ⟨KeyMap.get?_ofList_of_mem (distinct.sublist hfills.names_sublist),
      KeyMap.mem_of_get?_ofList⟩
  exact ⟨_, hfills, by rw [ofMembers, ← hmap]⟩

/-- The objects with some fields are those that values for the fields make. -/
theorem isRecord_iff_exists_fills (distinct : (fields.map RecordField.name).Nodup) (doc : Json) :
    IsRecord fields doc ↔ ∃ members, Fills fields members ∧ doc = ofMembers members := by
  refine ⟨IsRecord.exists_fills distinct, ?_⟩
  rintro ⟨members, hfills, rfl⟩
  exact hfills.isRecord distinct

end Json

open Json

/-- The fields of a tag on a channel. -/
def TagRef.fields : List RecordField :=
  [⟨"name", IsText, false⟩, ⟨"owner", IsText, false⟩]

/-- The fields of a property of a channel. -/
def PropertyRef.fields : List RecordField :=
  [⟨"name", IsText, false⟩, ⟨"owner", IsText, false⟩, ⟨"value", IsText, false⟩]

/-- The fields of a channel. -/
def Channel.fields : List RecordField :=
  [⟨"name", IsText, false⟩, ⟨"owner", IsText, false⟩,
    ⟨"tags", IsListOf (IsRecord TagRef.fields), false⟩,
    ⟨"properties", IsListOf (IsRecord PropertyRef.fields), false⟩]

/-- The field for channels, which is left out if there are none. -/
def channelsField : RecordField :=
  ⟨"channels", fun value => IsListOf (IsRecord Channel.fields) value ∧ value ≠ .array [], true⟩

/-- The fields of a tag. -/
def Tag.fields : List RecordField :=
  [⟨"name", IsText, false⟩, ⟨"owner", IsText, false⟩, channelsField]

/-- The fields of a property. -/
def Property.fields : List RecordField :=
  [⟨"name", IsText, false⟩, ⟨"owner", IsText, false⟩, ⟨"value", IsText, true⟩, channelsField]

theorem TagRef.isRecord_iff (doc : Json) :
    IsRecord TagRef.fields doc ↔ ∃ r : TagRef, doc = r.encode ofMembers := by
  rw [isRecord_iff_exists_fills (by decide)]
  constructor
  · rintro ⟨members, hfills, rfl⟩
    rcases hfills with _ | ⟨⟨name, rfl⟩, hfills⟩ | ⟨⟨⟩⟩
    rcases hfills with _ | ⟨⟨owner, rfl⟩, hfills⟩ | ⟨⟨⟩⟩
    cases hfills
    exact ⟨⟨name, owner⟩, rfl⟩
  · rintro ⟨r, rfl⟩
    exact ⟨_, .cons ⟨_, rfl⟩ (.cons ⟨_, rfl⟩ .nil), rfl⟩

theorem PropertyRef.isRecord_iff (doc : Json) :
    IsRecord PropertyRef.fields doc ↔ ∃ r : PropertyRef, doc = r.encode ofMembers := by
  rw [isRecord_iff_exists_fills (by decide)]
  constructor
  · rintro ⟨members, hfills, rfl⟩
    rcases hfills with _ | ⟨⟨name, rfl⟩, hfills⟩ | ⟨⟨⟩⟩
    rcases hfills with _ | ⟨⟨owner, rfl⟩, hfills⟩ | ⟨⟨⟩⟩
    rcases hfills with _ | ⟨⟨value, rfl⟩, hfills⟩ | ⟨⟨⟩⟩
    cases hfills
    exact ⟨⟨name, owner, value⟩, rfl⟩
  · rintro ⟨r, rfl⟩
    exact ⟨_, .cons ⟨_, rfl⟩ (.cons ⟨_, rfl⟩ (.cons ⟨_, rfl⟩ .nil)), rfl⟩

theorem Channel.isRecord_iff (doc : Json) :
    IsRecord Channel.fields doc ↔ ∃ c : Channel, doc = c.encode ofMembers := by
  rw [isRecord_iff_exists_fills (by decide)]
  constructor
  · rintro ⟨members, hfills, rfl⟩
    rcases hfills with _ | ⟨⟨name, rfl⟩, hfills⟩ | ⟨⟨⟩⟩
    rcases hfills with _ | ⟨⟨owner, rfl⟩, hfills⟩ | ⟨⟨⟩⟩
    rcases hfills with _ | ⟨htags, hfills⟩ | ⟨⟨⟩⟩
    rcases hfills with _ | ⟨hproperties, hfills⟩ | ⟨⟨⟩⟩
    cases hfills
    obtain ⟨tags, rfl⟩ := (isListOf_iff TagRef.isRecord_iff).mp htags
    obtain ⟨properties, rfl⟩ := (isListOf_iff PropertyRef.isRecord_iff).mp hproperties
    exact ⟨⟨name, owner, tags, properties⟩, rfl⟩
  · rintro ⟨c, rfl⟩
    have htags := (isListOf_iff TagRef.isRecord_iff).mpr ⟨c.tags, rfl⟩
    have hproperties := (isListOf_iff PropertyRef.isRecord_iff).mpr ⟨c.properties, rfl⟩
    exact ⟨_, .cons ⟨_, rfl⟩ (.cons ⟨_, rfl⟩ (.cons htags (.cons hproperties .nil))), rfl⟩

/-- The field for channels is filled with some channels, or left out. -/
theorem fills_channelsField_iff {members : List (String × Json)} :
    Fills [channelsField] members ↔
      ∃ channels : List Channel, members = encodeChannels ofMembers channels := by
  constructor
  · intro hfills
    rcases hfills with _ | ⟨⟨hchannels, hne⟩, hfills⟩ | ⟨-, hfills⟩
    · cases hfills
      obtain ⟨channels, rfl⟩ := (isListOf_iff Channel.isRecord_iff).mp hchannels
      refine ⟨channels, ?_⟩
      rw [encodeChannels, if_neg]
      · rfl
      · rw [List.isEmpty_iff]
        rintro rfl
        exact hne rfl
    · cases hfills
      exact ⟨[], rfl⟩
  · rintro ⟨channels, rfl⟩
    cases channels with
    | nil => exact .skip rfl .nil
    | cons c rest =>
      refine .cons ⟨(isListOf_iff Channel.isRecord_iff).mpr ⟨c :: rest, rfl⟩, ?_⟩ .nil
      rintro ⟨⟩

theorem Tag.isRecord_iff (doc : Json) :
    IsRecord Tag.fields doc ↔ ∃ t : Tag, doc = t.encode ofMembers := by
  rw [isRecord_iff_exists_fills (by decide)]
  constructor
  · rintro ⟨members, hfills, rfl⟩
    rcases hfills with _ | ⟨⟨name, rfl⟩, hfills⟩ | ⟨⟨⟩⟩
    rcases hfills with _ | ⟨⟨owner, rfl⟩, hfills⟩ | ⟨⟨⟩⟩
    obtain ⟨channels, rfl⟩ := fills_channelsField_iff.mp hfills
    exact ⟨⟨name, owner, channels⟩, rfl⟩
  · rintro ⟨t, rfl⟩
    have hchannels := fills_channelsField_iff.mpr ⟨t.channels, rfl⟩
    exact ⟨_, .cons ⟨_, rfl⟩ (.cons ⟨_, rfl⟩ hchannels), rfl⟩

theorem Property.isRecord_iff (doc : Json) :
    IsRecord Property.fields doc ↔ ∃ p : Property, doc = p.encode ofMembers := by
  rw [isRecord_iff_exists_fills (by decide)]
  constructor
  · rintro ⟨members, hfills, rfl⟩
    rcases hfills with _ | ⟨⟨name, rfl⟩, hfills⟩ | ⟨⟨⟩⟩
    rcases hfills with _ | ⟨⟨owner, rfl⟩, hfills⟩ | ⟨⟨⟩⟩
    rcases hfills with _ | ⟨⟨value, rfl⟩, hfills⟩ | ⟨-, hfills⟩
    · obtain ⟨channels, rfl⟩ := fills_channelsField_iff.mp hfills
      exact ⟨⟨name, owner, some value, channels⟩, rfl⟩
    · obtain ⟨channels, rfl⟩ := fills_channelsField_iff.mp hfills
      exact ⟨⟨name, owner, none, channels⟩, rfl⟩
  · rintro ⟨⟨name, owner, value, channels⟩, rfl⟩
    have hchannels := fills_channelsField_iff.mpr ⟨channels, rfl⟩
    cases value with
    | some value =>
      exact ⟨_, .cons ⟨_, rfl⟩ (.cons ⟨_, rfl⟩ (.cons ⟨_, rfl⟩ hchannels)), rfl⟩
    | none => exact ⟨_, .cons ⟨_, rfl⟩ (.cons ⟨_, rfl⟩ (.skip rfl hchannels)), rfl⟩

end ChannelDirectory
