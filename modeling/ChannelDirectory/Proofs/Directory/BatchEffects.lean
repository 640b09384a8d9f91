import ChannelDirectory.Proofs.Directory.AttributeEffects

/-!
# What the writes of many tags or properties plan

Of two records of one name in a request the later one counts, so the records that are
written have different names. Each of them finds the references of its name as they are
stored, whatever has been staged for the records before it, and this carries the induction
over the records (`returns_stageReplaceAll`, `returns_stageMergeAll`).
-/

namespace ChannelDirectory

open Attribute Collection LawfulAttribute Program

namespace Directory

variable {α ρ : Type} [Attribute α ρ] {dir : Directory} {b : Backend} {names : String → Prop}
  {edits edits' : ChannelEdits} {after : String → String → Option ρ}

/-- The members that a request asks for, none if it is not valid. -/
def wanted (record : α) : KeyMap ρ :=
  (requestedMembers record).toOption.getD KeyMap.empty

theorem wanted_eq {record : α} {desired : KeyMap ρ} (h : requestedMembers record = .ok desired) :
    wanted record = desired := by
  rw [wanted, h]
  rfl

/-- The record that an update of many writes about : one that exists keeps its owner. -/
def merged (records : KeyMap α) (name : String) (record : α) : α :=
  match records.get? name with
  | some existing => withIdentity record name (Attribute.owner existing)
  | none => record

/-- What counts for a name is a record of the request with that name. -/
theorem get?_lastByName {records : List α} {name : String} {record : α}
    (h : (lastByName records).get? name = some record) :
    record ∈ records ∧ Entity.name record = name := by
  obtain ⟨r, hr, hname, rfl⟩ := KeyMap.mem_of_get?_ofList_map h
  exact ⟨hr, hname⟩

theorem get?_lastByName_of_mem {records : List α} {e : String × α}
    (h : e ∈ (lastByName records).entries) :
    (lastByName records).get? (Entity.name e.2) = some e.2 := by
  have hget := KeyMap.get?_eq_some_iff_mem.mpr h
  rwa [(get?_lastByName hget).2]

/-- The records that count have the names that they are filed under. -/
theorem names_values_lastByName (records : List α) :
    (lastByName records).values.map Entity.name = (lastByName records).keys :=
  (KeyMap.keys_ofList_map_self records Entity.name).symm

/-- The last record of a name is the only one of that name among the last records. -/
theorem find?_values_lastByName (records : List α) (name : String) :
    ((lastByName records).values.find? fun r => Entity.name r = name) =
      (lastByName records).get? name := by
  cases hget : (lastByName records).get? name with
  | none =>
    rw [List.find?_eq_none]
    intro r hr
    obtain ⟨key, hkey⟩ := KeyMap.mem_values_iff.mp hr
    rintro hname
    have hkeyname := (get?_lastByName hkey).2
    rw [← hkeyname, of_decide_eq_true hname] at hkey
    simp [hget] at hkey
  | some record =>
    have hmem : record ∈ (lastByName records).values := KeyMap.mem_values_iff.mpr ⟨name, hget⟩
    cases hfind : (lastByName records).values.find? fun r => Entity.name r = name with
    | none => simpa [(get?_lastByName hget).2] using List.find?_eq_none.mp hfind record hmem
    | some r =>
      obtain ⟨key, hkey⟩ := KeyMap.mem_values_iff.mp (List.mem_of_find?_eq_some hfind)
      have hname : Entity.name r = name := by simpa using List.find?_some hfind
      rw [← (get?_lastByName hkey).2, hname, hget] at hkey
      exact hkey.symm

theorem find?_name_eq_none {records : List α} {name : String}
    (h : name ∉ records.map Entity.name) :
    (records.find? fun r => Entity.name r = name) = none := by
  rw [List.find?_eq_none]
  intro r hr heq
  exact h (List.mem_map.mpr ⟨r, hr, of_decide_eq_true heq⟩)

variable [Reference ρ] [LawfulAttribute α]

/-- A record keeps its name when it takes over the owner that is stored. -/
theorem name_merged (records : KeyMap α) {name : String} {record : α}
    (h : Entity.name record = name) : Entity.name (merged records name record) = name := by
  unfold merged
  split
  · exact name_withIdentity record name _
  · exact h

variable [DecidableEq ρ]

/-! ## Replacing members -/

/-- The references that replacing the members of several records leads to. -/
theorem returns_stageReplaceAll (wf : dir.channels.HoldsOnly Channel.Distinct b.store)
    {records : List α} (distinct : (records.map Entity.name).Nodup)
    (h : (dir.stageReplaceAll records edits).Returns b edits')
    (staged : dir.Stages α b.store names edits after)
    (hnames : ∀ r ∈ records, names (Entity.name r))
    (hfresh : ∀ r ∈ records, ∀ channel, after channel (Entity.name r) =
      dir.refAt? α b.store channel (Entity.name r)) :
    (∀ r ∈ records, requestedMembers r = .ok (wanted r)) ∧
      dir.Stages α b.store names edits' fun channel name =>
        match records.find? fun r => Entity.name r = name with
        | some r => (wanted r).get? channel
        | none => after channel name := by
  induction records generalizing edits after with
  | nil =>
    obtain rfl := returns_done.mp h
    exact ⟨fun r hr => absurd hr List.not_mem_nil, staged⟩
  | cons record records ih =>
    obtain ⟨hnotin, hdistinct⟩ := List.nodup_cons.mp distinct
    obtain ⟨hname, hnames⟩ := List.forall_mem_cons.mp hnames
    obtain ⟨hfirst, hfresh⟩ := List.forall_mem_cons.mp hfresh
    obtain ⟨edits₁, hstage, h⟩ := (returns_bind (dir.readOnly_stageReplace record edits)).mp h
    obtain ⟨desired, hdesired, staged₁⟩ := returns_stageReplace wf hstage staged hname hfirst
    obtain rfl := wanted_eq hdesired
    -- The records that follow have other names, so they find what was there before.
    obtain ⟨hok, staged₂⟩ := ih hdistinct h staged₁ hnames fun r hr channel => by
      have hne : Entity.name r ≠ Entity.name record := fun heq =>
        hnotin (heq ▸ List.mem_map_of_mem hr)
      rw [if_neg hne]
      exact hfresh r hr channel
    refine ⟨List.forall_mem_cons.mpr ⟨hdesired, hok⟩, staged₂.congr fun channel name => ?_⟩
    by_cases heq : Entity.name record = name
    · subst heq
      rw [find?_name_eq_none hnotin, List.find?_cons_of_pos (by simp)]
      exact (if_pos rfl).symm
    · rw [List.find?_cons_of_neg (by simpa using heq), if_neg (Ne.symm heq)]

/-- The plan of many creations : of each name the last record is put, with the members that it asks
for. -/
theorem returns_createAllPlan (shape : dir.InShape α b.store) {records : List α}
    {p : EditPlan (List α)} (h : (dir.createAllPlan records).Returns b p) :
    (∀ name r, (lastByName records).get? name = some r →
      requestedMembers r = .ok (wanted r) ∧ ∀ channel ref, (wanted r).get? channel = some ref →
        ∃ c, (dir.channels.contents b.store).get? channel = some c) ∧
      p.ops = (lastByName records).values.map (dir.records α).putOp ∧
      p.answer = dir.readAttributes α (lastByName records).keys ∧
      dir.Stages α b.store (· ∈ (lastByName records).keys) p.edits fun channel name =>
        match (lastByName records).get? name with
        | some r => (wanted r).get? channel
        | none => dir.refAt? α b.store channel name := by
  obtain ⟨_, hchecks, h⟩ :=
    (returns_bind (readOnly_each fun record _ => dir.readOnly_checkRecord record)).mp h
  obtain ⟨edits, hedits, h⟩ := (returns_bind (dir.readOnly_stageReplaceAll _ _)).mp h
  obtain rfl := returns_done.mp h
  have hdistinct : ((lastByName records).values.map Entity.name).Nodup := by
    rw [names_values_lastByName]
    exact KeyMap.keys_nodup _
  have hnames : ∀ r ∈ (lastByName records).values, Entity.name r ∈ (lastByName records).keys := by
    intro r hr
    rw [← names_values_lastByName]
    exact List.mem_map_of_mem hr
  obtain ⟨hok, staged⟩ := returns_stageReplaceAll shape.channels hdistinct hedits
    (stages_empty (· ∈ (lastByName records).keys)) hnames fun r _ channel => rfl
  refine ⟨fun name r hget => ?_, rfl, rfl, staged.congr fun channel name => ?_⟩
  · have hmem : r ∈ (lastByName records).values := KeyMap.mem_values_iff.mpr ⟨name, hget⟩
    obtain ⟨_, hcheck⟩ := exists_of_returns_each dir.readOnly_checkRecord hchecks hmem
    obtain ⟨-, hchannels⟩ := returns_checkRecord shape.channels hcheck
    exact ⟨hok r hmem, fun channel ref => exists_stored_of_requested hchannels (hok r hmem)⟩
  · rw [find?_values_lastByName]

/-! ## Adding members -/

/-- Adds to edits what adds the channels of a checked record to its members. -/
def stageMergeOf (dir : Directory) (record : α) (ops : List Operation) (edits : ChannelEdits) :
    Program (List Operation × ChannelEdits) := do
  dir.checkRecord record
  let desired ← Program.check (requestedMembers record)
  let current ← dir.currentMembers α (Entity.name record)
  return (ops, stage α edits (Entity.name record) (Delta.merge current desired))

/-- Staging an addition leads to the members that are asked for and those that were there. -/
theorem returns_stageMergeOf (wf : dir.channels.HoldsOnly Channel.Distinct b.store) {record : α}
    {ops ops' : List Operation} (h : (dir.stageMergeOf record ops edits).Returns b (ops', edits'))
    (staged : dir.Stages α b.store names edits after) (hname : names (Entity.name record))
    (hfresh : ∀ channel, after channel (Entity.name record) =
      dir.refAt? α b.store channel (Entity.name record)) :
    ∃ desired, requestedMembers record = .ok desired ∧
      (∀ channel ref, desired.get? channel = some ref →
        ∃ c, (dir.channels.contents b.store).get? channel = some c) ∧ ops' = ops ∧
      dir.Stages α b.store names edits' fun channel name =>
        if name = Entity.name record then (desired.get? channel).or (after channel name)
        else after channel name := by
  obtain ⟨_, hcheck, h⟩ := (returns_bind (dir.readOnly_checkRecord record)).mp h
  obtain ⟨desired, hdesired, h⟩ := (returns_bind (readOnly_check _)).mp h
  obtain ⟨current, hcurrent, h⟩ := (returns_bind (dir.readOnly_currentMembers _)).mp h
  obtain ⟨rfl, rfl⟩ := Prod.mk.inj (returns_done.mp h)
  rw [returns_check] at hdesired
  obtain ⟨-, hchannels⟩ := returns_checkRecord wf hcheck
  have hnames : (Delta.merge current desired).Names (Entity.name record) :=
    Delta.names_merge fun channel ref href => (requestedMembers_ok hdesired href).2.1
  refine ⟨desired, hdesired, fun channel ref => exists_stored_of_requested hchannels hdesired, rfl,
    (staged.stage wf hnames hname).congr fun channel name => ?_⟩
  split
  · rename_i heq
    rw [heq, hfresh, ← returns_currentMembers wf hcurrent, Delta.result_merge]
  · rfl

variable [LawfulEntity α]

/-- One record of an update of many, as the record that it writes about. -/
theorem returns_stageMerge (shape : dir.InShape α b.store) {name : String} {record : α}
    (hrecord : Entity.name record = name) {ops ops' : List Operation}
    (h : (dir.stageMerge name record (ops, edits)).Returns b (ops', edits')) :
    (dir.stageMergeOf (merged ((dir.records α).contents b.store) name record)
      (if ((dir.records α).contents b.store).contains name then ops
        else ops ++ [(dir.records α).putOp record]) edits).Returns b (ops', edits') := by
  obtain ⟨existing, hexisting, h⟩ := (returns_bind ((dir.records α).readOnly_get name)).mp h
  obtain ⟨-, rfl⟩ := (returns_get shape.records).mp hexisting
  have hname := name_merged ((dir.records α).contents b.store) hrecord
  rw [stageMergeOf, hname, KeyMap.contains, merged]
  cases hget : ((dir.records α).contents b.store).get? name with
  | none =>
    rw [hget] at h
    exact h
  | some existing =>
    rw [hget] at h
    exact h

/-- One record of an update of many : it is put if there is none of its name, and its members are
added to those that are staged. -/
theorem stages_stageMerge (shape : dir.InShape α b.store) {name : String} {record : α}
    (hrecord : Entity.name record = name) {ops ops' : List Operation}
    (h : (dir.stageMerge name record (ops, edits)).Returns b (ops', edits'))
    (staged : dir.Stages α b.store names edits after) (hname : names name)
    (hfresh : ∀ channel, after channel name = dir.refAt? α b.store channel name) :
    (requestedMembers (merged ((dir.records α).contents b.store) name record) =
        .ok (wanted (merged ((dir.records α).contents b.store) name record)) ∧
      ∀ channel ref,
        (wanted (merged ((dir.records α).contents b.store) name record)).get? channel = some ref →
          ∃ c, (dir.channels.contents b.store).get? channel = some c) ∧
      ops' = (if ((dir.records α).contents b.store).contains name then ops
        else ops ++ [(dir.records α).putOp record]) ∧
      dir.Stages α b.store names edits' fun channel name' =>
        if name' = name then
          ((wanted (merged ((dir.records α).contents b.store) name record)).get? channel).or
            (after channel name')
        else after channel name' := by
  have hmerged := name_merged ((dir.records α).contents b.store) hrecord
  obtain ⟨desired, hdesired, hstored, hops, staged'⟩ := returns_stageMergeOf shape.channels
    (returns_stageMerge shape hrecord h) staged (hmerged.symm ▸ hname) (hmerged.symm ▸ hfresh)
  obtain rfl := wanted_eq hdesired
  rw [hmerged] at staged'
  exact ⟨⟨hdesired, hstored⟩, hops, staged'⟩

omit [Reference ρ] [LawfulAttribute α] [DecidableEq ρ] [LawfulEntity α] in
/-- The writes of the records that do not exist, with one more record in front. -/
theorem newPuts_cons (stored : KeyMap α) (e : String × α) (entries : List (String × α))
    (ops : List Operation) :
    (if stored.contains e.1 then ops else ops ++ [(dir.records α).putOp e.2]) ++
        (entries.filter fun e => !stored.contains e.1).map (fun e => (dir.records α).putOp e.2) =
      ops ++ ((e :: entries).filter fun e => !stored.contains e.1).map
        fun e => (dir.records α).putOp e.2 := by
  by_cases hcontains : stored.contains e.1 = true
  · rw [if_pos hcontains, List.filter_cons_of_neg (by simp [hcontains])]
  · rw [if_neg hcontains, List.filter_cons_of_pos (by simp [hcontains]), List.map_cons,
      List.append_assoc, List.singleton_append]

/-- The writes of the records that do not exist, and the references that adding the members of all
records leads to. -/
theorem returns_stageMergeAll (shape : dir.InShape α b.store) {entries : List (String × α)}
    (ascending : Ascending entries) (hnamed : ∀ e ∈ entries, Entity.name e.2 = e.1)
    {ops ops' : List Operation}
    (h : (dir.stageMergeAll entries (ops, edits)).Returns b (ops', edits'))
    (staged : dir.Stages α b.store names edits after) (hnames : ∀ e ∈ entries, names e.1)
    (hfresh : ∀ e ∈ entries, ∀ channel,
      after channel e.1 = dir.refAt? α b.store channel e.1) :
    (∀ e ∈ entries,
      requestedMembers (merged ((dir.records α).contents b.store) e.1 e.2) =
          .ok (wanted (merged ((dir.records α).contents b.store) e.1 e.2)) ∧
        ∀ channel ref,
          (wanted (merged ((dir.records α).contents b.store) e.1 e.2)).get? channel =
            some ref → ∃ c, (dir.channels.contents b.store).get? channel = some c) ∧
      ops' = ops ++ (entries.filter fun e =>
        !((dir.records α).contents b.store).contains e.1).map (fun e => (dir.records α).putOp e.2) ∧
      dir.Stages α b.store names edits' fun channel name =>
        match KeyMap.lookup name entries with
        | some r =>
          ((wanted (merged ((dir.records α).contents b.store) name r)).get? channel).or
            (after channel name)
        | none => after channel name := by
  induction entries generalizing edits after ops with
  | nil =>
    obtain ⟨rfl, rfl⟩ := Prod.mk.inj (returns_done.mp h)
    exact ⟨fun e he => absurd he List.not_mem_nil, (List.append_nil _).symm, staged⟩
  | cons e entries ih =>
    obtain ⟨name, record⟩ := e
    obtain ⟨first, tail⟩ := List.pairwise_cons.mp ascending
    obtain ⟨hrecord, hnamed⟩ := List.forall_mem_cons.mp hnamed
    obtain ⟨hname, hnames⟩ := List.forall_mem_cons.mp hnames
    obtain ⟨hfirst, hfresh⟩ := List.forall_mem_cons.mp hfresh
    obtain ⟨⟨ops₁, edits₁⟩, hstage, h⟩ :=
      (returns_bind (dir.readOnly_stageMerge name record (ops, edits))).mp h
    obtain ⟨hok, hops, staged₁⟩ := stages_stageMerge shape hrecord hstage staged hname hfirst
    -- The records that follow have other names, so they find what was there before.
    obtain ⟨hoks, hops', staged₂⟩ := ih tail hnamed h staged₁ hnames fun e he channel => by
      have hne : e.1 ≠ name := fun heq => String.lt_irrefl name (heq ▸ first e he)
      rw [if_neg hne]
      exact hfresh e he channel
    refine ⟨List.forall_mem_cons.mpr ⟨hok, hoks⟩, ?_, staged₂.congr fun channel name' => ?_⟩
    · rw [hops', hops]
      exact newPuts_cons ((dir.records α).contents b.store) (name, record) entries ops
    · by_cases heq : name' = name
      · subst heq
        rw [KeyMap.lookup_eq_none_of_lt first, KeyMap.lookup, if_pos rfl]
        exact (if_pos rfl).symm
      · rw [KeyMap.lookup, if_neg heq, if_neg heq]

/-- An update of many writes the records that do not exist, and adds the channels of each. -/
theorem returns_updateAllPlan (shape : dir.InShape α b.store) {records : List α}
    {p : EditPlan (List α)} (h : (dir.updateAllPlan records).Returns b p) :
    (∀ name r, (lastByName records).get? name = some r →
      requestedMembers (merged ((dir.records α).contents b.store) name r) =
          .ok (wanted (merged ((dir.records α).contents b.store) name r)) ∧
        ∀ channel ref,
          (wanted (merged ((dir.records α).contents b.store) name r)).get? channel = some ref →
            ∃ c, (dir.channels.contents b.store).get? channel = some c) ∧
      p.ops = ((lastByName records).filter fun name _ =>
        !((dir.records α).contents b.store).contains name).values.map (dir.records α).putOp ∧
      p.answer = dir.readAttributes α (lastByName records).keys ∧
      dir.Stages α b.store (· ∈ (lastByName records).keys) p.edits fun channel name =>
        match (lastByName records).get? name with
        | some r =>
          ((wanted (merged ((dir.records α).contents b.store) name r)).get? channel).or
            (dir.refAt? α b.store channel name)
        | none => dir.refAt? α b.store channel name := by
  obtain ⟨⟨ops, edits⟩, hedits, h⟩ := (returns_bind (dir.readOnly_stageMergeAll _ _)).mp h
  obtain rfl := returns_done.mp h
  have hnamed : ∀ e ∈ (lastByName records).entries, Entity.name e.2 = e.1 := fun e he =>
    (get?_lastByName (KeyMap.get?_eq_some_iff_mem.mpr he)).2
  obtain ⟨hok, hops, staged⟩ := returns_stageMergeAll shape (lastByName records).ascending hnamed
    hedits (stages_empty (· ∈ (lastByName records).keys)) (fun e he => List.mem_map_of_mem he)
    fun e _ channel => rfl
  have hputs : ops = ((lastByName records).filter fun name _ =>
      !((dir.records α).contents b.store).contains name).values.map (dir.records α).putOp := by
    rw [hops, KeyMap.values, KeyMap.filter, List.map_map]
    rfl
  exact ⟨fun name r hget => hok (name, r) (KeyMap.get?_eq_some_iff_mem.mp hget), hputs, rfl, staged⟩

omit [Reference ρ] [LawfulAttribute α] [DecidableEq ρ] in
/-- Records that exist stay, and for each other name its last record is stored. -/
theorem get?_contents_after_updateAll (s : Store) (records : List α) (name : String) :
    ((dir.records α).contents (s.after (((lastByName records).filter fun name _ =>
        !((dir.records α).contents s).contains name).values.map (dir.records α).putOp))).get? name =
      (((dir.records α).contents s).get? name).or
        (((lastByName records).get? name).map Entity.stored) := by
  rw [get?_contents_after_puts_values, KeyMap.get?_filter]
  · cases hget : ((dir.records α).contents s).get? name <;>
      cases (lastByName records).get? name <;> simp [KeyMap.contains, hget, Option.filter]
  · intro name r hget
    rw [KeyMap.get?_filter, Option.filter_eq_some_iff] at hget
    exact (get?_lastByName hget.1).2

end Directory

end ChannelDirectory
