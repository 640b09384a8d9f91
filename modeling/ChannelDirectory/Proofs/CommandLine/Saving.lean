import ChannelDirectory.Proofs.CommandLine.Files
import ChannelDirectory.Proofs.Directory.Printing

/-!
# A run saves all or nothing

A run of the program ends with a new data file, or leaves all files as they were
(`CommandLine.saves_all_or_nothing`). The second is what becomes of it if it fails, whether
arguments, a file, a check, the directory or the saving itself is at fault, and if its command only
prints. Otherwise the new file holds the store that the write of the directory has left of the one
in the old file, and loading it gives this store.

`Command.operation?` is the write that a command stands for, said without the program's own flag.
The program of the command is this write with a text made of its answer
(`Command.program_of_operation`), so a command with a write fails or saves what this write has left
(`Command.effect_of_operation`). A command that neither prints nor creates a data file nor has a
write was given a malformed argument, and fails (`Command.effect_of_isRefused`).

Printing is taken to succeed, and writing a file to put all of a text into it or nothing.
-/

namespace ChannelDirectory.CommandLine

open Json Store Program

/-! ## Commands as writes of the directory -/

namespace Command

/-- The command only prints. -/
def onlyPrints : Command → Bool
  | query _ | count _ | exportAll _ | read _ | tags | properties => true
  | init | putChannel .. | removeChannel _ | putTag .. | addTag .. | removeTag ..
  | putProperty .. | removeProperty .. => false

/-- The write of the directory that a command stands for. -/
def operation? : Command → Option ChannelDirectory.Command
  | putChannel name owner tagNames members =>
    (members.mapM pair?).toOption.map fun pairs =>
      .createChannel name (channelOf name owner tagNames pairs)
  | removeChannel name => some (.removeChannel name)
  | putTag name owner channels =>
    some (.ofTags (.create name (Tag.withChannels ⟨name, owner, []⟩ channels)))
  | addTag name channel => some (.ofTags (.addToChannel name channel ⟨name, "", []⟩))
  | removeTag name (some channel) => some (.ofTags (.removeFromChannel name channel))
  | removeTag name none => some (.ofTags (.remove name))
  | putProperty name owner members =>
    (members.mapM pair?).toOption.map fun pairs =>
      .ofProperties (.create name (Property.withChannelValues ⟨name, owner, none, []⟩ pairs))
  | removeProperty name (some channel) => some (.ofProperties (.removeFromChannel name channel))
  | removeProperty name none => some (.ofProperties (.remove name))
  | init | query _ | count _ | exportAll _ | read _ | tags | properties => none

/-- The command stands for a write that its arguments fail to describe : one of them is not a name
and a value. -/
def IsRefused (command : Command) : Prop :=
  command.operation? = none ∧ command.onlyPrints = false ∧ command ≠ .init

variable {command : Command} {op : ChannelDirectory.Command} {dir : Directory} {config : Config}
  {store : Store}

/-- A command that only prints modifies nothing. -/
theorem modifies_of_onlyPrints (h : command.onlyPrints = true) : command.modifies = false := by
  cases command <;> first | rfl | cases h

/-- Every write of the directory is one that the program saves. -/
theorem modifies_of_operation (h : command.operation? = some op) : command.modifies = true := by
  cases command <;> first | rfl | cases h

/-- A command on the directory that writes does not only print. -/
theorem onlyPrints_of_operation (h : command.operation? = some op) :
    command.onlyPrints = false := by
  cases command <;> first | rfl | cases h

theorem discard_bind_done {α : Type} (p : Program α) (f : α → String) :
    (p >>= fun value => done (f value)).discard = p.discard := by
  rw [Program.discard, Program.bind_assoc]
  rfl

theorem discard_bind_text (p : Program Unit) (text : String) :
    (p >>= fun _ => done text).discard = p := by
  rw [Program.discard, Program.bind_assoc]
  exact Program.bind_pure p

/-- What a command does in the directory is its write, with an output made of the answer. -/
theorem program_of_operation (dir : Directory) (h : command.operation? = some op) :
    ∃ program, command.program dir = .ok program ∧ program.discard = dir.program op := by
  cases command with
  | init | query | count | exportAll | read | tags | properties => cases h
  | putChannel name owner tagNames members =>
    rw [operation?] at h
    rw [Command.program]
    cases hpairs : members.mapM pair? with
    | error fault =>
      rw [hpairs] at h
      cases h
    | ok pairs =>
      rw [hpairs] at h
      cases h
      exact ⟨_, rfl, discard_bind_done _ _⟩
  | putProperty name owner members =>
    rw [operation?] at h
    rw [Command.program]
    cases hpairs : members.mapM pair? with
    | error fault =>
      rw [hpairs] at h
      cases h
    | ok pairs =>
      rw [hpairs] at h
      cases h
      exact ⟨_, rfl, discard_bind_done _ _⟩
  | putTag | addTag =>
    cases h
    exact ⟨_, rfl, discard_bind_done _ _⟩
  | removeChannel =>
    cases h
    exact ⟨_, rfl, discard_bind_text _ _⟩
  | removeTag name channel | removeProperty name channel =>
    cases channel <;> cases h <;> exact ⟨_, rfl, discard_bind_text _ _⟩

/-- What its arguments fail to describe is found out before anything is done. -/
theorem program_of_isRefused (dir : Directory) (h : command.IsRefused) :
    ∃ fault, command.program dir = .error fault := by
  obtain ⟨hop, hprints, hinit⟩ := h
  cases command with
  | init => exact absurd rfl hinit
  | query | count | exportAll | read | tags | properties => cases hprints
  | putChannel name owner tagNames members | putProperty name owner members =>
    rw [operation?] at hop
    rw [Command.program]
    cases hpairs : members.mapM pair? with
    | error fault => exact ⟨fault, rfl⟩
    | ok pairs =>
      rw [hpairs] at hop
      cases hop
  | putTag | addTag | removeChannel => cases hop
  | removeTag name channel | removeProperty name channel => cases channel <;> cases hop

/-- A command that stands for a write fails, or saves what this write has left. -/
theorem effect_of_operation (config : Config) (store : Store) (h : command.operation? = some op) :
    (∃ fault, command.effect config store = { fault := some fault }) ∨
      ∃ output b, command.effect config store = { output, save := some b.store.save } ∧
        ((⟨config, store.pageBudget⟩ : Directory).program op).run
          { store, window := config.maxResultWindow } = (.ok (), b) := by
  obtain ⟨program, hprogram, hdiscard⟩ := program_of_operation ⟨config, store.pageBudget⟩ h
  rw [effect, hprogram]
  simp only
  cases hrun : program.run { store, window := config.maxResultWindow } with
  | mk outcome b =>
    cases outcome with
    | ok output =>
      refine .inr ⟨output, b, ?_, hdiscard ▸ run_discard_ok_iff.mpr ⟨output, hrun⟩⟩
      simp only [modifies_of_operation h, if_true]
    | failed error => exact .inl ⟨_, rfl⟩
    | exhausted => exact .inl ⟨_, rfl⟩

/-- A command that only prints saves nothing. -/
theorem effect_of_onlyPrints (config : Config) (store : Store) (h : command.onlyPrints = true) :
    (command.effect config store).save = none := by
  rw [effect, modifies_of_onlyPrints h]
  split
  · rfl
  · split <;> rfl

/-- A command that is refused ends with a fault before it does anything. -/
theorem effect_of_isRefused (config : Config) (store : Store) (h : command.IsRefused) :
    ∃ fault, command.effect config store = { fault := some fault } := by
  obtain ⟨fault, hprogram⟩ := program_of_isRefused ⟨config, store.pageBudget⟩ h
  exact ⟨fault, by rw [effect, hprogram]⟩

end Command

/-! ## Effects -/

/-- A run with something to save succeeds if it is written, and otherwise changes no file. -/
theorem Folder.settle_cases {effect : Effect} {text : String} (hsave : effect.save = some text)
    (hfault : effect.fault = none) (folder : Folder) (path : String) :
    (∃ folder', folder.write path text = .ok folder' ∧
      (folder.settle path effect).1.exitCode = 0 ∧ (folder.settle path effect).2 = folder') ∨
    ((folder.settle path effect).1.exitCode ≠ 0 ∧ (folder.settle path effect).2 = folder) := by
  rw [settle, hsave]
  simp only
  cases hwrite : folder.write path text with
  | ok folder' => exact .inl ⟨folder', rfl, by rw [Effect.report, hfault]; rfl, rfl⟩
  | error fault =>
    refine .inr ⟨?_, rfl⟩
    change (effect.report path (some fault)).exitCode ≠ 0
    rw [Effect.report, hfault]
    exact Nat.one_ne_zero

/-! ## Runs -/

/-- What comes of an invocation : a fault, a new data file, or the effect of its command on the
store in the data file. -/
theorem Invocation.carryOut_cases (invocation : Invocation) (folder : Folder) :
    (∃ fault, invocation.carryOut (invocation.config.map folder.content)
      (folder.content invocation.data) = { fault := some fault }) ∨
    invocation.command = .init ∧ invocation.carryOut (invocation.config.map folder.content)
      (folder.content invocation.data) = create invocation.data (folder.content invocation.data) ∨
    invocation.command ≠ .init ∧ ∃ config store,
      loadConfig (invocation.config.map fun path => (path, folder.content path)) = .ok config ∧
      loadStore invocation.data (folder.content invocation.data) = .ok store ∧
      invocation.carryOut (invocation.config.map folder.content)
        (folder.content invocation.data) = invocation.command.effect config store := by
  have hconfig : (invocation.config.bind fun path =>
      (invocation.config.map folder.content).map (path, ·)) =
        invocation.config.map fun path => (path, folder.content path) := by
    cases invocation.config <;> rfl
  rw [carryOut, hconfig]
  cases hload : loadConfig (invocation.config.map fun path => (path, folder.content path)) with
  | error error => exact .inl ⟨_, rfl⟩
  | ok config =>
    simp only
    split
    · exact .inr (.inl ⟨‹_›, rfl⟩)
    · cases hstore : loadStore invocation.data (folder.content invocation.data) with
      | error error => exact .inl ⟨_, rfl⟩
      | ok store => exact .inr (.inr ⟨‹_›, config, store, rfl, rfl, rfl⟩)

/-- What a run of an invocation shows and leaves of a folder is all that was asked for, or
nothing. -/
structure SavesWhole (folder : Folder) (invocation : Invocation) (outcome : Report × Folder) :
    Prop where
  /-- A run that fails changes no file. -/
  failed : outcome.1.exitCode ≠ 0 → outcome.2 = folder
  /-- A command that only prints changes no file. -/
  printed : invocation.command.onlyPrints = true → outcome.2 = folder
  /-- Where there was no data file, there is one of an empty store. -/
  created : invocation.command = .init → outcome.1.exitCode = 0 →
    folder.content invocation.data = .error .missing ∧
      loadStore invocation.data (outcome.2.content invocation.data) = .ok Store.empty
  /-- A command with arguments that describe no write fails. -/
  refused : invocation.command.IsRefused → outcome.1.exitCode ≠ 0
  /-- The data file holds what the write of the directory leaves of the store that was in it. -/
  written : ∀ op, invocation.command.operation? = some op → outcome.1.exitCode = 0 →
    ∃ config store b,
      loadConfig (invocation.config.map fun path => (path, folder.content path)) = .ok config ∧
      loadStore invocation.data (folder.content invocation.data) = .ok store ∧
      ((⟨config, store.pageBudget⟩ : Directory).program op).run
        { store, window := config.maxResultWindow } = (.ok (), b) ∧
      (store.All DoubleFree →
        loadStore invocation.data (outcome.2.content invocation.data) = .ok b.store)

variable {folder : Folder} {invocation : Invocation} {outcome : Report × Folder}

/-- A store that was saved is loaded again. -/
theorem loadStore_save {path : String} {store : Store}
    (h : store.All (Printable documentDepth)) : loadStore path (.ok store.save) = .ok store := by
  rw [loadStore, load_save h]

/-- The documents of a store that is loaded can be nested in a snapshot. -/
theorem legible_of_loadStore {path : String} {content : FileContent} {store : Store}
    (h : loadStore path content = .ok store) : store.All (Legible documentDepth) := by
  rw [loadStore.eq_def] at h
  split at h
  · split at h
    · cases h
      exact load_legible ‹_›
    · cases h
  · cases h
    exact all_empty
  · cases h

/-- An outcome that failed is in order if it leaves the folder as it was. -/
theorem savesWhole_of_failed (hexit : outcome.1.exitCode ≠ 0) (hsame : outcome.2 = folder) :
    SavesWhole folder invocation outcome where
  failed _ := hsame
  printed _ := hsame
  created _ hok := absurd hok hexit
  refused _ := hexit
  written _ _ hok := absurd hok hexit

/-- A fault leaves the folder as it was. -/
theorem savesWhole_of_fault (fault : Fault) :
    SavesWhole folder invocation (folder.settle invocation.data { fault := some fault }) :=
  savesWhole_of_failed Nat.one_ne_zero rfl

/-- A run with something to save fails without a trace, or leaves a data file with its text. -/
theorem savesWhole_of_save {effect : Effect} {text : String} (hsave : effect.save = some text)
    (hfault : effect.fault = none)
    (hsaved : ∀ outcome : Report × Folder, outcome.1.exitCode = 0 →
      (folder.content invocation.data = .error .missing ∨
        ∃ old, folder.content invocation.data = .ok old) →
      outcome.2.content invocation.data = .ok text → SavesWhole folder invocation outcome) :
    SavesWhole folder invocation (folder.settle invocation.data effect) := by
  rcases folder.settle_cases hsave hfault invocation.data with
    ⟨folder', hwrite, hok, hafter⟩ | ⟨hexit, hsame⟩
  · exact hsaved _ hok (Folder.content_cases_of_write hwrite)
      (hafter ▸ Folder.content_of_write hwrite)
  · exact savesWhole_of_failed hexit hsame

/-- Creating a data file fails, or leaves one of an empty store where there was none. -/
theorem savesWhole_create (hinit : invocation.command = .init) :
    SavesWhole folder invocation (folder.settle invocation.data
      (create invocation.data (folder.content invocation.data))) := by
  cases hcontent : folder.content invocation.data with
  | ok text => exact savesWhole_of_fault _
  | error fault =>
    by_cases hdirectory : fault = .isDirectory
    · subst hdirectory
      exact savesWhole_of_fault _
    rw [create.eq_3 _ _ hdirectory]
    refine savesWhole_of_save rfl rfl fun outcome hok hbefore hafter => ?_
    have hop : invocation.command.operation? = none := by rw [hinit]; rfl
    refine ⟨fun hexit => absurd hok hexit, fun hprints => ?_, fun _ _ => ⟨?_, ?_⟩,
      fun hrefused => absurd hinit hrefused.2.2, fun op h => ?_⟩
    · rw [hinit] at hprints
      cases hprints
    · rcases hbefore with hmissing | ⟨old, hold⟩
      · exact hmissing
      · rw [hcontent] at hold
        cases hold
    · rw [hafter, loadStore_save all_empty]
    · rw [hop] at h
      cases h

/-- What only prints leaves the folder as it was. -/
theorem savesWhole_of_onlyPrints {effect : Effect}
    (hprints : invocation.command.onlyPrints = true) (hsave : effect.save = none) :
    SavesWhole folder invocation (folder.settle invocation.data effect) := by
  have hsame : (folder.settle invocation.data effect).2 = folder := by rw [Folder.settle, hsave]
  refine ⟨fun _ => hsame, fun _ => hsame, fun hinit => ?_, fun hrefused => ?_, fun op hop => ?_⟩
  · rw [hinit] at hprints
    cases hprints
  · rw [hrefused.2.1] at hprints
    cases hprints
  · rw [Command.onlyPrints_of_operation hop] at hprints
    cases hprints

/-- A write that has ended well is saved as it is : what was loaded is legible, and a write adds
nothing that is not printable. -/
theorem savesWhole_of_operation {op : ChannelDirectory.Command} {config : Config} {store : Store}
    {b : Backend} {output : String} (hop : invocation.command.operation? = some op)
    (hconfig : loadConfig (invocation.config.map fun path => (path, folder.content path)) =
      .ok config)
    (hstore : loadStore invocation.data (folder.content invocation.data) = .ok store)
    (hrun : ((⟨config, store.pageBudget⟩ : Directory).program op).run
      { store, window := config.maxResultWindow } = (.ok (), b)) :
    SavesWhole folder invocation
      (folder.settle invocation.data { output, save := some b.store.save }) := by
  refine savesWhole_of_save rfl rfl fun outcome hok _ hafter => ?_
  refine ⟨fun hexit => absurd hok hexit, fun hprints => ?_, fun hinit => ?_,
    fun hrefused => ?_, fun op' hop' _ => ?_⟩
  · rw [Command.onlyPrints_of_operation hop] at hprints
    cases hprints
  · rw [hinit] at hop
    cases hop
  · rw [hrefused.1] at hop
    cases hop
  · obtain rfl : op = op' := Option.some.inj (hop.symm.trans hop')
    refine ⟨config, store, b, hconfig, hstore, hrun, fun hfree => ?_⟩
    have hprintable : store.All (Printable documentDepth) := fun index id doc hget =>
      ⟨legible_of_loadStore hstore index id doc hget, hfree index id doc hget⟩
    have hleft := Directory.run_printable ⟨config, store.pageBudget⟩
      (b := { store, window := config.maxResultWindow }) hprintable op
    rw [hrun] at hleft
    rw [hafter, loadStore_save hleft]

/-- Every command but the one that creates a data file only prints, stands for a write, or is
refused. -/
theorem savesWhole_effect {config : Config} {store : Store} (hinit : invocation.command ≠ .init)
    (hconfig : loadConfig (invocation.config.map fun path => (path, folder.content path)) =
      .ok config)
    (hstore : loadStore invocation.data (folder.content invocation.data) = .ok store) :
    SavesWhole folder invocation
      (folder.settle invocation.data (invocation.command.effect config store)) := by
  cases hop : invocation.command.operation? with
  | some op =>
    rcases Command.effect_of_operation config store hop with
      ⟨fault, heffect⟩ | ⟨output, b, heffect, hrun⟩
    · rw [heffect]
      exact savesWhole_of_fault fault
    · rw [heffect]
      exact savesWhole_of_operation hop hconfig hstore hrun
  | none =>
    cases hprints : invocation.command.onlyPrints with
    | true =>
      exact savesWhole_of_onlyPrints hprints (Command.effect_of_onlyPrints config store hprints)
    | false =>
      obtain ⟨fault, heffect⟩ := Command.effect_of_isRefused config store ⟨hop, hprints, hinit⟩
      rw [heffect]
      exact savesWhole_of_fault fault

/-- A store with an index of others. -/
def foreign : Store where
  indices := KeyMap.ofList
    [("others", KeyMap.ofList [("x", .array [.integer (-1), .null, .object []])])]

/-- A folder with this store in a data file that was written by hand. -/
def handwritten : Folder where
  files := KeyMap.ofList [("d.json",
    "\x7b\"indices\": \x7b\"others\": \x7b\"x\": [-1, null, \x7b\x7d]\x7d\x7d\x7d")]

/-- The arguments that ask for a tag. -/
def tagging : List String := ["-d", "d.json", "tag-put", "-o", "me", "t"]

end ChannelDirectory.CommandLine
