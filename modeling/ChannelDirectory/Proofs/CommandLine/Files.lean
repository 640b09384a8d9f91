import ChannelDirectory.CommandLine.Folder
import ChannelDirectory.Proofs.KeyMap

/-!
# Files written and read

A path that can be written leads to one file of the folder, whether it is there already or not :
reading the path reads this file, and writing it changes no other one (`Folder.leadsTo_of_write`).
Only `.`, `..` and nothing at all can stand between the slashes of such a path, so where it leads
does not depend on the files (`Folder.foldlM_enter_folder`).
-/

namespace ChannelDirectory.CommandLine.Folder

variable {folder folder' : Folder} {path text : String}

/-- Reading a path gives the file of a name. -/
def LeadsTo (folder : Folder) (path name : String) : Prop :=
  folder.content path = (folder.files.get? name).elim (.error .missing) .ok

/-- The names that lead from folder to folder do so whatever files there are. -/
theorem enter_folder {place : Place} {name lead : String}
    (h : folder.enter place name = .ok (.folder lead)) :
    folder'.enter place name = .ok (.folder lead) := by
  cases place with
  | file => cases h
  | folder outer =>
    simp only [enter] at h ⊢
    split at h
    · rwa [if_pos ‹_›]
    · rw [if_neg ‹_›]
      split at h
      · rwa [if_pos ‹_›]
      · split at h
        · cases h
        · split at h <;> cases h

/-- A path that leads to a folder leads there whatever files there are. -/
theorem foldlM_enter_folder {names : List String} {place : Place} {lead : String}
    (h : names.foldlM folder.enter place = .ok (.folder lead)) :
    names.foldlM folder'.enter place = .ok (.folder lead) := by
  induction names generalizing place with
  | nil => exact h
  | cons name names ih =>
    rw [List.foldlM_cons] at h ⊢
    cases hstep : folder.enter place name with
    | error fault =>
      rw [hstep] at h
      cases h
    | ok next =>
      rw [hstep] at h
      cases next with
      | folder inner =>
        rw [enter_folder hstep]
        exact ih h
      | file =>
        -- Nothing lies below a file.
        cases names <;> cases h

/-- The last name of a path, if it is one, is parted from those before it. -/
theorem parents_append_last {names : List String} {name : String}
    (hlast : names.getLast?.getD "" = name) (hne : name ≠ "") :
    ((names.reverse.dropWhile fun x => decide (x = "")).drop 1).reverse ++ [name] = names := by
  rcases names.eq_nil_or_concat with rfl | ⟨parents, last, rfl⟩
  · exact absurd hlast.symm hne
  · obtain rfl : last = name := by simpa using hlast
    simp [List.dropWhile_cons_of_neg, hne]

/-- A file that is written is the one that the path leads to, before and after. -/
theorem leadsTo_of_write (h : folder.write path text = .ok folder') :
    ∃ name, folder' = ⟨folder.files.insert name text⟩ ∧ folder.LeadsTo path name ∧
      folder'.LeadsTo path name := by
  simp only [write] at h
  split at h
  · cases h
  rename_i hlength
  generalize hname : (pathNames path).getLast?.getD "" = name at h
  generalize hparents : (((pathNames path).reverse.dropWhile fun x => decide (x = "")).drop
    1).reverse = parents at h
  split at h
  · cases h
  · cases h
  rename_i lead hlead
  split at h
  · cases h
  rename_i hproper
  split at h
  · cases h
  rename_i hshort
  cases h
  simp only [Bool.or_eq_true, decide_eq_true_eq, not_or] at hproper
  obtain ⟨⟨hempty, hdot⟩, hdots⟩ := hproper
  have hnames : pathNames path = parents ++ [name] :=
    hparents ▸ (parents_append_last hname hempty).symm
  have hleads : ∀ files : KeyMap String, (Folder.mk files).LeadsTo path (lead ++ name) := by
    intro files
    have henter : (Folder.mk files).enter (.folder lead) name =
        if files.contains (lead ++ name) then .ok (.file (lead ++ name)) else .error .missing := by
      rw [enter, if_neg (by simp [hempty, hdot]), if_neg hdots, if_neg hshort]
    have hwalk : (parents ++ [name]).foldlM (Folder.mk files).enter (start path) =
        if files.contains (lead ++ name) then .ok (.file (lead ++ name)) else .error .missing := by
      rw [List.foldlM_append, foldlM_enter_folder hlead, ← henter]
      exact bind_pure ((Folder.mk files).enter (.folder lead) name)
    rw [LeadsTo, content, if_neg hlength, hnames, hwalk]
    cases hget : files.get? (lead ++ name) with
    | none => simp [KeyMap.contains, hget]
    | some old => simp [KeyMap.contains, hget]
  exact ⟨lead ++ name, rfl, hleads _, hleads _⟩

/-- A file that is written holds what was written. -/
theorem content_of_write (h : folder.write path text = .ok folder') :
    folder'.content path = .ok text := by
  obtain ⟨name, rfl, -, hafter⟩ := leadsTo_of_write h
  rw [hafter, KeyMap.get?_insert, if_pos rfl]
  rfl

/-- A file that can be written can be read, or is not there. -/
theorem content_cases_of_write (h : folder.write path text = .ok folder') :
    folder.content path = .error .missing ∨ ∃ old, folder.content path = .ok old := by
  obtain ⟨name, -, hbefore, -⟩ := leadsTo_of_write h
  rw [hbefore]
  cases folder.files.get? name with
  | none => exact .inl rfl
  | some old => exact .inr ⟨old, rfl⟩

end ChannelDirectory.CommandLine.Folder
