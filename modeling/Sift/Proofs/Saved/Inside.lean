import Sift.Proofs.Saved.Steps

/-!
# Where a folder store writes

A record is written to the file that it has or to the one that its id leads to from the folder, and
an id with slashes can lead anywhere. `FolderStore.StaysInside` is the condition under which a save
writes to a file directly in the folder (`FolderStore.isInside_fileFor_iff`). As long as all saves
meet it, the index holds no other files either (`FolderStore.History.inside`), and nothing that is
not directly in the folder is written or removed: `FolderStore.History.stays_inside`.
-/

namespace Sift

namespace FolderStore

variable {self : FolderStore} {disk : Disk}

/-! ### Paths in a folder -/

/-- Whether a path leads to a place directly in a folder. -/
def IsInside (folder path : Path) : Prop :=
  ∃ name, path.place = folder.place ++ [name]

theorem isInside_append {folder : Path} {name : String} (h : name ≠ "..") :
  IsInside folder (folder ++ [name])
  := by
  use name
  rw [Path.place_append_singleton, Path.step_of_ne h]

/-- Whether the file that is named after an id is in the folder. -/
def LeadsInside (folder : Path) (id : String) : Prop :=
  IsInside folder (folder.join (id ++ ".json"))

/-- An id without a slash leads into the folder. -/
theorem leadsInside_of_plain {id : String} (h : '/' ∉ id.toList) (folder : Path) :
  LeadsInside folder id
  := by
  rw [LeadsInside, join_jsonName h]
  apply isInside_append
  apply jsonName_ne (by decide)

/-- Whether all files in the index are in the folder. -/
def Inside (self : FolderStore) : Prop :=
  ∀ id path, self.files.get? id = some path → IsInside self.folder path

/-- Whether a query is saved in the folder: under an id that has a JSON file, or that leads into the
folder. -/
def StaysInside (on : OnDisk) (newId : String) (query : SavedQuery) : Prop :=
  let id := on.1.store.idFor newId query
  (∃ path, on.1.files.get? id = some path ∧ path.extension? = some "json")
    ∨ LeadsInside on.1.folder id

/-- The condition says no more than it has to. -/
theorem isInside_fileFor_iff {on : OnDisk} (h : on.1.Inside) {newId : String} {query : SavedQuery} :
  IsInside on.1.folder (on.1.fileFor (on.1.store.idFor newId query)) ↔ StaysInside on newId query
  := by
  rw [StaysInside, fileFor]
  split
  case h_1 path hpath =>
    by_cases hjson : path.extension? = some "json"
    · rw [if_pos hjson]
      constructor
      · intro _
        exact .inl ⟨path, hpath, hjson⟩
      · intro _
        exact h _ path hpath
    · rw [if_neg hjson, LeadsInside]
      simp [hpath, hjson]
  case h_2 hnone => simp [hnone, LeadsInside]

/-! ### The index -/

/-- A file that is taken in is in the folder. -/
theorem inside_loadPath {found : FolderStore × LoadCount} (h : found.1.Inside)
    (name newId : String) :
  (loadPath disk found (found.1.folder ++ [name], newId)).1.Inside
  := by
  rw [loadPath]
  split
  case h_1 query hquery =>
    obtain ⟨contents, -, hload⟩ := Option.bind_eq_some_iff.mp hquery
    have hname : name ≠ ".." := by
      rintro rfl
      obtain ⟨read, hread, -⟩ := Option.map_eq_some_iff.mp hload
      simp [readFile?, extension?_parent] at hread
    intro id path hpath
    rw [Table.get?_insert] at hpath
    split at hpath
    case isTrue =>
      cases hpath
      apply isInside_append hname
    case isFalse => exact h id path hpath
  case h_2 => exact h

theorem inside_load (h : self.Inside) (newIds : List String) (disk : Disk) :
  (load self newIds disk).2.Inside
  := by
  apply load_induction h
  intro found name newId hsettings hinside
  rw [← hsettings.folder]
  apply inside_loadPath hinside

theorem inside_save {on : OnDisk} (h : on.1.Inside) {newId : String} {query : SavedQuery}
    (hstays : StaysInside on newId query) :
  (save newId query on).2.1.Inside
  := by
  intro id path hpath
  rw [folder_save]
  obtain rfl | hpath := files_save hpath
  · exact (isInside_fileFor_iff h).mpr hstays
  · exact h id path hpath

theorem inside_delete {on : OnDisk} (h : on.1.Inside) (id : String) :
  (delete id on).2.1.Inside
  := by
  intro other path hpath
  obtain ⟨left, ⟨-, hdelete⟩ | ⟨-, hdelete⟩⟩ := delete_cases id on
  all_goals
    rw [hdelete] at hpath ⊢
    exact h other path (get?_of_get?_erase hpath)

/-- As long as queries are saved in the folder the index holds no files but those in the folder. -/
theorem History.inside {on : OnDisk} (h : History StaysInside on) :
  on.1.Inside
  := by
  induction h with
  | start => rintro _ _ ⟨⟩
  | load _ newIds ih => apply inside_load ih
  | save _ hstays ih => apply inside_save ih hstays
  | delete _ id ih => apply inside_delete ih
  | change _ _ ih => exact ih

/-! ### The files -/

/-- Whether no other files have changed than those directly in a folder. -/
def ChangesInside (folder : Path) (disk after : Disk) : Prop :=
  ∀ place, after.contents? place ≠ disk.contents? place → ∃ name, place = folder.place ++ [name]

theorem changesInside_save {on : OnDisk} (h : on.1.Inside) {newId : String} {query : SavedQuery}
    (hstays : StaysInside on newId query) :
  ChangesInside on.1.folder on.2 (save newId query on).2.2
  := by
  intro place hplace
  by_contra houtside
  apply hplace
  apply contents?_save
  · rintro rfl
    exact houtside ((isInside_fileFor_iff h).mpr hstays)
  · rintro path hpath rfl
    rw [staleFiles, List.mem_filter, List.mem_append, Option.mem_toList, Option.mem_toList,
      Option.bind_eq_bind, Option.bind_eq_some_iff] at hpath
    obtain ⟨hprevious | ⟨rival, -, hgone⟩, -⟩ := hpath
    · exact houtside (h _ path hprevious)
    · exact houtside (h rival path hgone)

theorem changesInside_delete {on : OnDisk} (h : on.1.Inside) (id : String) :
  ChangesInside on.1.folder on.2 (delete id on).2.2
  := by
  intro place hplace
  by_contra houtside
  apply hplace
  have hkept : (removeAll (on.1.files.get? id).toList on.2).2.contents? place
      = on.2.contents? place := by
    apply contents?_removeAll
    rintro path hpath rfl
    rw [Option.mem_toList] at hpath
    exact houtside (h id path hpath)
  obtain ⟨left, ⟨hremove, hdelete⟩ | ⟨hremove, hdelete⟩⟩ := delete_cases id on
  all_goals rw [hdelete, ← hkept, hremove]

/-- As long as queries are saved in the folder the index holds no files but those in the folder, a
save that is to stay in the folder is one that writes to a file in it, and neither such a save nor a
delete changes a file that is not directly in the folder, also where it fails. -/
theorem History.stays_inside {on : OnDisk} (h : History StaysInside on) :
  on.1.Inside
    ∧ (∀ newId query,
      (IsInside on.1.folder (on.1.fileFor (on.1.store.idFor newId query))
          ↔ StaysInside on newId query)
        ∧ (StaysInside on newId query →
          ChangesInside on.1.folder on.2 (FolderStore.save newId query on).2.2))
    ∧ ∀ id, ChangesInside on.1.folder on.2 (FolderStore.delete id on).2.2
  := by
  have hinside := h.inside
  use hinside
  constructor
  · intro newId query
    use isInside_fileFor_iff hinside
    apply changesInside_save hinside
  · apply changesInside_delete hinside

/-- An id without slashes leads into the folder, and one with slashes may lead back into it. -/
theorem stays_inside_texts :
  History StaysInside textsLoaded
    ∧ (FolderStore.save "3" (record "a" "A" "x = 3") textsLoaded).1 = .ok (record "a" "A" "x = 3")
    ∧ ChangesInside ["q"] textsLoaded.2
      (FolderStore.save "3" (record "a" "A" "x = 3") textsLoaded).2.2
    ∧ (FolderStore.save "3" (record "../q/c" "C" "x = 3") textsLoaded).1
      = .ok (record "../q/c" "C" "x = 3")
    ∧ ChangesInside ["q"] textsLoaded.2
      (FolderStore.save "3" (record "../q/c" "C" "x = 3") textsLoaded).2.2
    ∧ ChangesInside ["q"] textsLoaded.2 (FolderStore.delete "a" textsLoaded).2.2
  := by
  have hhistory : History StaysInside textsLoaded := .load (.start ["q"] "book" texts.2) ["1", "2"]
  have hplain : StaysInside textsLoaded "3" (record "a" "A" "x = 3") :=
    .inr (leadsInside_of_plain (by decide) _)
  have hslashes : StaysInside textsLoaded "3" (record "../q/c" "C" "x = 3") :=
    .inr ⟨"c.json", by decide +kernel⟩
  have hsave : (FolderStore.save "3" (record "a" "A" "x = 3") textsLoaded).1
      = .ok (record "a" "A" "x = 3") := by decide +kernel
  have hsave' : (FolderStore.save "3" (record "../q/c" "C" "x = 3") textsLoaded).1
      = .ok (record "../q/c" "C" "x = 3") := by decide +kernel
  obtain ⟨-, hsaves, hdeletes⟩ := History.stays_inside hhistory
  use hhistory, hsave, (hsaves "3" _).2 hplain, hsave', (hsaves "3" _).2 hslashes
  apply hdeletes

/-- A folder that does not exist yet, with a file beside it. -/
def neighboured : OnDisk where
  fst := { folder := ["q"], defaultEntity := "book" }
  snd := { files := [(["other.json"], "keep")] }

/-- A record whose id leads out of the folder is written over a file there, and that file is removed
with the record. -/
theorem save_leaves_folder :
  let saved := FolderStore.save "1" (record "../other" "A" "x") neighboured
  saved.1 = .ok (record "../other" "A" "x")
    ∧ neighboured.2.contents? ["other.json"] = some "keep"
    ∧ saved.2.2.contents? ["other.json"]
      = some (Json.indented (record "../other" "A" "x").toData)
    ∧ (FolderStore.delete "../other" saved.2).2.2.contents? ["other.json"] = none
    ∧ ∀ name, ["other.json"] ≠ Path.place ["q"] ++ [name]
  := by
  refine ⟨by decide +kernel, by decide +kernel, by decide +kernel, by decide +kernel, ?_⟩
  intro name hname
  simpa [Path.place, Path.step] using congrArg List.length hname

end FolderStore

end Sift
