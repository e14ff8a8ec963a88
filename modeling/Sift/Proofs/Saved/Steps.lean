import Sift.Proofs.Saved.Files

/-!
# The steps of a folder store

What loading, saving and deleting do whether they succeed or not. `FolderStore.load_eq_foldl` says
what is loaded, and `FolderStore.load_induction` that what every file leaves in force holds after
the folder has been loaded. `FolderStore.save_cases` are the three ways in which a save can end; it
leaves the records of the store that it is saved in (`FolderStore.store_save`), no other files in
the index than before but that of the record (`FolderStore.files_save`), and all files as they are
but those it writes and removes (`FolderStore.contents?_save`). `FolderStore.delete_cases` are the
two ways in which a delete can end, and `FolderStore.History` the states that these steps lead to.
-/

namespace Sift

namespace FolderStore

variable {self : FolderStore} {disk : Disk}

/-- Whether two stores have the same records and the same index. -/
structure SameEntries (it after : FolderStore) : Prop where
  records : ∀ id, after.store.get? id = it.store.get? id
  index : ∀ id, after.files.get? id = it.files.get? id

/-! ### Loading -/

/-- The paths of the files in the folder. -/
def paths (self : FolderStore) (disk : Disk) : List Path :=
  (disk.namesIn self.folder.place).map fun name => self.folder ++ [name]

/-- The files in the folder, each with a new id. -/
def filesWith (self : FolderStore) (newIds : List String) (disk : Disk) : List (Path × String) :=
  (self.paths disk).zip newIds

/-- Loading does nothing if there is no folder or a file stands there, and otherwise takes in its
files one after the other. -/
theorem load_eq_foldl (self : FolderStore) (newIds : List String) (disk : Disk) :
  load self newIds disk
    = if disk.locate? self.folder = none then (.ok {}, self)
      else if disk.isFile self.folder.place = true then (.error .fileAccess, self)
      else
        let found := (self.filesWith newIds disk).foldl (loadPath disk) (self, {})
        (.ok found.2, found.1)
  := by
  rw [load]
  split
  case h_1 hnone => rw [if_pos hnone]
  case h_2 place hplace =>
    obtain rfl := Disk.locate?_eq_place hplace
    have hsome : ¬ disk.locate? self.folder = none := by simp [hplace]
    rw [if_neg hsome]
    rfl

/-- Whether two stores have the same folder and the same default entity. -/
structure SameSettings (it after : FolderStore) : Prop where
  folder : after.folder = it.folder
  defaultEntity : after.defaultEntity = it.defaultEntity

theorem SameSettings.trans {between after : FolderStore} (h : self.SameSettings between)
    (h' : between.SameSettings after) :
  self.SameSettings after
  := ⟨h'.folder.trans h.folder, h'.defaultEntity.trans h.defaultEntity⟩

/-- Taking in a file changes no settings. -/
theorem SameSettings.loadPath {found : FolderStore × LoadCount} (h : self.SameSettings found.1)
    (disk : Disk) (file : Path × String) :
  self.SameSettings (loadPath disk found file).1
  := by
  rw [FolderStore.loadPath]
  split <;> exact ⟨h.folder, h.defaultEntity⟩

/-- What holds of a store, and goes on holding when a file is taken in, holds after all files have
been taken in. -/
theorem foldl_loadPath_induction {motive : FolderStore → Prop} {files : List (Path × String)}
    {found : FolderStore × LoadCount} (h : motive found.1)
    (hstep : ∀ file ∈ files, ∀ after, found.1.SameSettings after.1 → motive after.1 →
      motive (loadPath disk after file).1) :
  found.1.SameSettings (files.foldl (loadPath disk) found).1
    ∧ motive (files.foldl (loadPath disk) found).1
  := by
  apply List.foldlRecOn (motive := fun after : FolderStore × LoadCount =>
    found.1.SameSettings after.1 ∧ motive after.1) files (loadPath disk) ⟨⟨rfl, rfl⟩, h⟩
  rintro after ⟨hsettings, hmotive⟩ file hfile
  use hsettings.loadPath disk file
  apply hstep file hfile after hsettings hmotive

/-- Taking in files changes no settings. -/
theorem sameSettings_foldl (files : List (Path × String)) (found : FolderStore × LoadCount)
    (disk : Disk) :
  found.1.SameSettings (files.foldl (loadPath disk) found).1
  := (foldl_loadPath_induction (motive := fun _ => True) trivial fun _ _ _ _ _ => trivial).1

/-- What holds of a store, and goes on holding when a file in the folder is taken in, holds after
the folder has been loaded. -/
theorem load_induction {motive : FolderStore → Prop} (h : motive self)
    (hstep : ∀ found name newId, self.SameSettings found.1 → motive found.1 →
      motive (loadPath disk found (self.folder ++ [name], newId)).1) (newIds : List String) :
  motive (load self newIds disk).2
  := by
  rw [load_eq_foldl]
  split
  case isTrue => exact h
  case isFalse =>
    split
    case isTrue => exact h
    case isFalse =>
      refine (foldl_loadPath_induction h ?_).2
      rintro ⟨path, newId⟩ hfile found hsettings hmotive
      obtain ⟨name, -, rfl⟩ := List.mem_map.mp (List.of_mem_zip hfile).1
      apply hstep found name newId hsettings hmotive

/-- Loading changes no settings. -/
theorem sameSettings_load (self : FolderStore) (newIds : List String) (disk : Disk) :
  self.SameSettings (load self newIds disk).2
  := by
  apply load_induction (motive := fun found => self.SameSettings found) ⟨rfl, rfl⟩
  intro found name newId hsettings _
  apply hsettings.loadPath

/-! ### Saving -/

/-- The disk after the record of a query has been written to its file, if it can be written. -/
def written? (newId : String) (query : SavedQuery) (on : OnDisk) : Option Disk :=
  let saved := (on.1.store.upsert newId query).query
  on.2.makeFolders? [] on.1.folder >>= fun made =>
    made.write? (on.1.fileFor saved.id) (Json.indented saved.toData)

/-- The files that are not needed any more when a query has been saved: those that held its record
or that of the evicted one, but for the one that it has been written to. -/
def staleFiles (newId : String) (query : SavedQuery) (self : FolderStore) : List Path :=
  let upsert := self.store.upsert newId query
  ((self.files.get? upsert.query.id).toList ++ (upsert.evicted >>= self.files.get?).toList).filter
    (· ≠ self.fileFor upsert.query.id)

theorem contents?_written? {newId : String} {query : SavedQuery} {on : OnDisk} {written : Disk}
    (h : written? newId query on = some written) (place : Path) :
  let saved := (on.1.store.upsert newId query).query
  written.contents? place
    = if place = (on.1.fileFor saved.id).place then some (Json.indented saved.toData)
      else on.2.contents? place
  := by
  obtain ⟨made, hmade, hwritten⟩ := Option.bind_eq_some_iff.mp h
  obtain ⟨-, -, hcontents, -⟩ := Disk.write?_inv hwritten
  have hsame : made.contents? place = on.2.contents? place := by
    rw [Disk.contents?, Disk.contents?, (Disk.makeFolders?_inv hmade).1]
  rw [hcontents, hsame]

/-- Removing files, even if it fails on one of them, leaves what is in other places. -/
theorem contents?_removeAll {paths : List Path} {place : Path}
    (h : ∀ path ∈ paths, place ≠ path.place) (disk : Disk) :
  (removeAll paths disk).2.contents? place = disk.contents? place
  := by
  induction paths generalizing disk with
  | nil => rfl
  | cons path rest ih =>
    rw [List.forall_mem_cons] at h
    rw [removeAll]
    split
    case h_1 between hremove =>
      obtain ⟨-, hcontents, -⟩ := Disk.remove_inv (.inl hremove)
      rw [ih h.2, hcontents, if_neg]
      exact fun hplace => h.1 (Disk.locate?_eq_place hplace)
    case h_2 => exact ih h.2 disk
    case h_3 => rfl

/-- What a save does: nothing to the files if the record cannot be written, and otherwise it depends
on whether the files that are not needed any more can be removed. -/
theorem save_cases (newId : String) (query : SavedQuery) (on : OnDisk) :
  let upsert := on.1.store.upsert newId query
  let files := upsert.evicted.elim on.1.files on.1.files.erase
  (written? newId query on = none ∧ ∃ left : Disk, left.files = on.2.files
      ∧ save newId query on = (.error .fileAccess, ({ on.1 with store := upsert.store }, left)))
    ∨ ∃ written left, written? newId query on = some written
      ∧ (removeAll (staleFiles newId query on.1) written = (false, left)
          ∧ save newId query on
            = (.error .fileAccess, ({ on.1 with store := upsert.store, files }, left))
        ∨ removeAll (staleFiles newId query on.1) written = (true, left)
          ∧ save newId query on = (.ok upsert.query, ({ on.1 with
              store := upsert.store
              files := files.insert upsert.query.id (on.1.fileFor upsert.query.id) }, left)))
  := by
  obtain ⟨self, disk⟩ := on
  rw [save]
  simp only
  split
  case h_1 hmade =>
    left
    exact ⟨by simp [written?, hmade], disk, rfl, rfl⟩
  case h_2 made hmade =>
    split
    case h_1 hunwritten =>
      have hnone : written? newId query (self, disk) = none := by
        simp only [written?, hmade]
        exact hunwritten
      left
      exact ⟨hnone, made, (Disk.makeFolders?_inv hmade).1, rfl⟩
    case h_2 written hwritten =>
      right
      use written
      have hsome : written? newId query (self, disk) = some written :=
        Option.bind_eq_some_iff.mpr ⟨made, hmade, hwritten⟩
      split
      case h_1 left hleft => exact ⟨left, hsome, .inl ⟨hleft, rfl⟩⟩
      case h_2 left hleft => exact ⟨left, hsome, .inr ⟨hleft, rfl⟩⟩

/-- The query is saved in the store whatever becomes of its file. -/
theorem store_save (newId : String) (query : SavedQuery) (on : OnDisk) :
  (save newId query on).2.1.store = (on.1.store.upsert newId query).store
  := by
  obtain ⟨-, left, -, hsave⟩ | ⟨written, left, -, ⟨-, hsave⟩ | ⟨-, hsave⟩⟩ :=
    save_cases newId query on <;> rw [hsave]

theorem folder_save (newId : String) (query : SavedQuery) (on : OnDisk) :
  (save newId query on).2.1.folder = on.1.folder
  := by
  obtain ⟨-, left, -, hsave⟩ | ⟨written, left, -, ⟨-, hsave⟩ | ⟨-, hsave⟩⟩ :=
    save_cases newId query on <;> rw [hsave]

/-- After a save the index holds the file of the record and files that it held before. -/
theorem files_save {newId : String} {query : SavedQuery} {on : OnDisk} {id : String} {path : Path}
    (h : (save newId query on).2.1.files.get? id = some path) :
  path = on.1.fileFor (on.1.store.idFor newId query) ∨ on.1.files.get? id = some path
  := by
  obtain ⟨-, left, -, hsave⟩ | ⟨written, left, -, ⟨-, hsave⟩ | ⟨-, hsave⟩⟩ :=
    save_cases newId query on
  · rw [hsave] at h
    exact .inr h
  · rw [hsave] at h
    exact .inr (get?_of_get?_evict h)
  · rw [hsave, Table.get?_insert] at h
    split at h
    case isTrue =>
      cases h
      exact .inl rfl
    case isFalse => exact .inr (get?_of_get?_evict h)

/-- A save writes to the file of the record and removes the files that are not needed any more, and
changes no other. -/
theorem contents?_save {newId : String} {query : SavedQuery} {on : OnDisk} {place : Path}
    (hwrite : place ≠ (on.1.fileFor (on.1.store.upsert newId query).query.id).place)
    (hstale : ∀ path ∈ staleFiles newId query on.1, place ≠ path.place) :
  (save newId query on).2.2.contents? place = on.2.contents? place
  := by
  obtain ⟨-, left, hfiles, hsave⟩ | ⟨written, left, hwritten, hremove⟩ := save_cases newId query on
  · rw [hsave, Disk.contents?, Disk.contents?, hfiles]
  · have hkept := contents?_removeAll hstale written
    rw [contents?_written? hwritten, if_neg hwrite] at hkept
    obtain ⟨hremove, hsave⟩ | ⟨hremove, hsave⟩ := hremove <;> rw [hsave, ← hkept, hremove]

/-! ### Deleting -/

/-- What a delete does: it takes the file of the record out of the index, and if it can be removed,
the record out of the store. -/
theorem delete_cases (id : String) (on : OnDisk) :
  let after := { on.1 with files := on.1.files.erase id }
  ∃ left, removeAll (on.1.files.get? id).toList on.2 = (false, left)
      ∧ delete id on = (.error .fileAccess, (after, left))
    ∨ removeAll (on.1.files.get? id).toList on.2 = (true, left)
      ∧ delete id on = (.ok (on.1.store.delete id).1,
          ({ after with store := (on.1.store.delete id).2 }, left))
  := by
  obtain ⟨self, disk⟩ := on
  rw [delete]
  simp only
  split
  case h_1 left hleft => exact ⟨left, .inl ⟨hleft, rfl⟩⟩
  case h_2 left hleft => exact ⟨left, .inr ⟨hleft, rfl⟩⟩

/-! ### Histories -/

/-- The states that loading, saving and deleting lead to from a store without records, also where
they fail, whatever becomes of the disk between two calls. Which queries are saved in which states
is up to `may`. -/
inductive History (may : OnDisk → String → SavedQuery → Prop) : OnDisk → Prop
  | start (folder : Path) (defaultEntity : String) (disk : Disk) :
    History may ({ folder, defaultEntity }, disk)
  | load {on : OnDisk} (h : History may on) (newIds : List String) :
    History may ((load on.1 newIds on.2).2, on.2)
  | save {on : OnDisk} (h : History may on) {newId : String} {query : SavedQuery}
    (hmay : may on newId query) : History may (save newId query on).2
  | delete {on : OnDisk} (h : History may on) (id : String) : History may (delete id on).2
  | change {on : OnDisk} (h : History may on) (disk : Disk) : History may (on.1, disk)

end FolderStore

end Sift
