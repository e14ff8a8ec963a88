import Mathlib.Data.List.TakeDrop
import Sift.Proofs.Data.Json
import Sift.Proofs.Disk
import Sift.Proofs.Saved.Records
import Sift.Saved.Folder

/-!
# Saved queries after a restart

`FolderStore.Mirrored` couples the three parts of a folder store: the records, the file of each id,
and the files on the disk. Saving and deleting keep them coupled as long as they succeed
(`Mirrored.save`, `Mirrored.delete`), and loading a folder that mirrors some records gives these
records (`Mirrored.load`). `FolderStore.Run.load_eq` is the result for every run that starts in a
vacant folder.
-/

namespace Sift

/-- A saved query is read back from its record. -/
theorem SavedQuery.ofData?_toData (query : SavedQuery) :
  ofData? query.toData = some query
  := by
  obtain ⟨id, name, text, owner, entity, isSystem⟩ := query
  cases owner <;> rfl

/-- A saved query is read back from the file that it is written to. -/
theorem SavedQuery.ofData?_of_read?_indented (query : SavedQuery) :
  Json.read? (Json.indented query.toData) >>= ofData? = some query
  := by
  have hscalar : ∀ entry ∈ [("id", Data.text query.id), ("name", .text query.name),
      ("text", .text query.text)] ++ (query.owner.map fun owner => ("owner", Data.text owner)).toList
        ++ [("entity", .text query.entity), ("isSystem", .bool query.isSystem)],
      Json.IsScalar entry.2 := by
    cases query.owner <;> simp [Json.IsScalar]
  rw [toData, Json.read?_indented hscalar]
  exact ofData?_toData query

namespace FolderStore

/-! ### The names of files -/

/-- The name of the file that is written for an id. -/
def jsonName (id : String) : String :=
  id ++ ".json"

theorem toList_jsonName (id : String) :
  (jsonName id).toList = id.toList ++ ['.', 'j', 's', 'o', 'n']
  := by
  rw [jsonName, String.toList_append]
  rfl

theorem jsonName_injective {id other : String} (h : jsonName id = jsonName other) :
  id = other
  := by
  have hchars := congrArg String.toList h
  rw [toList_jsonName, toList_jsonName] at hchars
  apply String.toList_inj.mp (List.append_cancel_right hchars)

theorem jsonName_ne {id name : String} (h : name.toList.length < 5) :
  jsonName id ≠ name
  := by
  rintro rfl
  rw [toList_jsonName, List.length_append] at h
  apply Nat.not_lt.mpr (Nat.le_add_left 5 id.toList.length) h

/-- The path of the file that is written for an id. -/
def jsonPath (folder : Path) (id : String) : Path :=
  folder ++ [jsonName id]

theorem place_jsonPath (folder : Path) (id : String) :
  (jsonPath folder id).place = folder.place ++ [jsonName id]
  := by
  rw [jsonPath, Path.place_append_singleton, Path.step_of_ne (jsonName_ne (by decide))]

theorem place_jsonPath_inj {folder : Path} {id other : String} :
  (jsonPath folder id).place = (jsonPath folder other).place ↔ id = other
  := by
  rw [place_jsonPath, place_jsonPath]
  constructor
  · intro h
    apply jsonName_injective
    simpa using h
  · rintro rfl
    rfl

/-- An id without a slash leads directly into the folder. -/
theorem join_jsonName {id : String} (h : '/' ∉ id.toList) (folder : Path) :
  folder.join (id ++ ".json") = jsonPath folder id
  := by
  have hslash : '/' ∉ (jsonName id).toList := by
    rw [toList_jsonName]
    simp [h]
  have hhead : (jsonName id).toList.head? ≠ some '/' :=
    fun hhead => hslash (List.mem_of_head? hhead)
  have hnames : Path.names (jsonName id) = [jsonName id] := by
    have hempty : jsonName id ≠ "" := jsonName_ne (by decide)
    have hdot : jsonName id ≠ "." := jsonName_ne (by decide)
    simp [Path.names, Text.split_eq_singleton hslash, hempty, hdot]
  change (if (jsonName id).toList.head? = some '/' then _ else folder ++ Path.names (jsonName id)) = _
  rw [if_neg hhead, hnames, jsonPath]

theorem extension?_jsonPath {id : String} (h : id ≠ "") (folder : Path) :
  (jsonPath folder id).extension? = some "json"
  := by
  have hname : (jsonPath folder id).fileName = jsonName id := by simp [Path.fileName, jsonPath]
  have hsplit : Path.splitLastDot (jsonName id).toList = some (id.toList, ['j', 's', 'o', 'n']) := by
    rw [Path.splitLastDot, toList_jsonName, List.reverse_append]
    simp [List.span_eq_takeWhile_dropWhile]
  have hid : id.toList.isEmpty = false := by simpa using h
  have hdots : jsonName id ≠ ".." := jsonName_ne (by decide)
  rw [Path.extension?, hname, Path.stemAndExtension, hsplit]
  simp [hid, hdots]

/-! ### Records on a disk -/

/-- What is on a disk after files have been removed. -/
theorem removeAll_inv {paths : List Path} {disk after : Disk}
    (h : removeAll paths disk = (true, after)) :
  after.folders = disk.folders
    ∧ (∀ other, after.contents? other
      = if ∃ path ∈ paths, disk.locate? path = some other then none else disk.contents? other)
    ∧ (after.files.map (·.1)).Sublist (disk.files.map (·.1))
  := by
  induction paths generalizing disk with
  | nil =>
    cases h
    simp
  | cons path rest ih =>
    obtain ⟨between, hremove, hrest⟩ : ∃ between, (disk.remove path = .removed between
        ∨ disk.remove path = .missing ∧ between = disk) ∧ removeAll rest between = (true, after) := by
      rw [removeAll] at h
      split at h
      case h_1 between hremove => exact ⟨between, .inl hremove, h⟩
      case h_2 hremove => exact ⟨disk, .inr ⟨hremove, rfl⟩, h⟩
      case h_3 => cases h
    obtain ⟨hfolders, hcontents, hsublist⟩ := Disk.remove_inv hremove
    obtain ⟨hfolders', hcontents', hsublist'⟩ := ih hrest
    refine ⟨hfolders'.trans hfolders, ?_, hsublist'.trans hsublist⟩
    intro other
    rw [hcontents', hcontents]
    simp only [Disk.locate?_congr hfolders, List.mem_cons, exists_eq_or_imp]
    split
    case isTrue hother => rw [if_pos (.inr hother)]
    case isFalse hother =>
      split
      case isTrue hpath => rw [if_pos (.inl hpath)]
      case isFalse hpath => rw [if_neg (not_or.mpr ⟨hpath, hother⟩)]

/-- Whether each record stands in the JSON file that is named after its id, and there is no other file
in the folder. -/
structure Mirrors (folder : Path) (records : String → Option SavedQuery) (disk : Disk) : Prop where
  reads : ∀ id query, records id = some query →
    disk.read? (jsonPath folder id) = some (Json.indented query.toData)
  names : ∀ name, disk.isFile (folder.place ++ [name]) = true →
    ∃ id query, records id = some query ∧ name = jsonName id
  nodup : (disk.namesIn folder.place).Nodup
  isFile_folder : disk.isFile folder.place = false

namespace Mirrors

variable {folder : Path} {records : String → Option SavedQuery} {disk after : Disk}

theorem makeFolders? (h : Mirrors folder records disk) {start path : Path}
    (hmake : disk.makeFolders? start path = some after) :
  Mirrors folder records after
  := by
  obtain ⟨hfiles, -⟩ := Disk.makeFolders?_inv hmake
  constructor
  · intro id query hquery
    apply Disk.read?_makeFolders? hmake (h.reads id query hquery)
  · intro name hname
    apply h.names
    rw [← hname, Disk.isFile, Disk.isFile, Disk.contents?, Disk.contents?, hfiles]
  · rw [Disk.namesIn, hfiles]
    exact h.nodup
  · rw [Disk.isFile, Disk.contents?, hfiles]
    exact h.isFile_folder

/-- A record that is written to its file joins the others. -/
theorem write? (h : Mirrors folder records disk) {id : String} {query : SavedQuery}
    (hwrite : disk.write? (jsonPath folder id) (Json.indented query.toData) = some after) :
  Mirrors folder (fun other => if other = id then some query else records other) after
  := by
  obtain ⟨-, -, hcontents, -⟩ := Disk.write?_inv hwrite
  constructor
  · intro other found hfound
    by_cases hother : other = id
    · subst hother
      rw [if_pos rfl] at hfound
      cases hfound
      apply Disk.read?_write?_self hwrite
    · rw [if_neg hother] at hfound
      apply Disk.read?_write?_of_ne hwrite _ (h.reads other found hfound)
      rw [Ne, place_jsonPath_inj]
      exact hother
  · intro name hname
    by_cases hid : name = jsonName id
    · exact ⟨id, query, if_pos rfl, hid⟩
    · rw [Disk.isFile, hcontents, if_neg (by simpa [place_jsonPath] using hid)] at hname
      obtain ⟨other, found, hfound, rfl⟩ := h.names name hname
      refine ⟨other, found, ?_, rfl⟩
      rw [if_neg (fun heq => hid (congrArg jsonName heq))]
      exact hfound
  · apply Disk.nodup_namesIn_write? hwrite h.nodup
  · rw [Disk.isFile, hcontents, if_neg]
    · exact h.isFile_folder
    · rw [place_jsonPath]
      exact fun heq => by simpa using congrArg List.length heq

/-- Records whose files are removed leave the others. -/
theorem removeAll (h : Mirrors folder records disk) {ids : List String}
    (hremove : FolderStore.removeAll (ids.map (jsonPath folder)) disk = (true, after)) :
  Mirrors folder (fun id => if id ∈ ids then none else records id) after
  := by
  obtain ⟨hfolders, hcontents, hsublist⟩ := removeAll_inv hremove
  constructor
  · intro id query hquery
    by_cases hid : id ∈ ids
    · rw [if_pos hid] at hquery
      cases hquery
    · rw [if_neg hid] at hquery
      have hread := h.reads id query hquery
      rw [Disk.read?_eq_some_iff] at hread ⊢
      rw [Disk.locate?_congr hfolders, hcontents, if_neg]
      · exact hread
      · rintro ⟨_, hmem, hplace⟩
        obtain ⟨other, hother, rfl⟩ := List.mem_map.mp hmem
        obtain rfl := place_jsonPath_inj.mp (Disk.locate?_eq_place hplace)
        exact hid hother
  · intro name hname
    rw [Disk.isFile, hcontents] at hname
    split at hname
    case isTrue => cases hname
    case isFalse hkept =>
      obtain ⟨id, query, hquery, rfl⟩ := h.names name hname
      refine ⟨id, query, ?_, rfl⟩
      rw [if_neg]
      · exact hquery
      · intro hid
        apply hkept
        obtain ⟨hplace, -⟩ := Disk.read?_eq_some_iff.mp (h.reads id query hquery)
        rw [place_jsonPath] at hplace
        exact ⟨_, List.mem_map_of_mem hid, hplace⟩
  · apply Disk.nodup_namesIn_of_sublist hsublist h.nodup
  · rw [Disk.isFile, hcontents]
    split
    case isTrue => rfl
    case isFalse => exact h.isFile_folder

/-- The files in the folder are those of the records. -/
theorem mem_namesIn_iff (h : Mirrors folder records disk) {name : String} :
  name ∈ disk.namesIn folder.place ↔ ∃ id query, records id = some query ∧ name = jsonName id
  := by
  rw [Disk.mem_namesIn_iff]
  constructor
  · apply h.names
  · rintro ⟨id, query, hquery, rfl⟩
    obtain ⟨-, hcontents⟩ := Disk.read?_eq_some_iff.mp (h.reads id query hquery)
    rw [place_jsonPath] at hcontents
    rw [Disk.isFile, hcontents]
    rfl

/-- Where there is a record there is the folder. -/
theorem records_eq_none (h : Mirrors folder records disk) (hfolder : disk.locate? folder = none)
    (id : String) :
  records id = none
  := by
  cases hquery : records id with
  | none => rfl
  | some query =>
    obtain ⟨hplace, -⟩ := Disk.read?_eq_some_iff.mp (h.reads id query hquery)
    obtain ⟨place, hfound⟩ := Disk.exists_locateFrom?_of_append hplace
    rw [Disk.locate?, hfound] at hfolder
    cases hfolder

end Mirrors

/-! ### Stores and their files -/

/-- Whether the records of a store, the file of each id and the files on the disk belong together. -/
structure Mirrored (it : FolderStore) (disk : Disk) : Prop where
  orderly : it.store.Orderly
  plain : ∀ id query, it.store.get? id = some query → '/' ∉ id.toList ∧ query.entity ≠ ""
  files : ∀ id, it.files.get? id = (it.store.get? id).map fun _ => jsonPath it.folder id
  mirrors : Mirrors it.folder it.store.get? disk

/-- Whether there is neither a file at the place of a folder nor one in it. -/
structure Vacant (folder : Path) (disk : Disk) : Prop where
  isFile_folder : disk.isFile folder.place = false
  namesIn_eq_nil : disk.namesIn folder.place = []

theorem mirrored_of_vacant {folder : Path} {disk : Disk} (h : Vacant folder disk)
    (defaultEntity : String) :
  Mirrored { folder, defaultEntity } disk
  := by
  have hmirrors : Mirrors folder Store.empty.get? disk := by
    constructor
    · rintro _ _ ⟨⟩
    · intro name hname
      rw [← Disk.mem_namesIn_iff, h.namesIn_eq_nil] at hname
      cases hname
    · rw [h.namesIn_eq_nil]
      exact .nil
    · exact h.isFile_folder
  constructor
  · exact Store.orderly_empty
  · rintro _ _ ⟨⟩
  · intro id
    rfl
  · exact hmirrors

variable {self : FolderStore} {disk : Disk}

/-- What has been done when a query has been saved. -/
theorem save_inv {newId : String} {query saved : SavedQuery} {after : OnDisk}
    (h : save newId query (self, disk) = (.ok saved, after)) :
  let upsert := self.store.upsert newId query
  let path := self.fileFor upsert.query.id
  saved = upsert.query ∧ ∃ made written left, disk.makeFolders? [] self.folder = some made
    ∧ made.write? path (Json.indented upsert.query.toData) = some written
    ∧ removeAll (((self.files.get? upsert.query.id).toList
        ++ (upsert.evicted >>= self.files.get?).toList).filter (· ≠ path)) written = (true, left)
    ∧ after = ({ self with
        store := upsert.store
        files := (upsert.evicted.elim self.files self.files.erase).insert upsert.query.id path }, left)
  := by
  rw [save] at h
  split at h
  case h_1 => cases h
  case h_2 made hmade =>
    simp only at h
    split at h
    case h_1 => cases h
    case h_2 written hwritten =>
      split at h
      case h_1 => cases h
      case h_2 left hleft =>
        cases h
        exact ⟨rfl, made, written, left, hmade, hwritten, hleft, rfl⟩

/-- What has been done when a record has been deleted. -/
theorem delete_inv {id : String} {found : Bool} {after : OnDisk}
    (h : delete id (self, disk) = (.ok found, after)) :
  ∃ left, removeAll (self.files.get? id).toList disk = (true, left)
    ∧ after = ({ self with
        store := (self.store.delete id).2
        files := self.files.erase id }, left)
  := by
  rw [delete] at h
  simp only at h
  split at h
  case h_1 => cases h
  case h_2 left hleft =>
    cases h
    exact ⟨left, hleft, rfl⟩

namespace Mirrored

/-- A record is written to the file that is named after its id. -/
theorem fileFor_eq (h : Mirrored self disk) {id : String} (hid : '/' ∉ id.toList) :
  self.fileFor id = jsonPath self.folder id
  := by
  rw [fileFor, h.files]
  cases hfound : self.store.get? id with
  | none => apply join_jsonName hid
  | some query =>
    rw [Option.map_some]
    simp only [extension?_jsonPath (h.orderly.id_ne hfound), if_true]

theorem plain_idFor (h : Mirrored self disk) {newId : String} (hnew : '/' ∉ newId.toList)
    {query : SavedQuery} (hquery : '/' ∉ query.id.toList) :
  '/' ∉ (self.store.idFor newId query).toList
  := by
  apply Store.idFor_of_forall (p := fun id => '/' ∉ id.toList) hnew hquery
  intro id other hother
  rw [h.orderly.id_eq hother]
  exact (h.plain id other hother).1

/-- The files that are removed after a query has been saved hold the record that is evicted. -/
theorem stale_eq (h : Mirrored self disk) (newId : String) (query : SavedQuery) :
  ((self.files.get? (self.store.upsert newId query).query.id).toList
      ++ ((self.store.upsert newId query).evicted >>= self.files.get?).toList).filter
        (· ≠ jsonPath self.folder (self.store.upsert newId query).query.id)
    = (self.store.upsert newId query).evicted.toList.map (jsonPath self.folder)
  := by
  have hprevious : ((self.files.get? (self.store.upsert newId query).query.id).toList).filter
      (· ≠ jsonPath self.folder (self.store.upsert newId query).query.id) = [] := by
    rw [h.files]
    cases self.store.get? (self.store.upsert newId query).query.id <;> simp
  rw [List.filter_append, hprevious, List.nil_append]
  cases hevicted : (self.store.upsert newId query).evicted with
  | none => rfl
  | some rival =>
    obtain ⟨hne, holder, hholder, -⟩ := h.orderly.evicted_eq_some_iff.mp hevicted
    have hpath : jsonPath self.folder rival
        ≠ jsonPath self.folder (self.store.upsert newId query).query.id := by
      intro heq
      apply hne (place_jsonPath_inj.mp (congrArg Path.place heq))
    simp [h.files, hholder, hpath]

/-- Saving a query keeps records and files together. -/
theorem save (h : Mirrored self disk) {newId : String} (hfresh : self.store.IsFresh newId)
    (hnew : '/' ∉ newId.toList) {query : SavedQuery} (hquery : '/' ∉ query.id.toList)
    (hentity : query.entity ≠ "") {saved : SavedQuery} {after : OnDisk}
    (hsave : FolderStore.save newId query (self, disk) = (.ok saved, after)) :
  Mirrored after.1 after.2
  := by
  obtain ⟨-, made, written, left, hmade, hwritten, hleft, rfl⟩ := save_inv hsave
  have hplain : '/' ∉ (self.store.upsert newId query).query.id.toList := h.plain_idFor hnew hquery
  rw [h.fileFor_eq hplain] at hwritten hleft ⊢
  rw [h.stale_eq] at hleft
  constructor
  · apply h.orderly.upsert hfresh.1
  · intro id found hfound
    rw [Store.get?_upsert_eq] at hfound
    split at hfound
    case isTrue hid =>
      cases hfound
      rw [← hid]
      exact ⟨hplain, hentity⟩
    case isFalse =>
      split at hfound
      case isTrue => cases hfound
      case isFalse => apply h.plain id found hfound
  · intro id
    rw [Store.get?_upsert_eq, Table.get?_insert]
    split
    case isTrue hid =>
      rw [← hid]
      rfl
    case isFalse =>
      cases (self.store.upsert newId query).evicted with
      | none => simp [h.files]
      | some rival =>
        rw [Option.elim_some, Table.get?_erase, h.files]
        by_cases hrival : rival = id <;> simp [hrival]
  · have hmirrors := ((h.mirrors.makeFolders? hmade).write? hwritten).removeAll hleft
    have hrecords : (self.store.upsert newId query).store.get? = fun id =>
        if id ∈ (self.store.upsert newId query).evicted.toList then none
        else if id = (self.store.upsert newId query).query.id
          then some (self.store.upsert newId query).query
        else self.store.get? id := by
      funext id
      simp only [Store.get?_upsert_eq, Option.mem_toList]
      by_cases hid : (self.store.upsert newId query).query.id = id
      · have hkept : ¬ (self.store.upsert newId query).evicted = some id := by
          rw [h.orderly.evicted_eq_some_iff]
          exact fun hgone => hgone.1 hid.symm
        simp [hid, hkept]
      · simp [hid, Ne.symm hid]
    rw [hrecords]
    exact hmirrors

/-- Deleting a record keeps records and files together. -/
theorem delete (h : Mirrored self disk) {id : String} {found : Bool} {after : OnDisk}
    (hdelete : FolderStore.delete id (self, disk) = (.ok found, after)) :
  Mirrored after.1 after.2
  := by
  obtain ⟨left, hleft, rfl⟩ := delete_inv hdelete
  constructor
  · apply h.orderly.delete
  · intro other query hquery
    apply h.plain other query (Store.get?_of_get?_delete hquery)
  · intro other
    rw [Table.get?_erase, Store.get?_delete, h.files]
    split
    case isTrue => rfl
    case isFalse => rfl
  · have hpaths : (self.files.get? id).toList
        = ((self.store.get? id).map fun _ => id).toList.map (jsonPath self.folder) := by
      rw [h.files]
      cases self.store.get? id <;> rfl
    rw [hpaths] at hleft
    have hmirrors := h.mirrors.removeAll hleft
    have hrecords : (self.store.delete id).2.get? = fun other =>
        if other ∈ ((self.store.get? id).map fun _ => id).toList then none
        else self.store.get? other := by
      funext other
      rw [Store.get?_delete]
      by_cases hother : id = other
      · subst hother
        cases self.store.get? id <;> simp
      · cases self.store.get? id <;> simp [hother, Ne.symm hother]
    rw [hrecords]
    exact hmirrors

end Mirrored

/-! ### Loading -/

/-- The file of a record is loaded as the record. -/
theorem loadFile?_indented {defaultEntity newId : String} {folder : Path} {query : SavedQuery}
    (hid : query.id ≠ "") (hentity : query.entity ≠ "") :
  loadFile? defaultEntity newId (jsonPath folder query.id) (Json.indented query.toData) = some query
  := by
  rw [loadFile?, readFile?, extension?_jsonPath hid]
  simp only
  rw [SavedQuery.ofData?_of_read?_indented, Option.map_some, if_neg hentity, SavedQuery.withId,
    if_neg hid]

/-- Taking in the file of one record. -/
theorem loadPath_eq {folder : Path} {query : SavedQuery} (hid : query.id ≠ "")
    (hentity : query.entity ≠ "")
    (hread : disk.read? (jsonPath folder query.id) = some (Json.indented query.toData))
    (newId : String) (count : LoadCount) :
  loadPath disk (self, count) (jsonPath folder query.id, newId)
    = ({ self with
        store := self.store.insert query
        files := self.files.insert query.id (jsonPath folder query.id) },
      { count with loaded := count.loaded + 1 })
  := by
  rw [loadPath]
  simp only [hread, Option.bind_eq_bind, Option.bind_some, loadFile?_indented hid hentity]

/-- Taking in the files of some records, whose names are given. -/
theorem foldl_loadPath {folder : Path} {records : String → Option SavedQuery}
    (hmirrors : Mirrors folder records disk) (hrecords : ∀ id query, records id = some query →
      query.id = id ∧ id ≠ "" ∧ query.entity ≠ "")
    {names newIds : List String} (hnames : ∀ name ∈ names, ∃ id query, records id = some query
      ∧ name = jsonName id) (hids : names.length ≤ newIds.length) (self : FolderStore)
    (count : LoadCount) :
  ∃ after, ((names.map fun name => folder ++ [name]).zip newIds).foldl (loadPath disk) (self, count)
      = (after, { count with loaded := count.loaded + names.length })
    ∧ ∀ id, after.store.get? id = if jsonName id ∈ names then records id else self.store.get? id
  := by
  induction names generalizing newIds self count with
  | nil => exact ⟨self, rfl, fun id => by simp⟩
  | cons name names ih =>
    obtain ⟨newId, newIds, rfl⟩ : ∃ first rest, newIds = first :: rest := by
      cases newIds with
      | nil => cases hids
      | cons first rest => exact ⟨first, rest, rfl⟩
    obtain ⟨id, query, hquery, rfl⟩ := hnames name (by simp)
    obtain ⟨rfl, hid, hentity⟩ := hrecords id query hquery
    obtain ⟨after, hfold, hafter⟩ := ih (fun name hname => hnames name (by simp [hname]))
      (Nat.le_of_succ_le_succ hids)
      { self with
        store := self.store.insert query
        files := self.files.insert query.id (jsonPath folder query.id) }
      { count with loaded := count.loaded + 1 }
    use after
    constructor
    · rw [List.map_cons, List.zip_cons_cons, List.foldl_cons]
      change List.foldl _ (loadPath disk (self, count) (jsonPath folder query.id, newId)) _ = _
      rw [loadPath_eq hid hentity (hmirrors.reads query.id query hquery), hfold, List.length_cons]
      simp only [Nat.add_assoc, Nat.add_comm 1]
    · intro other
      rw [hafter]
      simp only [Store.get?, Store.insert, Table.get?_insert, List.mem_cons]
      by_cases hlater : jsonName other ∈ names
      · rw [if_pos hlater, if_pos (.inr hlater)]
      · rw [if_neg hlater]
        by_cases hother : query.id = other
        · subst hother
          rw [if_pos rfl, if_pos (.inl rfl), hquery]
        · have hname : jsonName other ≠ jsonName query.id :=
            fun heq => hother (jsonName_injective heq).symm
          rw [if_neg hother, if_neg (not_or.mpr ⟨hname, hlater⟩)]

/-- There are as many files in the folder as there are records. -/
theorem Mirrored.length_namesIn (h : Mirrored self disk) :
  (disk.namesIn self.folder.place).length = self.store.size
  := by
  have hkeys : (self.store.records.entries.map fun entry => jsonName entry.1).Nodup := by
    have hinjective : Function.Injective jsonName := fun _ _ => jsonName_injective
    rw [← Function.comp_def jsonName, ← List.map_map]
    apply self.store.records.keys_nodup.map hinjective
  have hperm : (disk.namesIn self.folder.place).Perm
      (self.store.records.entries.map fun entry => jsonName entry.1) := by
    rw [List.perm_ext_iff_of_nodup h.mirrors.nodup hkeys]
    intro name
    rw [h.mirrors.mem_namesIn_iff, List.mem_map]
    constructor
    · rintro ⟨id, query, hquery, rfl⟩
      exact ⟨(id, query), Table.get?_eq_some_iff.mp hquery, rfl⟩
    · rintro ⟨⟨id, query⟩, hmem, rfl⟩
      exact ⟨id, query, Table.get?_eq_some_iff.mpr hmem, rfl⟩
  rw [hperm.length_eq, List.length_map]
  rfl

/-- Loading the folder of a store gives its records. -/
theorem Mirrored.load (h : Mirrored self disk) {newIds : List String}
    (hids : (disk.namesIn self.folder.place).length ≤ newIds.length) (defaultEntity : String) :
  ∃ after, FolderStore.load { folder := self.folder, defaultEntity } newIds disk
      = (.ok { loaded := self.store.size, failed := 0 }, after)
    ∧ ∀ id, after.store.get? id = self.store.get? id
  := by
  cases hlocate : disk.locate? self.folder with
  | none =>
    have hnone := h.mirrors.records_eq_none hlocate
    have hsize : self.store.size = 0 := by
      rw [← h.length_namesIn, List.length_eq_zero_iff, List.eq_nil_iff_forall_not_mem]
      intro name hname
      obtain ⟨id, query, hquery, -⟩ := h.mirrors.mem_namesIn_iff.mp hname
      rw [hnone] at hquery
      cases hquery
    rw [FolderStore.load]
    simp only [hlocate, hsize]
    exact ⟨_, rfl, fun id => (hnone id).symm⟩
  | some place =>
    obtain rfl := Disk.locate?_eq_place hlocate
    have hrecords : ∀ id query, self.store.get? id = some query →
        query.id = id ∧ id ≠ "" ∧ query.entity ≠ "" := by
      intro id query hquery
      exact ⟨h.orderly.id_eq hquery, h.orderly.id_ne hquery, (h.plain id query hquery).2⟩
    obtain ⟨after, hfold, hafter⟩ := foldl_loadPath h.mirrors hrecords
      (fun name => h.mirrors.mem_namesIn_iff.mp) hids { folder := self.folder, defaultEntity } {}
    use after
    constructor
    · rw [FolderStore.load]
      simp only [hlocate, h.mirrors.isFile_folder, Bool.false_eq_true, if_false, hfold,
        h.length_namesIn, Nat.zero_add]
    · intro id
      rw [hafter]
      split
      case isTrue => rfl
      case isFalse hname =>
        cases hquery : self.store.get? id with
        | none => rfl
        | some query => exact absurd (h.mirrors.mem_namesIn_iff.mpr ⟨id, query, hquery, rfl⟩) hname

/-! ### Runs -/

/-- The states that saving and deleting lead to as long as they succeed. What is saved has an entity
and no slash in its id, and new ids are fresh. -/
inductive Run (start : OnDisk) : OnDisk → Prop
  | start : Run start start
  | save {on after : OnDisk} {newId : String} {query saved : SavedQuery} (h : Run start on)
    (hfresh : on.1.store.IsFresh newId) (hnew : '/' ∉ newId.toList)
    (hquery : '/' ∉ query.id.toList) (hentity : query.entity ≠ "")
    (hsave : FolderStore.save newId query on = (.ok saved, after)) : Run start after
  | delete {on after : OnDisk} {id : String} {found : Bool} (h : Run start on)
    (hdelete : FolderStore.delete id on = (.ok found, after)) : Run start after

theorem Run.mirrored {start on : OnDisk} (h : Run start on) (hstart : Mirrored start.1 start.2) :
  Mirrored on.1 on.2
  := by
  induction h with
  | start => exact hstart
  | save _ hfresh hnew hquery hentity hsave ih => apply ih.save hfresh hnew hquery hentity hsave
  | delete _ hdelete ih => apply ih.delete hdelete

theorem Run.folder_eq {start on : OnDisk} (h : Run start on) :
  on.1.folder = start.1.folder
  := by
  induction h with
  | start => rfl
  | save _ _ _ _ _ hsave ih =>
    obtain ⟨-, _, _, _, -, -, -, rfl⟩ := save_inv hsave
    exact ih
  | delete _ hdelete ih =>
    obtain ⟨_, -, rfl⟩ := delete_inv hdelete
    exact ih

/-- After a run that starts with no records in a vacant folder, a new store on the same folder loads
as many records as there are, fails on no file, and has the same record under each id. -/
theorem Run.load_eq {folder : Path} {defaultEntity : String} {disk : Disk}
    (hvacant : Vacant folder disk) {on : OnDisk} (h : Run ({ folder, defaultEntity }, disk) on)
    {newIds : List String} (hids : (on.2.namesIn folder.place).length ≤ newIds.length) :
  ∃ after, load { folder, defaultEntity } newIds on.2
      = (.ok { loaded := on.1.store.size, failed := 0 }, after)
    ∧ ∀ id, after.store.get? id = on.1.store.get? id
  := by
  have hmirrored := h.mirrored (mirrored_of_vacant hvacant defaultEntity)
  obtain rfl : on.1.folder = folder := h.folder_eq
  apply hmirrored.load hids

/-- A store on a folder that does not exist yet. -/
def untouched : OnDisk :=
  ({ folder := ["queries"], defaultEntity := "book" }, {})

/-- The store with two records. -/
def filled : OnDisk :=
  (save "2" { name := "B", text := "x = 2", entity := "book" }
    (save "1" { name := "A", text := "x = 1", entity := "book" } untouched).2).2

/-- The store in which the second record has taken the place of the first. -/
def replaced : OnDisk :=
  (save "3" { id := "2", name := "A", text := "x = 3", entity := "book" } filled).2

theorem run_filled :
  Run untouched filled
  := by
  have hfirst : (save "1" { name := "A", text := "x = 1", entity := "book" } untouched).1
      = .ok { id := "1", name := "A", text := "x = 1", entity := "book" } := by decide +kernel
  have hsecond : (save "2" { name := "B", text := "x = 2", entity := "book" }
      (save "1" { name := "A", text := "x = 1", entity := "book" } untouched).2).1
      = .ok { id := "2", name := "B", text := "x = 2", entity := "book" } := by decide +kernel
  have hrun : Run untouched (save "1" { name := "A", text := "x = 1", entity := "book" } untouched).2
      := .save .start ⟨by decide, rfl⟩ (by decide) (by decide) (by decide) (Prod.ext hfirst rfl)
  apply Run.save hrun ⟨by decide, by decide⟩ (by decide) (by decide) (by decide)
    (Prod.ext hsecond rfl)

theorem run_replaced :
  Run untouched replaced
  := by
  have hsave : (save "3" { id := "2", name := "A", text := "x = 3", entity := "book" } filled).1
      = .ok { id := "2", name := "A", text := "x = 3", entity := "book" } := by decide +kernel
  apply Run.save run_filled ⟨by decide, by decide⟩ (by decide) (by decide) (by decide)
    (Prod.ext hsave rfl)

/-- Nothing of the first record is left after a restart. -/
theorem load_replaced :
  Vacant ["queries"] {} ∧ Run untouched replaced
    ∧ (replaced.2.namesIn (Path.place ["queries"])).length ≤ ["4"].length
    ∧ ∃ after, load { folder := ["queries"], defaultEntity := "book" } ["4"] replaced.2
        = (.ok { loaded := 1, failed := 0 }, after)
      ∧ after.store.get? "1" = none
      ∧ after.store.get? "2" = some { id := "2", name := "A", text := "x = 3", entity := "book" }
  := by
  have hvacant : Vacant ["queries"] {} := ⟨rfl, rfl⟩
  have hids : (replaced.2.namesIn (Path.place ["queries"])).length ≤ ["4"].length := by
    decide +kernel
  obtain ⟨after, hload, hrecords⟩ := Run.load_eq hvacant run_replaced hids
  refine ⟨hvacant, run_replaced, hids, after, hload, ?_, ?_⟩
  · rw [hrecords]
    decide +kernel
  · rw [hrecords]
    decide +kernel

end FolderStore

end Sift
