import Sift.Proofs.Saved.Folder

/-!
# Which record a file belongs to

`FolderStore.Apart` says that every entry of the index of a folder store is the file of its id
(`FolderStore.IsFileOf`): no other id has it, and it says that id or none. Taking in files, saving
and deleting keep this, also where they fail, and `FolderStore.Session.files_apart` is the result
for every session on any folder: no two ids have the same file, and what is saved or deleted leaves
the files of all others as they are.

It needs that nothing is written to a file that was named after another id from the beginning, and
that no file without an id is taken in twice. `FolderStore.save_shares_file` is a session in which a
record is written over another.
-/

namespace Sift

namespace FolderStore

variable {self : FolderStore} {disk after : Disk} {taken : String → Prop}

/-! ### The id that a file says -/

/-- The id in a file, which is empty if the file says none. -/
def ownId? (defaultEntity : String) (disk : Disk) (path : Path) : Option String :=
  (disk.contents? path.place >>= readFile? defaultEntity path).map SavedQuery.id

theorem ownId?_eq_some_iff {defaultEntity own : String} {path : Path} :
  ownId? defaultEntity disk path = some own ↔ ∃ contents query,
    disk.contents? path.place = some contents ∧ readFile? defaultEntity path contents = some query
      ∧ query.id = own
  := by
  simp only [ownId?, Option.bind_eq_bind, Option.map_eq_some_iff, Option.bind_eq_some_iff]
  grind

/-- A file that says an id has an extension. -/
theorem extension?_of_ownId? {defaultEntity own : String} {path : Path}
    (h : ownId? defaultEntity disk path = some own) :
  path.extension? ≠ none
  := by
  obtain ⟨contents, query, -, hread, -⟩ := ownId?_eq_some_iff.mp h
  intro hnone
  simp [readFile?, hnone] at hread

theorem ownId?_of_shrinks (h : disk.Shrinks after) {defaultEntity own : String} {path : Path}
    (hown : ownId? defaultEntity after path = some own) :
  ownId? defaultEntity disk path = some own
  := by
  obtain ⟨contents, query, hcontents, hread, hid⟩ := ownId?_eq_some_iff.mp hown
  exact ownId?_eq_some_iff.mpr ⟨contents, query, h.contents?_eq_some hcontents, hread, hid⟩

theorem extension?_parent (folder : Path) :
  (folder ++ [".."]).extension? = none
  := by
  simp [Path.extension?, Path.fileName, Path.stemAndExtension, Path.splitLastDot]

theorem extension?_jsonPath_empty (folder : Path) :
  (jsonPath folder "").extension? = none
  := by
  have hname : (jsonPath folder "").fileName = ".json" := by
    simp [Path.fileName, jsonPath, jsonName]
  rw [Path.extension?, hname]
  decide +kernel

/-- Names that do not lead up lead to different places. -/
theorem place_append_inj {folder : Path} {name other : String} (hname : name ≠ "..")
    (hother : other ≠ "..") :
  (folder ++ [name]).place = (folder ++ [other]).place ↔ name = other
  := by
  rw [Path.place_append_singleton, Path.place_append_singleton, Path.step_of_ne hname,
    Path.step_of_ne hother]
  simp

/-- What the files in a folder say after a record has been written to one of them. -/
theorem ownId?_write? {defaultEntity own : String} {folder : Path} {name other : String}
    {query : SavedQuery} (hname : name ≠ "..")
    (hextension : (folder ++ [name]).extension? = some "json"
      ∨ (folder ++ [name]).extension? = none)
    (hwrite : disk.write? (folder ++ [name]) (Json.indented query.toData) = some after)
    (hown : ownId? defaultEntity after (folder ++ [other]) = some own) :
  (other = name ∧ own = query.id) ∨ ownId? defaultEntity disk (folder ++ [other]) = some own
  := by
  obtain ⟨-, -, hcontents, -⟩ := Disk.write?_inv hwrite
  have hother : other ≠ ".." := by
    rintro rfl
    exact extension?_of_ownId? hown (extension?_parent folder)
  obtain ⟨contents, found, hfile, hread, rfl⟩ := ownId?_eq_some_iff.mp hown
  rw [hcontents] at hfile
  split at hfile
  case isTrue hplace =>
    cases hfile
    obtain rfl := (place_append_inj hother hname).mp hplace
    left
    use rfl
    obtain hjson | hnone := hextension
    · rw [readFile?, hjson] at hread
      simp only [SavedQuery.ofData?_of_read?_indented] at hread
      cases hread
      rfl
    · exact absurd hnone (extension?_of_ownId? hown)
  case isFalse =>
    right
    exact ownId?_eq_some_iff.mpr ⟨contents, found, hfile, hread, rfl⟩

/-! ### The file of an id -/

/-- Whether a path can be the file of an id: it is in the folder, no other id has it, and it says
that id or none; and it is not named after another id, unless that one's is `taken`. -/
structure IsFileOf (taken : String → Prop) (it : FolderStore) (disk : Disk) (id : String)
    (path : Path) : Prop where
  inside : ∃ name, name ≠ ".." ∧ path = it.folder ++ [name]
  alone : ∀ other, it.files.get? other = some path → other = id
  agrees : ∀ own, ownId? it.defaultEntity disk path = some own → own = id ∨ own = ""
  named : ∀ other, path = jsonPath it.folder other → other = id ∨ taken other

/-- Whether every entry of the index is the file of its id. The ids hold no slash, and a file that
is named after an id says that id, unless it is `taken`. -/
structure Apart (taken : String → Prop) (it : FolderStore) (disk : Disk) : Prop where
  nodup : (disk.namesIn it.folder.place).Nodup
  plain : ∀ id query, it.store.get? id = some query → '/' ∉ query.id.toList
  plain_file : ∀ name own, ownId? it.defaultEntity disk (it.folder ++ [name]) = some own →
    '/' ∉ own.toList
  named : ∀ id own, ownId? it.defaultEntity disk (jsonPath it.folder id) = some own →
    own = id ∨ taken id
  files : ∀ id path, it.files.get? id = some path → IsFileOf taken it disk id path

theorem IsFileOf.shrinks {id : String} {path : Path} (h : IsFileOf taken self disk id path)
    (hshrinks : disk.Shrinks after) :
  IsFileOf taken self after id path
  := by
  constructor
  · exact h.inside
  · exact h.alone
  · intro own hown
    exact h.agrees own (ownId?_of_shrinks hshrinks hown)
  · exact h.named

/-- Fewer files leave the files apart. -/
theorem Apart.shrinks (h : Apart taken self disk) (hshrinks : disk.Shrinks after) :
  Apart taken self after
  := by
  constructor
  · exact Disk.nodup_namesIn_of_sublist hshrinks.places h.nodup
  · exact h.plain
  · intro name own hown
    exact h.plain_file name own (ownId?_of_shrinks hshrinks hown)
  · intro id own hown
    exact h.named id own (ownId?_of_shrinks hshrinks hown)
  · intro id path hfile
    exact (h.files id path hfile).shrinks hshrinks

/-- The file of an id remains so in an index with fewer entries. -/
theorem IsFileOf.of_le {files : Table Path} {id : String} {path : Path}
    (h : IsFileOf taken self disk id path)
    (hfiles : ∀ other place, files.get? other = some place → self.files.get? other = some place) :
  IsFileOf taken { self with files } disk id path
  := by
  constructor
  · exact h.inside
  · intro other hother
    exact h.alone other (hfiles other path hother)
  · exact h.agrees
  · exact h.named

/-- Fewer entries leave the files apart. -/
theorem Apart.of_le {files : Table Path} (h : Apart taken self disk)
    (hfiles : ∀ id path, files.get? id = some path → self.files.get? id = some path) :
  Apart taken { self with files } disk
  := by
  constructor
  · exact h.nodup
  · exact h.plain
  · exact h.plain_file
  · exact h.named
  · intro id path hfile
    exact (h.files id path (hfiles id path hfile)).of_le hfiles

/-- Other records without a slash in their ids leave the files apart. -/
theorem Apart.with_store {store : Store} (h : Apart taken self disk)
    (hplain : ∀ id query, store.get? id = some query → '/' ∉ query.id.toList) :
  Apart taken { self with store } disk
  := by
  constructor
  · exact h.nodup
  · exact hplain
  · exact h.plain_file
  · exact h.named
  · intro id path hfile
    obtain ⟨hinside, halone, hagrees, hnamed⟩ := h.files id path hfile
    exact ⟨hinside, halone, hagrees, hnamed⟩

/-- An entry for a file of an id leaves the files apart. -/
theorem Apart.insert {id : String} {path : Path} (h : Apart taken self disk)
    (hpath : IsFileOf taken self disk id path) :
  Apart taken { self with files := self.files.insert id path } disk
  := by
  constructor
  · exact h.nodup
  · exact h.plain
  · exact h.plain_file
  · exact h.named
  · intro other place hplace
    have hfile : IsFileOf taken self disk other place := by
      rw [Table.get?_insert] at hplace
      split at hplace
      case isTrue hid =>
        cases hplace
        rwa [← hid]
      case isFalse => exact h.files other place hplace
    constructor
    · exact hfile.inside
    · intro third hthird
      simp only [Table.get?_insert] at hplace hthird
      split at hthird
      case isTrue hid =>
        cases hthird
        split at hplace
        case isTrue hid' => rw [← hid, ← hid']
        case isFalse => rw [← hid, hpath.alone other hplace]
      case isFalse => exact hfile.alone third hthird
    · exact hfile.agrees
    · exact hfile.named

/-! ### Loading -/

/-- The file of a record that is taken in can be the file of its id, if it has an id of its own or
is taken in for the first time. -/
theorem Apart.isFileOf_loaded (h : Apart taken self disk) {name newId contents : String}
    {query : SavedQuery} (hread : disk.read? (self.folder ++ [name]) = some contents)
    (hload : loadFile? self.defaultEntity newId (self.folder ++ [name]) contents = some query)
    (hnew : '/' ∉ newId.toList)
    (hunnamed : ownId? self.defaultEntity disk (self.folder ++ [name]) = some "" →
      ∀ id, self.files.get? id ≠ some (self.folder ++ [name])) :
  IsFileOf taken self disk query.id (self.folder ++ [name]) ∧ '/' ∉ query.id.toList
  := by
  rw [loadFile?, Option.map_eq_some_iff] at hload
  obtain ⟨found, hfound, rfl⟩ := hload
  obtain ⟨-, hcontents⟩ := Disk.read?_eq_some_iff.mp hread
  have hown : ownId? self.defaultEntity disk (self.folder ++ [name]) = some found.id :=
    ownId?_eq_some_iff.mpr ⟨contents, found, hcontents, hfound, rfl⟩
  have hextension := extension?_of_ownId? hown
  have hname : name ≠ ".." := by
    rintro rfl
    exact hextension (extension?_parent _)
  simp only [SavedQuery.withId]
  split
  case isTrue hempty =>
    -- Without an id the file has no entry yet, and it is not the one named after any free id.
    rw [hempty] at hown
    refine ⟨⟨⟨name, hname, rfl⟩, ?_, ?_, ?_⟩, hnew⟩
    · intro other hother
      exact absurd hother (hunnamed hown other)
    · intro own hown'
      rw [hown, Option.some.injEq] at hown'
      exact .inr hown'.symm
    · intro other hother
      rw [hother] at hown
      obtain rfl | htaken := h.named other "" hown
      · rw [hother, extension?_jsonPath_empty] at hextension
        exact absurd rfl hextension
      · exact .inr htaken
  case isFalse hid =>
    refine ⟨⟨⟨name, hname, rfl⟩, ?_, ?_, ?_⟩, h.plain_file name found.id hown⟩
    · intro other hother
      obtain hagrees | hempty := (h.files other _ hother).agrees found.id hown
      · exact hagrees.symm
      · exact absurd hempty hid
    · intro own hown'
      rw [hown, Option.some.injEq] at hown'
      exact .inl hown'.symm
    · intro other hother
      rw [hother] at hown
      exact (h.named other found.id hown).imp_left Eq.symm

/-- Taking in one file leaves the files apart. -/
theorem Apart.loadPath (h : Apart taken self disk) {name newId : String}
    (hnew : '/' ∉ newId.toList)
    (hunnamed : ownId? self.defaultEntity disk (self.folder ++ [name]) = some "" →
      ∀ id, self.files.get? id ≠ some (self.folder ++ [name])) (count : LoadCount) :
  let after := (FolderStore.loadPath disk (self, count) (self.folder ++ [name], newId)).1
  Apart taken after disk ∧ after.folder = self.folder ∧ after.defaultEntity = self.defaultEntity
    ∧ ∀ id path, after.files.get? id = some path →
      path = self.folder ++ [name] ∨ self.files.get? id = some path
  := by
  rw [FolderStore.loadPath]
  simp only
  split
  case h_1 query hquery =>
    rw [Option.bind_eq_bind, Option.bind_eq_some_iff] at hquery
    obtain ⟨contents, hread, hload⟩ := hquery
    obtain ⟨hfile, hplain⟩ := h.isFileOf_loaded hread hload hnew hunnamed
    refine ⟨?_, rfl, rfl, ?_⟩
    · apply (h.insert hfile).with_store
      intro id other hother
      rw [Store.get?, Store.insert, Table.get?_insert] at hother
      split at hother
      case isTrue =>
        cases hother
        exact hplain
      case isFalse => exact h.plain id other hother
    · intro id path hpath
      rw [Table.get?_insert] at hpath
      split at hpath
      case isTrue =>
        cases hpath
        exact .inl rfl
      case isFalse => exact .inr hpath
  case h_2 => exact ⟨h, rfl, rfl, fun _ _ => .inr⟩

/-- Taking in some files, none of them twice, leaves the files apart. -/
theorem Apart.foldl_loadPath {names newIds : List String} (h : Apart taken self disk)
    (hnodup : names.Nodup) (hnew : ∀ newId ∈ newIds, '/' ∉ newId.toList)
    (hunnamed : ∀ name ∈ names, ownId? self.defaultEntity disk (self.folder ++ [name]) = some "" →
      ∀ id, self.files.get? id ≠ some (self.folder ++ [name])) (count : LoadCount) :
  Apart taken (((names.map fun name => self.folder ++ [name]).zip newIds).foldl
    (FolderStore.loadPath disk) (self, count)).1 disk
  := by
  induction names generalizing self newIds count with
  | nil => exact h
  | cons name names ih =>
    cases newIds with
    | nil => exact h
    | cons newId newIds =>
      rw [List.forall_mem_cons] at hnew hunnamed
      obtain ⟨hname, hnodup⟩ := List.nodup_cons.mp hnodup
      obtain ⟨hapart, hfolder, hentity, hfiles⟩ := h.loadPath hnew.1 hunnamed.1 count
      rw [List.map_cons, List.zip_cons_cons, List.foldl_cons]
      have hrest := ih hapart hnodup hnew.2
        (by
          intro other hother hown id hid
          rw [hfolder] at hown hid
          rw [hentity] at hown
          obtain hpath | hpath := hfiles id _ hid
          · obtain rfl : other = name := by simpa using hpath
            exact hname hother
          · exact hunnamed.2 other hother hown id hpath)
        (FolderStore.loadPath disk (self, count) (self.folder ++ [name], newId)).2
      rw [hfolder] at hrest
      exact hrest

/-- Loading the folder leaves the files apart, unless a file without an id is taken in twice. -/
theorem Apart.load (h : Apart taken self disk) {newIds : List String}
    (hnew : ∀ newId ∈ newIds, '/' ∉ newId.toList)
    (hunnamed : ∀ id path, self.files.get? id = some path →
      ownId? self.defaultEntity disk path ≠ some "") :
  Apart taken (FolderStore.load self newIds disk).2 disk
  := by
  rw [FolderStore.load]
  split
  case h_1 => exact h
  case h_2 place hplace =>
    obtain rfl := Disk.locate?_eq_place hplace
    split
    case isTrue => exact h
    case isFalse =>
      apply h.foldl_loadPath h.nodup hnew
      intro name _ hown id hid
      exact hunnamed id _ hid hown

/-! ### Saving and deleting -/

/-- A record stays in its file if that is JSON. -/
theorem fileFor_of_json {id : String} {path : Path} (hfile : self.files.get? id = some path)
    (hjson : path.extension? = some "json") :
  self.fileFor id = path
  := by
  rw [fileFor, hfile]
  exact if_pos hjson

/-- Any other record is written to the file that is named after its id. -/
theorem fileFor_of_not_json {id : String} (hid : '/' ∉ id.toList)
    (hfile : ∀ path, self.files.get? id = some path → path.extension? ≠ some "json") :
  self.fileFor id = jsonPath self.folder id
  := by
  rw [fileFor]
  split
  case h_1 path hpath => rw [if_neg (hfile path hpath), join_jsonName hid]
  case h_2 => exact join_jsonName hid self.folder

/-- The file that a record is written to can be that of its id, if the record has a JSON file or
the one that is named after its id is not taken. -/
theorem Apart.isFileOf_fileFor (h : Apart taken self disk) {id : String} (hid : '/' ∉ id.toList)
    (hfree : taken id → ∃ path, self.files.get? id = some path ∧ path.extension? = some "json") :
  IsFileOf taken self disk id (self.fileFor id)
    ∧ ((self.fileFor id).extension? = some "json" ∨ (self.fileFor id).extension? = none)
  := by
  by_cases hjson : ∃ path, self.files.get? id = some path ∧ path.extension? = some "json"
  · obtain ⟨path, hfile, hjson⟩ := hjson
    rw [fileFor_of_json hfile hjson]
    exact ⟨h.files id path hfile, .inl hjson⟩
  · have hfree : ¬ taken id := fun htaken => hjson (hfree htaken)
    rw [fileFor_of_not_json hid fun path hfile hjson' => hjson ⟨path, hfile, hjson'⟩]
    constructor
    · constructor
      · exact ⟨jsonName id, jsonName_ne (by decide), rfl⟩
      · intro other hother
        exact ((h.files other _ hother).named id rfl).elim Eq.symm fun htaken => absurd htaken hfree
      · intro own hown
        exact (h.named id own hown).imp_right fun htaken => absurd htaken hfree
      · intro other hother
        left
        exact place_jsonPath_inj.mp (congrArg Path.place hother.symm)
    · by_cases hempty : id = ""
      · right
        rw [hempty]
        apply extension?_jsonPath_empty
      · left
        apply extension?_jsonPath hempty

section Write

variable {id name : String} {query : SavedQuery}

/-- A file of an id remains one after a record has been written to a file, if that was another file
or the record is of the same id. -/
theorem IsFileOf.write? {other : String} {path : Path} (h : IsFileOf taken self disk other path)
    (hname : name ≠ "..") (hextension : (self.folder ++ [name]).extension? = some "json"
      ∨ (self.folder ++ [name]).extension? = none)
    (hwrite : disk.write? (self.folder ++ [name]) (Json.indented query.toData) = some after)
    (hsame : path = self.folder ++ [name] → other = query.id) :
  IsFileOf taken self after other path
  := by
  constructor
  · exact h.inside
  · exact h.alone
  · intro own hown
    obtain ⟨file, -, rfl⟩ := h.inside
    obtain ⟨rfl, rfl⟩ | hown := ownId?_write? hname hextension hwrite hown
    · exact .inl (hsame rfl).symm
    · exact h.agrees own hown
  · exact h.named

/-- Writing a record to a file of its id leaves the files apart. -/
theorem Apart.write? (h : Apart taken self disk)
    (hfile : IsFileOf taken self disk query.id (self.folder ++ [name])) (hname : name ≠ "..")
    (hextension : (self.folder ++ [name]).extension? = some "json"
      ∨ (self.folder ++ [name]).extension? = none)
    (hplain : '/' ∉ query.id.toList)
    (hwrite : disk.write? (self.folder ++ [name]) (Json.indented query.toData) = some after) :
  Apart taken self after
  := by
  constructor
  · exact Disk.nodup_namesIn_write? hwrite h.nodup
  · exact h.plain
  · intro other own hown
    obtain ⟨-, rfl⟩ | hown := ownId?_write? hname hextension hwrite hown
    · exact hplain
    · exact h.plain_file other own hown
  · intro other own hown
    obtain ⟨hother, rfl⟩ | hown := ownId?_write? hname hextension hwrite hown
    · apply (hfile.named other _).imp_left Eq.symm
      rw [jsonPath, hother]
    · exact h.named other own hown
  · intro other path hpath
    apply (h.files other path hpath).write? hname hextension hwrite
    rintro rfl
    exact hfile.alone other hpath

end Write

/-- Removing files, even if it fails on one of them, leaves no others than there were. -/
theorem shrinks_removeAll (paths : List Path) (disk : Disk) :
  disk.Shrinks (removeAll paths disk).2
  := by
  induction paths generalizing disk with
  | nil => exact Disk.shrinks_of_files_eq rfl
  | cons path rest ih =>
    rw [removeAll]
    split
    case h_1 between hremove => exact (Disk.shrinks_of_remove hremove).trans (ih between)
    case h_2 => exact ih disk
    case h_3 => exact Disk.shrinks_of_files_eq rfl

theorem get?_of_get?_erase {files : Table Path} {key id : String} {path : Path}
    (h : (files.erase key).get? id = some path) :
  files.get? id = some path
  := by
  rw [Table.get?_erase] at h
  split at h
  case isTrue => cases h
  case isFalse => exact h

theorem get?_of_get?_evict {files : Table Path} {evicted : Option String} {id : String}
    {path : Path} (h : (evicted.elim files files.erase).get? id = some path) :
  files.get? id = some path
  := by
  cases evicted with
  | none => exact h
  | some rival => exact get?_of_get?_erase h

/-- Saving a query in the store leaves the files apart. -/
theorem Apart.upsert (h : Apart taken self disk) {newId : String} {query : SavedQuery}
    (hplain : '/' ∉ (self.store.upsert newId query).query.id.toList) :
  Apart taken { self with store := (self.store.upsert newId query).store } disk
  := by
  apply h.with_store
  intro id found hfound
  rw [Store.get?_upsert_eq] at hfound
  split at hfound
  case isTrue =>
    cases hfound
    exact hplain
  case isFalse =>
    split at hfound
    case isTrue => cases hfound
    case isFalse => exact h.plain id found hfound

/-- Saving leaves the files apart, also where it fails. -/
theorem Apart.save (h : Apart taken self disk) {newId : String} (hnew : '/' ∉ newId.toList)
    {query : SavedQuery} (hquery : '/' ∉ query.id.toList)
    (hfree : taken (self.store.idFor newId query) →
      ∃ path, self.files.get? (self.store.idFor newId query) = some path
        ∧ path.extension? = some "json") :
  Apart taken (FolderStore.save newId query (self, disk)).2.1
    (FolderStore.save newId query (self, disk)).2.2
  := by
  have hplain : '/' ∉ (self.store.upsert newId query).query.id.toList :=
    Store.idFor_of_forall (p := fun id => '/' ∉ id.toList) hnew hquery h.plain
  have hstore := h.upsert hplain
  rw [FolderStore.save]
  simp only
  split
  case h_1 => exact hstore
  case h_2 made hmade =>
    have hshrinks := Disk.shrinks_of_files_eq (Disk.makeFolders?_inv hmade).1
    have hstore := hstore.shrinks hshrinks
    split
    case h_1 => exact hstore
    case h_2 written hwritten =>
      obtain ⟨hfile, hextension⟩ := hstore.isFileOf_fileFor hplain hfree
      obtain ⟨name, hname, hpath⟩ := hfile.inside
      rw [hpath] at hwritten hfile hextension
      -- The file is written before the index changes, and stays written if a removal fails.
      have hapart := hstore.write? hfile hname hextension hplain hwritten
      have hfile := hfile.write? hname hextension hwritten fun _ => rfl
      have hle : ∀ id path, ((self.store.upsert newId query).evicted.elim self.files
          self.files.erase).get? id = some path → self.files.get? id = some path :=
        fun _ _ => get?_of_get?_evict
      split
      case h_1 left hleft =>
        have hshrinks := congrArg Prod.snd hleft ▸ shrinks_removeAll _ written
        exact (hapart.shrinks hshrinks).of_le hle
      case h_2 left hleft =>
        have hshrinks := congrArg Prod.snd hleft ▸ shrinks_removeAll _ written
        rw [hpath]
        exact ((hapart.shrinks hshrinks).of_le hle).insert ((hfile.shrinks hshrinks).of_le hle)

/-- Deleting leaves the files apart, also where it fails. -/
theorem Apart.delete (h : Apart taken self disk) (id : String) :
  Apart taken (FolderStore.delete id (self, disk)).2.1 (FolderStore.delete id (self, disk)).2.2
  := by
  have hle : ∀ other path, (self.files.erase id).get? other = some path →
      self.files.get? other = some path := fun _ _ => get?_of_get?_erase
  have hleft := (h.shrinks (shrinks_removeAll (self.files.get? id).toList disk)).of_le hle
  rw [FolderStore.delete]
  simp only
  split
  case h_1 left heq =>
    rw [heq] at hleft
    exact hleft
  case h_2 left heq =>
    rw [heq] at hleft
    apply hleft.with_store
    intro other query hquery
    exact h.plain other query (Store.get?_of_get?_delete hquery)

/-! ### The files of other records -/

/-- Whether an id has the same file afterwards, and the file the same contents if it could be
read. -/
def Keeps (on after : OnDisk) (id : String) : Prop :=
  ∀ path contents, on.1.files.get? id = some path → on.2.read? path = some contents →
    after.1.files.get? id = some path ∧ after.2.read? path = some contents

/-- The files of different ids are in different places. -/
theorem Apart.place_ne (h : Apart taken self disk) {id other : String} {path place : Path}
    (hpath : self.files.get? id = some path) (hplace : IsFileOf taken self disk other place)
    (hne : id ≠ other) :
  path.place ≠ place.place
  := by
  intro heq
  obtain ⟨name, hname, rfl⟩ := (h.files id path hpath).inside
  obtain ⟨name', hname', rfl⟩ := hplace.inside
  obtain rfl := (place_append_inj hname hname').mp heq
  exact hne (hplace.alone id hpath)

/-- A file can be read after files in other places have been removed. -/
theorem read?_removeAll {paths : List Path} (h : removeAll paths disk = (true, after)) {path : Path}
    (hne : ∀ other ∈ paths, path.place ≠ other.place) {contents : String}
    (hread : disk.read? path = some contents) :
  after.read? path = some contents
  := by
  obtain ⟨hfolders, hcontents, -⟩ := removeAll_inv h
  rw [Disk.read?_eq_some_iff] at hread ⊢
  rw [Disk.locate?_congr hfolders, hcontents, if_neg]
  · exact hread
  · rintro ⟨other, hother, hplace⟩
    exact hne other hother (Disk.locate?_eq_place hplace)

/-- Saving a query keeps the files of all records but the one saved and the one evicted. -/
theorem Apart.save_keeps (h : Apart taken self disk) {newId : String} (hnew : '/' ∉ newId.toList)
    {query : SavedQuery} (hquery : '/' ∉ query.id.toList)
    (hfree : taken (self.store.idFor newId query) →
      ∃ path, self.files.get? (self.store.idFor newId query) = some path
        ∧ path.extension? = some "json")
    {saved : SavedQuery} {after : OnDisk}
    (hsave : FolderStore.save newId query (self, disk) = (.ok saved, after)) {id : String}
    (hid : id ≠ saved.id) (hevicted : (self.store.upsert newId query).evicted ≠ some id) :
  Keeps (self, disk) after id
  := by
  obtain ⟨rfl, made, written, left, hmade, hwritten, hleft, rfl⟩ := save_inv hsave
  have hplain : '/' ∉ (self.store.upsert newId query).query.id.toList :=
    Store.idFor_of_forall (p := fun id => '/' ∉ id.toList) hnew hquery h.plain
  obtain ⟨hfile, -⟩ := h.isFileOf_fileFor hplain hfree
  intro path contents hpath hread
  constructor
  · rw [Table.get?_insert, if_neg (Ne.symm hid)]
    cases hrival : (self.store.upsert newId query).evicted with
    | none => exact hpath
    | some rival =>
      rw [Option.elim_some, Table.get?_erase, if_neg]
      · exact hpath
      · rintro rfl
        exact hevicted hrival
  · apply read?_removeAll hleft
    · intro other hother
      rw [List.mem_filter, List.mem_append] at hother
      obtain ⟨hprevious | hgone, -⟩ := hother
      · rw [Option.mem_toList] at hprevious
        exact h.place_ne hpath (h.files _ other hprevious) hid
      · rw [Option.mem_toList, Option.bind_eq_bind, Option.bind_eq_some_iff] at hgone
        obtain ⟨rival, hrival, hgone⟩ := hgone
        apply h.place_ne hpath (h.files rival other hgone)
        rintro rfl
        exact hevicted hrival
    · apply Disk.read?_write?_of_ne hwritten (h.place_ne hpath hfile hid)
      exact Disk.read?_makeFolders? hmade hread

/-- Deleting a record keeps the files of all others. -/
theorem Apart.delete_keeps (h : Apart taken self disk) {id : String} {found : Bool}
    {after : OnDisk} (hdelete : FolderStore.delete id (self, disk) = (.ok found, after))
    {other : String} (hother : other ≠ id) :
  Keeps (self, disk) after other
  := by
  obtain ⟨left, hleft, rfl⟩ := delete_inv hdelete
  intro path contents hpath hread
  constructor
  · rw [Table.get?_erase, if_neg (Ne.symm hother)]
    exact hpath
  · apply read?_removeAll hleft _ hread
    intro place hplace
    rw [Option.mem_toList] at hplace
    exact h.place_ne hpath (h.files id place hplace) hother

/-! ### Sessions -/

/-- Whether the file that is named after an id says another one, or none. -/
def IsTaken (start : OnDisk) (id : String) : Prop :=
  ∃ own, own ≠ id
    ∧ ownId? start.1.defaultEntity start.2 (jsonPath start.1.folder id) = some own

/-- Whether a query can be saved without harm to others: no id has a slash, and if the file that
is named after its id was taken at the start, the record has a JSON file already. -/
structure MaySave (start on : OnDisk) (newId : String) (query : SavedQuery) : Prop where
  plain_new : '/' ∉ newId.toList
  plain : '/' ∉ query.id.toList
  free : IsTaken start (on.1.store.idFor newId query) →
    ∃ path, on.1.files.get? (on.1.store.idFor newId query) = some path
      ∧ path.extension? = some "json"

/-- The states that loading, saving and deleting lead to, also where they fail. No file without an
id is taken in when it is in the index already. -/
inductive Session (start : OnDisk) : OnDisk → Prop
  | start : Session start start
  | load {on : OnDisk} {newIds : List String} (h : Session start on)
    (hnew : ∀ newId ∈ newIds, '/' ∉ newId.toList)
    (hunnamed : ∀ id path, on.1.files.get? id = some path →
      ownId? on.1.defaultEntity on.2 path ≠ some "") :
    Session start ((load on.1 newIds on.2).2, on.2)
  | save {on : OnDisk} {newId : String} {query : SavedQuery} (h : Session start on)
    (hmay : MaySave start on newId query) : Session start (save newId query on).2
  | delete {on : OnDisk} (h : Session start on) (id : String) : Session start (delete id on).2

/-- Before anything has been taken in the files are apart. -/
theorem apart_start {folder : Path} {defaultEntity : String}
    (hnodup : (disk.namesIn folder.place).Nodup)
    (hplain : ∀ name ∈ disk.namesIn folder.place,
      ∀ own ∈ ownId? defaultEntity disk (folder ++ [name]), '/' ∉ own.toList) :
  Apart (IsTaken ({ folder, defaultEntity }, disk)) { folder, defaultEntity } disk
  := by
  constructor
  · exact hnodup
  · rintro _ _ ⟨⟩
  · intro name own hown
    have hname : name ≠ ".." := by
      rintro rfl
      exact extension?_of_ownId? hown (extension?_parent folder)
    apply hplain name _ own hown
    obtain ⟨contents, query, hcontents, -, -⟩ := ownId?_eq_some_iff.mp hown
    rw [Path.place_append_singleton, Path.step_of_ne hname] at hcontents
    rw [Disk.mem_namesIn_iff, Disk.isFile, hcontents]
    rfl
  · intro id own hown
    by_cases hid : own = id
    · exact .inl hid
    · exact .inr ⟨own, hid, hown⟩
  · rintro _ _ ⟨⟩

theorem Session.apart {start on : OnDisk} (h : Session start on)
    (hstart : Apart (IsTaken start) start.1 start.2) :
  Apart (IsTaken start) on.1 on.2
  := by
  induction h with
  | start => exact hstart
  | load _ hnew hunnamed ih => exact ih.load hnew hunnamed
  | save _ hmay ih => exact ih.save hmay.plain_new hmay.plain hmay.free
  | delete _ id ih => exact ih.delete id

/-- In every session that starts without records on a folder in which the ids hold no slash, no two
ids have the same file, and a query that is saved or deleted leaves the files of all records as they
are but its own and the evicted one's. -/
theorem Session.files_apart {folder : Path} {defaultEntity : String} {disk : Disk}
    (hnodup : (disk.namesIn folder.place).Nodup)
    (hplain : ∀ name ∈ disk.namesIn folder.place,
      ∀ own ∈ ownId? defaultEntity disk (folder ++ [name]), '/' ∉ own.toList)
    {on : OnDisk} (h : Session ({ folder, defaultEntity }, disk) on) :
  (∀ id other path, on.1.files.get? id = some path → on.1.files.get? other = some path →
      id = other)
    ∧ (∀ newId query saved after, MaySave ({ folder, defaultEntity }, disk) on newId query →
      FolderStore.save newId query on = (.ok saved, after) → ∀ id, id ≠ saved.id →
        (on.1.store.upsert newId query).evicted ≠ some id → Keeps on after id)
    ∧ ∀ id found after, FolderStore.delete id on = (.ok found, after) → ∀ other, other ≠ id →
      Keeps on after other
  := by
  have hapart := h.apart (apart_start hnodup hplain)
  refine ⟨?_, ?_, ?_⟩
  · intro id other path hid hother
    exact (hapart.files other path hother).alone id hid
  · intro newId query saved after hmay hsave id hid hevicted
    exact hapart.save_keeps hmay.plain_new hmay.plain hmay.free hsave hid hevicted
  · intro id found after hdelete other hother
    exact hapart.delete_keeps hdelete hother

/-- The record of a book. -/
def record (id name text : String) : SavedQuery where
  id := id
  name := name
  text := text
  entity := "book"

/-- A folder with two queries that are nothing but texts. -/
def texts : OnDisk where
  fst := { folder := ["q"], defaultEntity := "book" }
  snd :=
    { folders := [["q"]]
      files := [(["q", "a.bql"], "x = 1"), (["q", "b.bql"], "x = 2")] }

/-- The folder after its files have been taken in. -/
def textsLoaded : OnDisk :=
  ((load texts.1 ["1", "2"] texts.2).2, texts.2)

/-- One of the texts is written as a record to a new file, or deleted; the other one stays. -/
theorem files_apart_texts :
  (texts.2.namesIn (Path.place ["q"])).Nodup
    ∧ (∀ name ∈ texts.2.namesIn (Path.place ["q"]),
      ∀ own ∈ ownId? "book" texts.2 (["q"] ++ [name]), '/' ∉ own.toList)
    ∧ Session texts textsLoaded
    ∧ MaySave texts textsLoaded "3" (record "a" "A" "x = 3")
    ∧ (FolderStore.save "3" (record "a" "A" "x = 3") textsLoaded).1
      = .ok (record "a" "A" "x = 3")
    ∧ Keeps textsLoaded (FolderStore.save "3" (record "a" "A" "x = 3") textsLoaded).2 "b"
    ∧ Keeps textsLoaded (FolderStore.delete "a" textsLoaded).2 "b"
  := by
  have hnodup : (texts.2.namesIn (Path.place ["q"])).Nodup := by decide +kernel
  have hplain : ∀ name ∈ texts.2.namesIn (Path.place ["q"]),
      ∀ own ∈ ownId? "book" texts.2 (["q"] ++ [name]), '/' ∉ own.toList := by decide +kernel
  have hsession : Session texts textsLoaded := .load .start (by decide) (by rintro _ _ ⟨⟩)
  have hmay : MaySave texts textsLoaded "3" (record "a" "A" "x = 3") := by
    refine ⟨by decide, by decide, ?_⟩
    rintro ⟨own, -, hown⟩
    have hnone : ownId? "book" texts.2 (jsonPath ["q"] "a") = none := by decide +kernel
    exact absurd (hnone.symm.trans hown) (by simp)
  have hsave : (FolderStore.save "3" (record "a" "A" "x = 3") textsLoaded).1
      = .ok (record "a" "A" "x = 3") := by decide +kernel
  have hdelete : (FolderStore.delete "a" textsLoaded).1 = .ok true := by decide +kernel
  have hevicted : (textsLoaded.1.store.upsert "3" (record "a" "A" "x = 3")).evicted ≠ some "b" := by
    decide +kernel
  obtain ⟨-, hsaves, hdeletes⟩ := Session.files_apart hnodup hplain hsession
  refine ⟨hnodup, hplain, hsession, hmay, hsave, ?_, ?_⟩
  · exact hsaves "3" _ _ _ hmay (Prod.ext hsave rfl) "b" (by decide) hevicted
  · exact hdeletes "a" _ _ (Prod.ext hdelete rfl) "b" (by decide)

/-- A folder with a file that is named after another id than that of its record. -/
def misnamed : OnDisk where
  fst := { folder := ["q"], defaultEntity := "book" }
  snd :=
    { folders := [["q"]]
      files := [(["q", "b.json"], "\x7b\"id\":\"a\",\"name\":\"A\",\"text\":\"x\"\x7d")] }

/-- A record that is saved under the name of the file is written over the one in it, and both ids
have the file. -/
theorem save_shares_file :
  let loaded : OnDisk := ((load misnamed.1 ["1"] misnamed.2).2, misnamed.2)
  let saved := FolderStore.save "1" (record "b" "B" "y") loaded
  saved.1 = .ok (record "b" "B" "y")
    ∧ saved.2.1.store.get? "a" = some (record "a" "A" "x")
    ∧ saved.2.1.files.get? "a" = some ["q", "b.json"]
    ∧ saved.2.1.files.get? "b" = some ["q", "b.json"]
    ∧ saved.2.2.read? ["q", "b.json"] = some (Json.indented (record "b" "B" "y").toData)
  := by decide +kernel

/-- A folder with a file that holds no id. -/
def unnamed : OnDisk where
  fst := { folder := ["q"], defaultEntity := "book" }
  snd :=
    { folders := [["q"]]
      files := [(["q", "a.json"], "\x7b\"name\":\"A\",\"text\":\"x\"\x7d")] }

/-- A file without an id that is taken in twice is the file of two ids. -/
theorem load_shares_file :
  let loaded := (load (load unnamed.1 ["1"] unnamed.2).2 ["2"] unnamed.2).2
  loaded.files.get? "1" = some ["q", "a.json"] ∧ loaded.files.get? "2" = some ["q", "a.json"]
  := by decide +kernel

end FolderStore

end Sift
