import Sift.Saved.Store
import Sift.Disk
import Sift.Data.Json
import Sift.Data.Yaml
import Sift.Text.Blank

/-!
# Saved queries in a folder

A `FolderStore` holds saved queries whose records are also files in a folder: `load` reads the
files, `save` writes a record as JSON, and `delete` removes its file. A record in JSON stays in
its file; any other is written to a file that is named after its id.
-/

namespace Sift

/-- A store with its folder and the file of each id. -/
structure FolderStore where
  folder : Path
  /-- The entity of files that do not name one. -/
  defaultEntity : String
  store : Store := {}
  files : Table Path := Table.empty

namespace FolderStore

/-! ### Loading -/

/-- The saved query that is nothing but a text in a file. -/
def ofText (defaultEntity : String) (path : Path) (contents : String) : SavedQuery where
  id := path.stem
  name := path.stem
  text := String.ofList (Text.trim contents.toList)
  entity := defaultEntity
  isSystem := true

/-- The saved query in a file, whose extension says how it is written. -/
def readFile? (defaultEntity : String) (path : Path) (contents : String) :
    Option SavedQuery :=
  match path.extension? with
  | some "json" => Json.read? contents >>= SavedQuery.ofData?
  | some "yaml" => Yaml.read? contents >>= SavedQuery.ofData?
  | some "yml" => Yaml.read? contents >>= SavedQuery.ofData?
  | some "bql" => some (ofText defaultEntity path contents)
  | _ => none

/-- The record of a file, with the default entity and a new id where it has none. -/
def loadFile? (defaultEntity newId : String) (path : Path) (contents : String) :
    Option SavedQuery :=
  (readFile? defaultEntity path contents).map fun query =>
    let entity := if query.entity = "" then defaultEntity else query.entity
    { query with entity }.withId newId

/-- How many files could be loaded and how many could not. -/
structure LoadCount where
  loaded : Nat := 0
  failed : Nat := 0
deriving DecidableEq

/-- Takes in the record of one file. -/
def loadPath (disk : Disk) (found : FolderStore × LoadCount) (file : Path × String) :
    FolderStore × LoadCount :=
  let (self, count) := found
  let (path, newId) := file
  match disk.read? path >>= loadFile? self.defaultEntity newId path with
  | some query =>
    ({ self with
        store := self.store.insert query
        files := self.files.insert query.id path },
      { count with loaded := count.loaded + 1 })
  | none => (self, { count with failed := count.failed + 1 })

/-- Takes in the records of all files in the folder, which may be missing. The records without
an id get those of `newIds`. -/
def load (self : FolderStore) (newIds : List String) (disk : Disk) :
    Except StoreError LoadCount × FolderStore :=
  match disk.locate? self.folder with
  | none => (.ok {}, self)
  | some place =>
    if disk.isFile place then (.error .fileAccess, self)
    else
      let paths := (disk.namesIn place).map fun name => self.folder ++ [name]
      let (after, count) := (paths.zip newIds).foldl (loadPath disk) (self, {})
      (.ok count, after)

/-! ### Saving and deleting -/

/-- The file that a record is written to: the one it has, if that is JSON, or else one that is
named after its id. -/
def fileFor (self : FolderStore) (id : String) : Path :=
  match self.files.get? id with
  | some path =>
    if path.extension? = some "json" then path else self.folder.join (id ++ ".json")
  | none => self.folder.join (id ++ ".json")

/-- Removes the files that hold nothing any more; one that is missing is no failure. -/
def removeAll : List Path → Disk → Bool × Disk
  | [], disk => (true, disk)
  | path :: rest, disk =>
    match disk.remove path with
    | .removed disk => removeAll rest disk
    | .missing => removeAll rest disk
    | .refused => (false, disk)

/-- A folder store together with the disk. -/
abbrev OnDisk : Type := FolderStore × Disk

/-- Saves a query and writes its record to its file. The files that held the record before, or
the one that had to go, are removed. The store has changed also when the file cannot be
written. -/
def save (newId : String) (query : SavedQuery) (on : OnDisk) :
    Except StoreError SavedQuery × OnDisk :=
  let (self, disk) := on
  let upsert := self.store.upsert newId query
  let self := { self with store := upsert.store }
  let saved := upsert.query
  match disk.makeFolders? [] self.folder with
  | none => (.error .fileAccess, (self, disk))
  | some disk =>
    let previous := self.files.get? saved.id
    let path := self.fileFor saved.id
    match disk.write? path (Json.indented saved.toData) with
    | none => (.error .fileAccess, (self, disk))
    | some disk =>
      let evicted := upsert.evicted >>= self.files.get?
      let stale := (previous.toList ++ evicted.toList).filter (· ≠ path)
      let files := upsert.evicted.elim self.files self.files.erase
      match removeAll stale disk with
      | (false, disk) => (.error .fileAccess, ({ self with files }, disk))
      | (true, disk) => (.ok saved, ({ self with files := files.insert saved.id path }, disk))

/-- Deletes the record of an id and its file, and says whether there was a record. -/
def delete (id : String) (on : OnDisk) : Except StoreError Bool × OnDisk :=
  let (self, disk) := on
  let after := { self with files := self.files.erase id }
  match removeAll (self.files.get? id).toList disk with
  | (false, disk) => (.error .fileAccess, (after, disk))
  | (true, disk) =>
    let (found, store) := self.store.delete id
    (.ok found, ({ after with store }, disk))

end FolderStore

end Sift
