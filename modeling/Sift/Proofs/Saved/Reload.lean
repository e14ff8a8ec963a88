import Sift.Proofs.Saved.Steps

/-!
# Loading a folder again

A record that is taken in goes under the id in its file, or under a new one if the file says none
(`FolderStore.completed`). If the files in the folder say different ids, what one of them holds
stays in the store until all are taken in (`FolderStore.has_load`), so that taking it in again
changes nothing (`FolderStore.sameEntries_foldl`). `FolderStore.load_load` is the result: loading
the folder again counts the same files, in whatever order they are listed, and changes nothing
exactly if every file that can be loaded says an id.
-/

namespace Sift

namespace FolderStore

variable {self : FolderStore} {disk later : Disk}

/-! ### The records in files -/

/-- The record that a file holds, as it stands there. -/
def held? (defaultEntity : String) (disk : Disk) (path : Path) : Option SavedQuery :=
  disk.read? path >>= readFile? defaultEntity path

/-- A record with what it lacks. -/
def completed (defaultEntity newId : String) (query : SavedQuery) : SavedQuery :=
  { query with entity := if query.entity = "" then defaultEntity else query.entity }.withId newId

theorem id_completed (defaultEntity newId : String) (query : SavedQuery) :
  (completed defaultEntity newId query).id = if query.id = "" then newId else query.id
  := by
  rw [completed, SavedQuery.withId, apply_ite SavedQuery.id]

theorem id_completed_of_ne {query : SavedQuery} (h : query.id ≠ "") (defaultEntity newId : String) :
  (completed defaultEntity newId query).id = query.id
  := by
  rw [id_completed, if_neg h]

/-- A record that has an id lacks no new one. -/
theorem completed_congr {query : SavedQuery} (h : query.id ≠ "")
    (defaultEntity newId other : String) :
  completed defaultEntity newId query = completed defaultEntity other query
  := (if_neg h).trans (if_neg h).symm

/-- A file is loaded if it holds a record. -/
theorem loadPath_eq_held? (found : FolderStore × LoadCount) (path : Path) (newId : String) :
  loadPath disk found (path, newId)
    = match held? found.1.defaultEntity disk path with
      | some held =>
        let query := completed found.1.defaultEntity newId held
        ({ found.1 with
            store := found.1.store.insert query
            files := found.1.files.insert query.id path },
          { found.2 with loaded := found.2.loaded + 1 })
      | none => (found.1, { found.2 with failed := found.2.failed + 1 })
  := by
  have hload : (disk.read? path >>= loadFile? found.1.defaultEntity newId path)
      = (held? found.1.defaultEntity disk path).map (completed found.1.defaultEntity newId) := by
    rw [held?]
    cases disk.read? path <;> rfl
  rw [loadPath]
  simp only [hload]
  cases held? found.1.defaultEntity disk path <;> rfl

/-- The files in the folder that can be loaded, with the records that they hold. -/
def holdings (self : FolderStore) (disk : Disk) : List (Path × SavedQuery) :=
  if disk.isFile self.folder.place then []
  else (self.paths disk).filterMap fun path =>
    (held? self.defaultEntity disk path).map fun held => (path, held)

theorem mem_holdings_iff {path : Path} {held : SavedQuery} :
  (path, held) ∈ self.holdings disk ↔ disk.isFile self.folder.place = false
    ∧ path ∈ self.paths disk ∧ held? self.defaultEntity disk path = some held
  := by
  rw [holdings]
  split
  case isTrue hfile => simp [hfile]
  case isFalse hfile =>
    rw [Bool.not_eq_true] at hfile
    simp only [List.mem_filterMap, Option.map_eq_some_iff, Prod.mk.injEq, hfile, true_and]
    constructor
    · rintro ⟨_, hpath, _, hheld, rfl, rfl⟩
      exact ⟨hpath, hheld⟩
    · rintro ⟨hpath, hheld⟩
      exact ⟨path, hpath, held, hheld, rfl, rfl⟩

/-- Whether no two files in the folder say the same id. -/
def HasDistinctIds (self : FolderStore) (disk : Disk) : Prop :=
  ∀ file ∈ self.holdings disk, ∀ other ∈ self.holdings disk,
    file.2.id ≠ "" → file.2.id = other.2.id → file.1 = other.1

/-- Where there is a file that can be loaded, all files are taken in. -/
theorem load_of_mem_holdings {file : Path × SavedQuery} (h : file ∈ self.holdings disk)
    (newIds : List String) :
  load self newIds disk
    = let found := (self.filesWith newIds disk).foldl (loadPath disk) (self, {})
      (.ok found.2, found.1)
  := by
  obtain ⟨path, held⟩ := file
  obtain ⟨hfile, hpath, hheld⟩ := mem_holdings_iff.mp h
  obtain ⟨name, -, rfl⟩ := List.mem_map.mp hpath
  obtain ⟨contents, hread, -⟩ := Option.bind_eq_some_iff.mp hheld
  obtain ⟨place, hplace⟩ := Disk.exists_locateFrom?_of_append (Disk.read?_eq_some_iff.mp hread).1
  have hsome : disk.locate? self.folder ≠ none := by
    rw [Disk.locate?, hplace]
    simp
  rw [load_eq_foldl, if_neg hsome, if_neg (by simp [hfile])]

section Ids

variable {newIds : List String} (hids : (self.paths disk).length ≤ newIds.length)
include hids

theorem map_fst_filesWith :
  (self.filesWith newIds disk).map (·.1) = self.paths disk
  := List.map_fst_zip hids

/-- Every file gets a new id. -/
theorem exists_mem_filesWith {path : Path} (h : path ∈ self.paths disk) :
  ∃ newId ∈ newIds, (path, newId) ∈ self.filesWith newIds disk
  := by
  rw [← map_fst_filesWith hids] at h
  obtain ⟨⟨_, newId⟩, hfile, rfl⟩ := List.mem_map.mp h
  use newId, (List.of_mem_zip hfile).2

end Ids

section Relisted

variable {other : FolderStore} (h : disk.Relisted later) (hsettings : self.SameSettings other)
include h hsettings

theorem paths_perm :
  (other.paths later).Perm (self.paths disk)
  := by
  rw [paths, paths, hsettings.folder]
  apply (h.names _).map

theorem held?_eq (path : Path) :
  held? other.defaultEntity later path = held? self.defaultEntity disk path
  := by
  rw [held?, held?, h.read?, hsettings.defaultEntity]

theorem mem_holdings_relisted {file : Path × SavedQuery} :
  file ∈ other.holdings later ↔ file ∈ self.holdings disk
  := by
  obtain ⟨path, held⟩ := file
  rw [mem_holdings_iff, mem_holdings_iff, hsettings.folder, h.isFile, held?_eq h hsettings,
    (paths_perm h hsettings).mem_iff]

end Relisted

/-! ### Counting files -/

/-- The number of files in the folder that hold a record, and of those that do not. -/
def tally (self : FolderStore) (disk : Disk) : LoadCount where
  loaded := (self.paths disk).countP fun path => (held? self.defaultEntity disk path).isSome
  failed := (self.paths disk).countP fun path => (held? self.defaultEntity disk path).isNone

theorem count_foldl (files : List (Path × String)) (self : FolderStore) (count : LoadCount) :
  (files.foldl (loadPath disk) (self, count)).2
    = { loaded := count.loaded
          + (files.map (·.1)).countP fun path => (held? self.defaultEntity disk path).isSome
        failed := count.failed
          + (files.map (·.1)).countP fun path => (held? self.defaultEntity disk path).isNone }
  := by
  induction files generalizing self count with
  | nil => rfl
  | cons file files ih =>
    obtain ⟨path, newId⟩ := file
    rw [List.foldl_cons, List.map_cons, List.countP_cons, List.countP_cons, loadPath_eq_held?]
    cases hheld : held? self.defaultEntity disk path with
    | some held =>
      simp only
      rw [ih]
      simp [Nat.add_assoc, Nat.add_comm 1]
    | none =>
      simp only
      rw [ih]
      simp [Nat.add_assoc, Nat.add_comm 1]

/-- Which files are counted does not depend on what is in the store. -/
theorem count_load {newIds : List String} (hids : (self.paths disk).length ≤ newIds.length) :
  (load self newIds disk).1
    = if disk.locate? self.folder = none then .ok {}
      else if disk.isFile self.folder.place = true then .error .fileAccess
      else .ok (self.tally disk)
  := by
  rw [load_eq_foldl]
  split
  case isTrue => rfl
  case isFalse =>
    split
    case isTrue => rfl
    case isFalse =>
      simp only [count_foldl, map_fst_filesWith hids, Nat.zero_add]
      rfl

theorem tally_relisted {other : FolderStore} (h : disk.Relisted later)
    (hsettings : self.SameSettings other) :
  other.tally later = self.tally disk
  := by
  simp only [tally, held?_eq h hsettings, (paths_perm h hsettings).countP_eq]

/-! ### Taking in files -/

/-- Whether a record stands in the store, and its file in the index. -/
def Has (self : FolderStore) (path : Path) (query : SavedQuery) : Prop :=
  self.store.get? query.id = some query ∧ self.files.get? query.id = some path

/-- What a file holds is in the store when it has been taken in. -/
theorem has_loadPath {found : FolderStore × LoadCount} {path : Path} {held : SavedQuery}
    (h : held? found.1.defaultEntity disk path = some held) (newId : String) :
  (loadPath disk found (path, newId)).1.Has path (completed found.1.defaultEntity newId held)
  := by
  rw [loadPath_eq_held?, h]
  simp [Has, Store.get?, Store.insert, Table.get?_insert]

/-- What is in the store remains when a file is taken in whose record has another id. -/
theorem Has.loadPath {found : FolderStore × LoadCount} {path : Path} {query : SavedQuery}
    (h : found.1.Has path query) {place : Path} {newId : String}
    (hne : ∀ held, held? found.1.defaultEntity disk place = some held →
      (completed found.1.defaultEntity newId held).id ≠ query.id) :
  (loadPath disk found (place, newId)).1.Has path query
  := by
  rw [loadPath_eq_held?]
  split
  case h_1 held hheld =>
    simp only [Has, Store.get?, Store.insert, Table.get?_insert, if_neg (hne held hheld)]
    exact h
  case h_2 => exact h

/-- What taking in one file brings about, and all other files leave in force, holds after all have
been taken in. -/
theorem foldl_loadPath_of_mem {motive : FolderStore → Prop} {files : List (Path × String)}
    {file : Path × String} (hfile : file ∈ files)
    (hmake : ∀ found, self.SameSettings found.1 → motive (loadPath disk found file).1)
    (hkeep : ∀ other ∈ files, ∀ found, self.SameSettings found.1 → motive found.1 →
      motive (loadPath disk found other).1) (count : LoadCount) :
  motive (files.foldl (loadPath disk) (self, count)).1
  := by
  obtain ⟨before, after, rfl⟩ := List.append_of_mem hfile
  have hsettings : self.SameSettings (before.foldl (loadPath disk) (self, count)).1 :=
    sameSettings_foldl before (self, count) disk
  rw [List.foldl_append, List.foldl_cons]
  refine (foldl_loadPath_induction (hmake _ hsettings) ?_).2
  intro other hother found hfound hmotive
  apply hkeep other (by simp [hother]) found _ hmotive
  apply (hsettings.loadPath disk file).trans hfound

/-- Taking in files again whose records and entries are there already changes nothing. -/
theorem sameEntries_foldl {files : List (Path × String)}
    (h : ∀ file ∈ files, ∀ held, held? self.defaultEntity disk file.1 = some held →
      self.Has file.1 (completed self.defaultEntity file.2 held)) (count : LoadCount) :
  self.SameEntries (files.foldl (loadPath disk) (self, count)).1
  := by
  refine (foldl_loadPath_induction ⟨fun _ => rfl, fun _ => rfl⟩ ?_).2
  rintro ⟨path, newId⟩ hfile found hsettings hsame
  rw [loadPath_eq_held?, hsettings.defaultEntity]
  cases hheld : held? self.defaultEntity disk path with
  | none => exact hsame
  | some held =>
    obtain ⟨hrecord, hindex⟩ := h _ hfile held hheld
    constructor
    · intro id
      simp only [Store.get?, Store.insert, Table.get?_insert]
      split
      case isTrue hid => rw [← hid, ← hrecord, Store.get?]
      case isFalse => exact hsame.records id
    · intro id
      simp only [Table.get?_insert]
      split
      case isTrue hid => rw [← hid, ← hindex]
      case isFalse => exact hsame.index id

/-! ### Loading again -/

/-- If the files say different ids, and every one that can be loaded says one, what a file holds is
in the store when the folder has been loaded. -/
theorem has_load (hdistinct : self.HasDistinctIds disk)
    (hnamed : ∀ file ∈ self.holdings disk, file.2.id ≠ "") {newIds : List String}
    (hids : (self.paths disk).length ≤ newIds.length) {path : Path} {held : SavedQuery}
    (hheld : (path, held) ∈ self.holdings disk) (newId : String) :
  (load self newIds disk).2.Has path (completed self.defaultEntity newId held)
  := by
  obtain ⟨hfolder, hpath, hread⟩ := mem_holdings_iff.mp hheld
  obtain ⟨first, -, hfile⟩ := exists_mem_filesWith hids hpath
  have hid : held.id ≠ "" := hnamed _ hheld
  -- What is taken in does not depend on the new id, as the record has one of its own.
  have hmake : ∀ found newId', self.SameSettings found.1 →
      (loadPath disk found (path, newId')).1.Has path
        (completed self.defaultEntity newId held) := by
    intro found newId' hsettings
    rw [← hsettings.defaultEntity, completed_congr hid _ newId newId']
    apply has_loadPath
    rw [hsettings.defaultEntity, hread]
  rw [load_of_mem_holdings hheld]
  apply foldl_loadPath_of_mem (motive := fun found =>
    found.Has path (completed self.defaultEntity newId held)) hfile
  · intro found hsettings
    apply hmake found first hsettings
  · rintro ⟨place, newId'⟩ hother found hsettings hhas
    by_cases hplace : place = path
    · rw [hplace]
      apply hmake found newId' hsettings
    · apply hhas.loadPath
      intro other hread'
      rw [hsettings.defaultEntity] at hread' ⊢
      have hother : (place, other) ∈ self.holdings disk :=
        mem_holdings_iff.mpr ⟨hfolder, (List.of_mem_zip hother).1, hread'⟩
      rw [id_completed_of_ne (hnamed _ hother), id_completed_of_ne hid]
      exact fun heq => hplace (hdistinct _ hother _ hheld (hnamed _ hother) heq)

/-- A file that says no id is taken in under the new one. -/
theorem get?_load_ne_none {newIds : List String} {path : Path} {held : SavedQuery}
    (hheld : (path, held) ∈ self.holdings disk) (hid : held.id = "") {newId : String}
    (hfile : (path, newId) ∈ self.filesWith newIds disk) :
  (load self newIds disk).2.store.get? newId ≠ none
  := by
  rw [load_of_mem_holdings hheld]
  apply foldl_loadPath_of_mem (motive := fun found => found.store.get? newId ≠ none) hfile
  · intro found hsettings
    rw [loadPath_eq_held?, hsettings.defaultEntity, (mem_holdings_iff.mp hheld).2.2]
    simp [Store.get?, Store.insert, Table.get?_insert, id_completed, hid]
  · rintro ⟨place, other⟩ - found - hfound
    rw [loadPath_eq_held?]
    split
    case h_1 =>
      simp only [Store.get?, Store.insert, Table.get?_insert]
      split
      case isTrue => simp
      case isFalse => exact hfound
    case h_2 => exact hfound

/-- Loading a folder again, in which no two files say the same id, counts the same files. It changes
nothing exactly if every file that can be loaded says an id. -/
theorem load_load (hsame : disk.Relisted later) (hdistinct : self.HasDistinctIds disk)
    {newIds newIds' : List String} (hids : (self.paths disk).length ≤ newIds.length)
    (hids' : (self.paths disk).length ≤ newIds'.length)
    (hfresh : ∀ newId ∈ newIds', (load self newIds disk).2.store.get? newId = none) :
  let first := load self newIds disk
  let again := load first.2 newIds' later
  again.1 = first.1
    ∧ (first.2.SameEntries again.2 ↔ ∀ file ∈ self.holdings disk, file.2.id ≠ "")
  := by
  have hsettings := sameSettings_load self newIds disk
  have hpaths := paths_perm hsame hsettings
  have hlater : ((load self newIds disk).2.paths later).length ≤ newIds'.length := by
    rwa [hpaths.length_eq]
  intro first again
  constructor
  · rw [count_load hlater, count_load hids, hsettings.folder, hsame.locate?, hsame.isFile,
      tally_relisted hsame hsettings]
  constructor
  · rintro hentries ⟨path, held⟩ hheld hid
    obtain ⟨-, hpath, -⟩ := mem_holdings_iff.mp hheld
    obtain ⟨newId, hnewId, hfile⟩ := exists_mem_filesWith hlater (hpaths.mem_iff.mpr hpath)
    apply get?_load_ne_none ((mem_holdings_relisted hsame hsettings).mpr hheld) hid hfile
    rw [hentries.records, hfresh newId hnewId]
  · intro hnamed
    change first.2.SameEntries (load first.2 newIds' later).2
    rw [load_eq_foldl]
    split
    case isTrue => exact ⟨fun _ => rfl, fun _ => rfl⟩
    case isFalse =>
      split
      case isTrue => exact ⟨fun _ => rfl, fun _ => rfl⟩
      case isFalse hfolder =>
        apply sameEntries_foldl
        rintro ⟨path, newId⟩ hfile held hread
        have hheld : (path, held) ∈ self.holdings disk :=
          (mem_holdings_relisted hsame hsettings).mp (mem_holdings_iff.mpr
            ⟨Bool.not_eq_true _ ▸ hfolder, (List.of_mem_zip hfile).1, hread⟩)
        rw [hsettings.defaultEntity]
        apply has_load hdistinct hnamed hids hheld

/-- A folder with a record, a text, and a file that cannot be loaded. -/
def mixed : Disk where
  folders := [["q"]]
  files :=
    [(["q", "a.json"], "\x7b\"id\":\"1\",\"name\":\"A\",\"text\":\"x\"\x7d"),
      (["q", "b.bql"], "x = 2"), (["q", "c.txt"], "x = 3")]

/-- The folder with its files in another order. -/
def mixedReversed : Disk :=
  { mixed with files := mixed.files.reverse }

/-- Two files are loaded again in another order, and the third one fails again. -/
theorem load_load_mixed :
  let first := load textsLoaded.1 ["3", "4", "5"] mixed
  let again := load first.2 ["6", "7", "8"] mixedReversed
  mixed.Relisted mixedReversed ∧ textsLoaded.1.HasDistinctIds mixed
    ∧ first.1 = .ok { loaded := 2, failed := 1 } ∧ again.1 = .ok { loaded := 2, failed := 1 }
    ∧ first.2.SameEntries again.2
  := by
  have hsame : mixed.Relisted mixedReversed :=
    .of_perm rfl (List.reverse_perm _) (by decide)
  have hdistinct : textsLoaded.1.HasDistinctIds mixed := by
    unfold HasDistinctIds
    decide +kernel
  have hfresh : ∀ newId ∈ ["6", "7", "8"],
      (load textsLoaded.1 ["3", "4", "5"] mixed).2.store.get? newId = none := by decide +kernel
  have hnamed : ∀ file ∈ textsLoaded.1.holdings mixed, file.2.id ≠ "" := by decide +kernel
  have hfirst : (load textsLoaded.1 ["3", "4", "5"] mixed).1
      = .ok { loaded := 2, failed := 1 } := by decide +kernel
  have hids : (textsLoaded.1.paths mixed).length ≤ ["3", "4", "5"].length := by decide +kernel
  have hids' : (textsLoaded.1.paths mixed).length ≤ ["6", "7", "8"].length := by decide +kernel
  obtain ⟨hagain, hentries⟩ := load_load hsame hdistinct hids hids' hfresh
  use hsame, hdistinct, hfirst, hagain.trans hfirst
  exact hentries.mpr hnamed

/-- A file without an id is a new record each time the folder is loaded. -/
theorem load_load_unnamed :
  let first := load unnamed.1 ["1"] unnamed.2
  let again := load first.2 ["2"] unnamed.2
  first.1 = .ok { loaded := 1, failed := 0 } ∧ again.1 = .ok { loaded := 1, failed := 0 }
    ∧ first.2.store.get? "2" = none ∧ again.2.store.get? "1" = some (record "1" "A" "x")
    ∧ again.2.store.get? "2" = some (record "2" "A" "x")
    ∧ again.2.store.size = first.2.store.size + 1
  := by decide +kernel

end FolderStore

end Sift
