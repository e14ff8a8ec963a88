import Mathlib.Data.List.Nodup
import Sift.Disk

/-!
# Files on a disk

A disk is a map from places to contents: `write?_inv` and `removeAll_inv` say what is on it after
a file has been written or some have been removed, and `makeFolders?_inv` that making folders
changes no file. A path that leads to a file goes on leading there (`locateFrom?_mono`).
-/

namespace Sift

/-! ### Paths -/

namespace Path

theorem step_of_ne {folder : Path} {name : String} (h : name ≠ "..") :
  step folder name = folder ++ [name]
  := if_neg h

@[simp]
theorem place_append_singleton (path : Path) (name : String) :
  place (path ++ [name]) = step path.place name
  := by
  simp [place]

end Path

namespace Disk

variable {disk after : Disk}

/-! ### Following a path -/

theorem locateFrom?_eq_foldl {folder path found : Path}
    (h : disk.locateFrom? folder path = some found) :
  found = path.foldl Path.step folder
  := by
  induction path generalizing folder with
  | nil =>
    cases h
    rfl
  | cons name rest ih =>
    rw [locateFrom?] at h
    split at h
    case isTrue => cases h
    case isFalse =>
      split at h
      case isTrue => exact ih h
      case isFalse => cases h

/-- A path leads to one place only. -/
theorem locate?_eq_place {path found : Path} (h : disk.locate? path = some found) :
  found = path.place
  := locateFrom?_eq_foldl h

/-- Where a path leads, all of it but its last name leads to a place as well. -/
theorem exists_locateFrom?_of_append {folder path found : Path} {name : String}
    (h : disk.locateFrom? folder (path ++ [name]) = some found) :
  ∃ place, disk.locateFrom? folder path = some place
  := by
  induction path generalizing folder with
  | nil => exact ⟨folder, rfl⟩
  | cons first rest ih =>
    rw [List.cons_append, locateFrom?] at h
    rw [locateFrom?]
    split at h
    case isTrue => cases h
    case isFalse hname =>
      rw [if_neg hname]
      split at h
      case isTrue hnext =>
        rw [if_pos]
        · apply ih h
        · simp only [List.append_eq_nil_iff, List.cons_ne_nil, and_false, List.isEmpty_iff,
            Bool.or_eq_true, false_or] at hnext
          simp [hnext]
      case isFalse => cases h

/-- A path goes on leading to its place while there are the folders that were there. -/
theorem locateFrom?_mono (hfolders : ∀ place, disk.isFolder place = true → after.isFolder place = true)
    {folder path found : Path} (h : disk.locateFrom? folder path = some found) :
  after.locateFrom? folder path = some found
  := by
  induction path generalizing folder with
  | nil => exact h
  | cons name rest ih =>
    rw [locateFrom?] at h ⊢
    split at h
    case isTrue => cases h
    case isFalse hname =>
      rw [if_neg hname]
      split at h
      case isTrue hnext =>
        rw [if_pos]
        · exact ih h
        · rw [Bool.or_eq_true] at hnext ⊢
          exact hnext.imp id (hfolders _)
      case isFalse => cases h

/-- Where a path leads is settled by the folders. -/
theorem locate?_congr (hfolders : after.folders = disk.folders) (path : Path) :
  after.locate? path = disk.locate? path
  := by
  have hsame : ∀ place, after.isFolder place = disk.isFolder place := by
    intro place
    rw [isFolder, isFolder, hfolders]
  apply Option.ext
  intro found
  constructor
  · apply locateFrom?_mono
    intro place h
    rw [← hsame]
    exact h
  · apply locateFrom?_mono
    intro place h
    rw [hsame]
    exact h

/-! ### Contents -/

theorem isFile_iff_mem {place : Path} :
  disk.isFile place = true ↔ place ∈ disk.files.map (·.1)
  := by
  rw [isFile, contents?]
  induction disk.files with
  | nil => simp
  | cons file rest ih =>
    obtain ⟨first, contents⟩ := file
    by_cases h : place = first
    · subst h
      simp
    · rw [List.lookup_cons, beq_false_of_ne h]
      simp only [List.map_cons, List.mem_cons, h, false_or]
      exact ih

section Lookup

variable {files : List (Path × String)} {place : Path} {contents : String}

theorem lookup_map_ne {other : Path} (h : other ≠ place) :
  (files.map fun file => if file.1 = place then (place, contents) else file).lookup other
    = files.lookup other
  := by
  induction files with
  | nil => rfl
  | cons file rest ih =>
    obtain ⟨first, old⟩ := file
    rw [List.map_cons]
    by_cases hfirst : first = place
    · subst hfirst
      rw [if_pos rfl, List.lookup_cons, List.lookup_cons, beq_false_of_ne h]
      exact ih
    · rw [if_neg hfirst, List.lookup_cons, List.lookup_cons, ih]

theorem lookup_map_eq (h : (files.lookup place).isSome = true) :
  (files.map fun file => if file.1 = place then (place, contents) else file).lookup place
    = some contents
  := by
  induction files with
  | nil => cases h
  | cons file rest ih =>
    obtain ⟨first, old⟩ := file
    rw [List.map_cons]
    by_cases hfirst : first = place
    · subst hfirst
      simp
    · rw [List.lookup_cons, beq_false_of_ne (Ne.symm hfirst)] at h
      rw [if_neg hfirst, List.lookup_cons, beq_false_of_ne (Ne.symm hfirst)]
      apply ih h

theorem lookup_append_singleton (h : files.lookup place = none) (other : Path) :
  (files ++ [(place, contents)]).lookup other
    = if other = place then some contents else files.lookup other
  := by
  rw [List.lookup_append]
  by_cases hother : other = place
  · subst hother
    simp [h]
  · simp [List.lookup_cons, beq_false_of_ne hother, hother]

theorem lookup_filter_ne (other : Path) :
  (files.filter fun file => file.1 ≠ place).lookup other
    = if other = place then none else files.lookup other
  := by
  induction files with
  | nil => simp
  | cons file rest ih =>
    obtain ⟨first, contents⟩ := file
    rw [List.filter_cons, List.lookup_cons]
    by_cases hfirst : first = place
    · subst hfirst
      rw [if_neg (by simp), ih]
      by_cases hother : other = first
      · rw [if_pos hother, if_pos hother]
      · rw [if_neg hother, if_neg hother, beq_false_of_ne hother]
    · rw [if_pos (by simpa using hfirst), List.lookup_cons, ih]
      by_cases hother : other = first
      · subst hother
        simp [hfirst]
      · rw [beq_false_of_ne hother]

end Lookup

theorem read?_eq_some_iff {path : Path} {contents : String} :
  disk.read? path = some contents
    ↔ disk.locate? path = some path.place ∧ disk.contents? path.place = some contents
  := by
  rw [read?, Option.bind_eq_bind, Option.bind_eq_some_iff]
  constructor
  · rintro ⟨place, hplace, hcontents⟩
    obtain rfl := locate?_eq_place hplace
    exact ⟨hplace, hcontents⟩
  · rintro ⟨hplace, hcontents⟩
    exact ⟨_, hplace, hcontents⟩

/-- What is on a disk after a file has been written. -/
theorem write?_inv {path : Path} {contents : String} (h : disk.write? path contents = some after) :
  disk.locate? path = some path.place ∧ after.folders = disk.folders
    ∧ (∀ other, after.contents? other
      = if other = path.place then some contents else disk.contents? other)
    ∧ after.files.map (·.1) = if disk.isFile path.place then disk.files.map (·.1)
      else disk.files.map (·.1) ++ [path.place]
  := by
  rw [write?] at h
  cases hlocate : disk.locate? path with
  | none =>
    rw [hlocate] at h
    cases h
  | some found =>
    obtain rfl := locate?_eq_place hlocate
    rw [hlocate] at h
    refine ⟨rfl, ?_⟩
    simp only at h
    split at h
    case isTrue => cases h
    case isFalse =>
      split at h
      case isTrue hfile =>
        cases h
        refine ⟨rfl, ?_, ?_⟩
        · intro other
          split
          case isTrue hother =>
            subst hother
            apply lookup_map_eq hfile
          case isFalse hother => apply lookup_map_ne hother
        · rw [if_pos hfile, List.map_map]
          apply List.map_congr_left
          intro file hmem
          simp only [Function.comp_apply]
          split
          case isTrue heq => exact heq.symm
          case isFalse => rfl
      case isFalse hfile =>
        cases h
        have hnone : disk.files.lookup path.place = none :=
          Option.not_isSome_iff_eq_none.mp hfile
        refine ⟨rfl, ?_, ?_⟩
        · intro other
          apply lookup_append_singleton hnone
        · rw [if_neg hfile, List.map_append]
          rfl

/-- What is on a disk after one file has been removed, if there was any. -/
theorem remove_inv {path : Path} (h : disk.remove path = .removed after
    ∨ disk.remove path = .missing ∧ after = disk) :
  after.folders = disk.folders
    ∧ (∀ other, after.contents? other
      = if disk.locate? path = some other then none else disk.contents? other)
    ∧ (after.files.map (·.1)).Sublist (disk.files.map (·.1))
  := by
  rw [remove] at h
  cases hlocate : disk.locate? path with
  | none =>
    rw [hlocate] at h
    obtain h | ⟨-, rfl⟩ := h
    · simp only at h
      split at h <;> cases h
    · simp
  | some place =>
    rw [hlocate] at h
    simp only at h
    split at h
    case isTrue => simp at h
    case isFalse =>
      split at h
      case isTrue hfile =>
        obtain h | ⟨h, -⟩ := h
        · cases h
          refine ⟨rfl, ?_, List.filter_sublist.map _⟩
          intro other
          simp only [Option.some.injEq, eq_comm (a := place)]
          apply lookup_filter_ne
        · cases h
      case isFalse hfile =>
        obtain h | ⟨-, rfl⟩ := h
        · cases h
        · refine ⟨rfl, ?_, List.Sublist.refl _⟩
          intro other
          split
          case isTrue heq =>
            cases heq
            simpa [isFile] using hfile
          case isFalse => rfl

/-- What is on a disk after folders have been made. -/
theorem makeFolders?_inv {folder path : Path} (h : disk.makeFolders? folder path = some after) :
  after.files = disk.files ∧ ∀ place, disk.isFolder place = true → after.isFolder place = true
  := by
  induction path generalizing disk folder with
  | nil =>
    cases h
    exact ⟨rfl, fun _ => id⟩
  | cons name rest ih =>
    rw [makeFolders?] at h
    split at h
    case isTrue => cases h
    case isFalse =>
      split at h
      case isTrue => exact ih h
      case isFalse =>
        obtain ⟨hfiles, hfolders⟩ := ih h
        use hfiles
        intro place hplace
        apply hfolders
        simp only [isFolder, Bool.or_eq_true, List.contains_iff_mem, List.mem_append] at hplace ⊢
        tauto

/-! ### Losing files -/

/-- Whether a disk holds no other files than before, with the contents they had. -/
structure Shrinks (disk after : Disk) : Prop where
  contents : ∀ place, after.contents? place = disk.contents? place ∨ after.contents? place = none
  places : (after.files.map (·.1)).Sublist (disk.files.map (·.1))

theorem shrinks_of_files_eq (h : after.files = disk.files) :
  disk.Shrinks after
  := by
  constructor
  · intro place
    left
    rw [contents?, contents?, h]
  · rw [h]

theorem Shrinks.trans {between : Disk} (h : disk.Shrinks between) (h' : between.Shrinks after) :
  disk.Shrinks after
  := by
  constructor
  · intro place
    obtain hsame | hnone := h'.contents place
    · rw [hsame]
      exact h.contents place
    · exact .inr hnone
  · exact h'.places.trans h.places

theorem Shrinks.contents?_eq_some (h : disk.Shrinks after) {place : Path} {contents : String}
    (hcontents : after.contents? place = some contents) :
  disk.contents? place = some contents
  := by
  obtain hsame | hnone := h.contents place
  · rw [← hsame, hcontents]
  · rw [hnone] at hcontents
    cases hcontents

theorem shrinks_of_remove {path : Path} (h : disk.remove path = .removed after) :
  disk.Shrinks after
  := by
  obtain ⟨-, hcontents, hsublist⟩ := remove_inv (.inl h)
  constructor
  · intro place
    rw [hcontents]
    split
    case isTrue => exact .inr rfl
    case isFalse => exact .inl rfl
  · exact hsublist

/-! ### Reading -/

/-- A file can still be read after folders have been made. -/
theorem read?_makeFolders? {folder path : Path} (h : disk.makeFolders? folder path = some after)
    {other : Path} {contents : String} (hread : disk.read? other = some contents) :
  after.read? other = some contents
  := by
  obtain ⟨hfiles, hfolders⟩ := makeFolders?_inv h
  obtain ⟨hplace, hcontents⟩ := read?_eq_some_iff.mp hread
  rw [read?_eq_some_iff]
  constructor
  · apply locateFrom?_mono hfolders hplace
  · rw [contents?, hfiles]
    exact hcontents

/-- A file that has been written can be read. -/
theorem read?_write?_self {path : Path} {contents : String}
    (h : disk.write? path contents = some after) :
  after.read? path = some contents
  := by
  obtain ⟨hplace, hfolders, hcontents, -⟩ := write?_inv h
  rw [read?_eq_some_iff, locate?_congr hfolders, hcontents, if_pos rfl]
  exact ⟨hplace, rfl⟩

/-- Other files than the one that has been written can still be read. -/
theorem read?_write?_of_ne {path : Path} {contents : String}
    (h : disk.write? path contents = some after) {other : Path} (hne : other.place ≠ path.place)
    {old : String} (hread : disk.read? other = some old) :
  after.read? other = some old
  := by
  obtain ⟨-, hfolders, hcontents, -⟩ := write?_inv h
  rw [read?_eq_some_iff] at hread ⊢
  rw [locate?_congr hfolders, hcontents, if_neg hne]
  exact hread

/-! ### Names in a folder -/

theorem eq_append_fileName {folder place : Path} (hdir : place.dropLast = folder) (hne : place ≠ []) :
  place = folder ++ [place.fileName]
  := by
  rw [Path.fileName, List.getLast?_eq_some_getLast hne, Option.getD_some, ← hdir,
    List.dropLast_append_getLast]

/-- A folder holds the names of the files in it. -/
theorem mem_namesIn_iff {folder : Path} {name : String} :
  name ∈ disk.namesIn folder ↔ disk.isFile (folder ++ [name]) = true
  := by
  rw [isFile_iff_mem, namesIn, List.mem_map]
  simp only [List.mem_filter, Bool.and_eq_true, decide_eq_true_eq, Bool.not_eq_true',
    List.isEmpty_eq_false_iff]
  constructor
  · rintro ⟨place, ⟨hmem, hdir, hne⟩, rfl⟩
    rw [← eq_append_fileName hdir hne]
    exact hmem
  · intro hmem
    use folder ++ [name]
    simp [hmem, Path.fileName]

theorem nodup_namesIn_of_sublist (h : (after.files.map (·.1)).Sublist (disk.files.map (·.1)))
    {folder : Path} (hnodup : (disk.namesIn folder).Nodup) :
  (after.namesIn folder).Nodup
  := by
  apply List.Nodup.sublist _ hnodup
  apply List.Sublist.map
  apply List.Sublist.filter
  exact h

theorem nodup_namesIn_write? {path : Path} {contents : String}
    (h : disk.write? path contents = some after) {folder : Path}
    (hnodup : (disk.namesIn folder).Nodup) :
  (after.namesIn folder).Nodup
  := by
  obtain ⟨-, -, -, hfiles⟩ := write?_inv h
  split at hfiles
  case isTrue =>
    apply nodup_namesIn_of_sublist _ hnodup
    rw [hfiles]
  case isFalse hfile =>
    have hnames : after.namesIn folder = disk.namesIn folder
        ++ ([path.place].filter fun place => place.dropLast = folder && !place.isEmpty).map
          Path.fileName := by
      rw [namesIn, namesIn, hfiles, List.filter_append, List.map_append]
    rw [hnames, List.filter_cons, List.filter_nil]
    split
    case isTrue hdir =>
      simp only [Bool.and_eq_true, decide_eq_true_eq, Bool.not_eq_true',
        List.isEmpty_eq_false_iff] at hdir
      have hnew : path.place.fileName ∉ disk.namesIn folder := by
        rw [mem_namesIn_iff, ← eq_append_fileName hdir.1 hdir.2]
        exact hfile
      apply List.Nodup.append hnodup (List.nodup_singleton _)
      simpa using hnew
    case isFalse => simpa using hnodup

/-! ### Files in another order -/

/-- Whether two disks are the same but for the order in which files are listed. -/
structure Relisted (disk after : Disk) : Prop where
  folders : after.folders = disk.folders
  contents : ∀ place, after.contents? place = disk.contents? place
  names : ∀ folder, (after.namesIn folder).Perm (disk.namesIn folder)

/-- A disk on which no file is listed twice holds the contents that it lists. -/
theorem contents?_eq_some_iff_mem (h : (disk.files.map (·.1)).Nodup) {place : Path}
    {contents : String} :
  disk.contents? place = some contents ↔ (place, contents) ∈ disk.files
  := by
  rw [contents?, List.lookup_eq_some_iff]
  constructor
  · rintro ⟨before, after, hfiles, -⟩
    simp [hfiles]
  · intro hmem
    obtain ⟨before, after, hfiles⟩ := List.append_of_mem hmem
    use before, after, hfiles
    intro file hfile
    rw [hfiles, List.map_append, List.map_cons] at h
    rw [bne_iff_ne]
    rintro rfl
    exact (List.nodup_append.mp h).2.2 _ (List.mem_map_of_mem hfile) _ (by simp) rfl

namespace Relisted

theorem isFile (h : disk.Relisted after) (place : Path) :
  after.isFile place = disk.isFile place
  := by
  rw [Disk.isFile, Disk.isFile, h.contents]

theorem locate? (h : disk.Relisted after) (path : Path) :
  after.locate? path = disk.locate? path
  := locate?_congr h.folders path

theorem read? (h : disk.Relisted after) (path : Path) :
  after.read? path = disk.read? path
  := by
  apply Option.ext
  intro contents
  rw [read?_eq_some_iff, read?_eq_some_iff, h.locate?, h.contents]

/-- Files may be listed in any order, as long as none is listed twice. -/
theorem of_perm (hfolders : after.folders = disk.folders) (hfiles : after.files.Perm disk.files)
    (hnodup : (disk.files.map (·.1)).Nodup) :
  disk.Relisted after
  := by
  constructor
  · exact hfolders
  · intro place
    have hnodup' : (after.files.map (·.1)).Nodup := (hfiles.map _).nodup_iff.mpr hnodup
    apply Option.ext
    intro contents
    rw [contents?_eq_some_iff_mem hnodup', contents?_eq_some_iff_mem hnodup, hfiles.mem_iff]
  · intro folder
    apply List.Perm.map
    apply List.Perm.filter
    apply hfiles.map

end Relisted

end Disk

end Sift
