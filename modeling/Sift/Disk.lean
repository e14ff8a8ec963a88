import Sift.Text.Split

/-!
# Disks

A `Disk` is a tree of folders with files in them. A `Path` is a list of names that leads down from
the root, where `..` leads up again; `Disk.locate?` follows a path through folders that exist.
-/

namespace Sift

/-- The names on the way to a file or folder. -/
abbrev Path : Type := List String

namespace Path

/-- The names in the text of a path, without those that lead nowhere. -/
def names (s : String) : Path :=
  ((Text.split '/' s.toList).map String.ofList).filter fun name => name ≠ "" && name ≠ "."

/-- The path that a text leads to from a folder; one that begins with a slash leads from the
root. -/
def join (folder : Path) (s : String) : Path :=
  if s.toList.head? = some '/' then names s else folder ++ names s

/-- The name of the file itself. -/
def fileName (path : Path) : String :=
  path.getLast?.getD ""

/-- The characters before and behind the last dot, if there is one. -/
def splitLastDot (cs : List Char) : Option (List Char × List Char) :=
  match cs.reverse.span (· ≠ '.') with
  | (behind, '.' :: before) => some (before.reverse, behind.reverse)
  | _ => none

/-- The stem and the extension of the name of a file. A dot at the beginning does not count. -/
def stemAndExtension (name : String) : String × Option String :=
  match splitLastDot name.toList with
  | some (before, behind) =>
    if before.isEmpty || name = ".." then (name, none)
    else (String.ofList before, some (String.ofList behind))
  | none => (name, none)

/-- The extension of a file. -/
def extension? (path : Path) : Option String :=
  (stemAndExtension path.fileName).2

/-- The name of a file without its extension. -/
def stem (path : Path) : String :=
  (stemAndExtension path.fileName).1

/-- The place that a name leads to from a folder. -/
def step (folder : Path) (name : String) : Path :=
  if name = ".." then folder.dropLast else folder ++ [name]

/-- The place that a path leads to if all folders on its way exist. -/
def place (path : Path) : Path :=
  path.foldl step []

end Path

/-- Folders, of which the root needs no mention, and files with their contents. -/
structure Disk where
  folders : List Path := []
  files : List (Path × String) := []

instance : Inhabited Disk where
  default := {}

namespace Disk

/-- Whether there is a folder at a place. -/
def isFolder (disk : Disk) (place : Path) : Bool :=
  place.isEmpty || disk.folders.contains place

/-- The contents of the file at a place. -/
def contents? (disk : Disk) (place : Path) : Option String :=
  disk.files.lookup place

/-- Whether there is a file at a place. -/
def isFile (disk : Disk) (place : Path) : Bool :=
  (disk.contents? place).isSome

/-- Whether a file or folder can have a name. -/
def isName (name : String) : Bool :=
  name.utf8ByteSize ≤ 255 && !name.toList.contains (Char.ofNat 0)

/-- The place that a path leads to from a folder, where only the last name need not exist. -/
def locateFrom? (disk : Disk) (folder : Path) : Path → Option Path
  | [] => some folder
  | name :: rest =>
    let next := Path.step folder name
    if !isName name then none
    else if rest.isEmpty || disk.isFolder next then disk.locateFrom? next rest
    else none

/-- The place that a path leads to. -/
def locate? (disk : Disk) (path : Path) : Option Path :=
  disk.locateFrom? [] path

/-- The disk with a file of the given contents at a path, unless no file can be there. -/
def write? (disk : Disk) (path : Path) (contents : String) : Option Disk :=
  match disk.locate? path with
  | some place =>
    if disk.isFolder place then none
    else if disk.isFile place then
      some { disk with
        files := disk.files.map fun file => if file.1 = place then (place, contents) else file }
    else some { disk with files := disk.files ++ [(place, contents)] }
  | none => none

/-- The contents of the file at a path. -/
def read? (disk : Disk) (path : Path) : Option String :=
  disk.locate? path >>= disk.contents?

/-- What becomes of a file that is to be removed. -/
inductive Removal where
  | removed (disk : Disk)
  | missing
  | refused

/-- The disk without the file at a path. A folder is not removed. -/
def remove (disk : Disk) (path : Path) : Removal :=
  match disk.locate? path with
  | some place =>
    if disk.isFolder place then .refused
    else if disk.isFile place then
      .removed { disk with files := disk.files.filter fun file => file.1 ≠ place }
    else .missing
  | none => if path.all isName then .missing else .refused

/-- The disk with all folders on the way that a path leads from a folder, unless a file stands
there. -/
def makeFolders? (disk : Disk) (folder : Path) : Path → Option Disk
  | [] => some disk
  | name :: rest =>
    let next := Path.step folder name
    if disk.isFile next then none
    else if disk.isFolder next then disk.makeFolders? next rest
    else { disk with folders := disk.folders ++ [next] }.makeFolders? next rest

/-- The names of the files directly in a folder. -/
def namesIn (disk : Disk) (folder : Path) : List String :=
  ((disk.files.map (·.1)).filter fun place => place.dropLast = folder && !place.isEmpty).map
    Path.fileName

end Disk

end Sift
