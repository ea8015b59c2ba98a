import LS8.Files.Content

/-! Folders of files held in memory, and the files that paths lead to from such a folder. Names are
parted by slashes. Of what lies outside the folder nothing is known but that it has directories, so
no name is found there. -/

namespace LS8

/-- The files of a folder, each with the names on the way to it. -/
structure Folder where
  files : List (List String × ByteArray)

/-- A place that a path can lead to: one below the folder, or a directory outside of it. -/
inductive Place where
  | inside (names : List String)
  | outside
deriving DecidableEq, Repr

inductive Entry where
  | file (bytes : ByteArray)
  | directory

def pathNames (path : String) : List String :=
  (path.toList.splitOn '/').map String.ofList

/-- A folder of files with the given paths. Directories on the way to a file exist with it. -/
def Folder.ofFiles (files : List (String × ByteArray)) : Folder :=
  ⟨files.map fun (path, bytes) => ((pathNames path).filter fun name => name ≠ "" ∧ name ≠ ".", bytes)⟩

def Folder.entry? (f : Folder) : Place → Option Entry
  | .outside => some .directory
  | .inside names =>
    match f.files.lookup names with
    | some bytes => some (.file bytes)
    | none =>
      if names = [] ∨ f.files.any (fun (way, _) => names.isPrefixOf way) then some .directory
      else none

/-- The place one name further. An empty name and a dot stay, two dots go up. -/
def Place.follow (name : String) : Place → Except ReadFault Place
  | .outside =>
    if name = "" ∨ name = "." ∨ name = ".." then .ok .outside else .error .notFound
  | .inside names =>
    if name = "" ∨ name = "." then .ok (.inside names)
    else if name = ".." then .ok (if names = [] then .outside else .inside names.dropLast)
    else .ok (.inside (names ++ [name]))

/-- Follows names one after the other. Each but the last has to lead to a directory. -/
def Folder.walk (f : Folder) (place : Place) : List String → Except ReadFault Place
  | [] => .ok place
  | name :: rest =>
    match f.entry? place with
    | none => .error .notFound
    | some (.file _) => .error .notDirectory
    | some .directory => do f.walk (← place.follow name) rest

/-- Reads the file that a path leads to. A path that starts with a slash starts outside. -/
def Folder.read (f : Folder) (path : String) : FileContent := do
  if path = "" then throw .notFound
  let start := if path.startsWith '/' then .outside else .inside []
  match f.entry? (← f.walk start (pathNames path)) with
  | none => throw .notFound
  | some .directory => throw .isDirectory
  | some (.file bytes) => return bytes

end LS8
