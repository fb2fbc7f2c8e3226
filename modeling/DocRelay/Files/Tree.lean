import DocRelay.Files.Path
import DocRelay.Table

namespace DocRelay

/-!
# Trees of files

All files there are, as a tree of folders.  A path is looked up name by name: the name `.` stays
where it is, `..` goes back, and every other name must be found in a folder.

* `FileTree` — a file or a folder;
* `FileTree.resolve` — the names that lead to a place without detours;
* `FileTree.read`, `FileTree.list` — what is in a file or a folder;
* `FileTree.makeFolders`, `FileTree.write` — the tree after a change.
-/

/-- A file or a folder. -/
inductive FileTree where
  | file (content : Bytes)
  | folder (entries : List (String × FileTree))
deriving Inhabited

namespace FileTree

/-- What is stored under a name. -/
def entry? (t : FileTree) (name : String) : Option FileTree :=
  match t with
  | .file _ => none
  | .folder entries => Table.get? entries name

/-- What is found at the end of a way. -/
def at? (t : FileTree) : List String → Option FileTree
  | [] => some t
  | name :: rest =>
    match t.entry? name with
    | some next => next.at? rest
    | none => none

/-- The tree with something put at the end of a way; the folders on the way are there. -/
def put (t : FileTree) (way : List String) (new : FileTree) : FileTree :=
  match way, t with
  | [], _ => new
  | name :: rest, .folder entries =>
    let next := (Table.get? entries name).getD (.folder [])
    .folder (Table.insert entries name (next.put rest new))
  | _ :: _, .file content => .file content

/-- It is a folder. -/
def isFolder : FileTree → Bool
  | .file _ => false
  | .folder _ => true

/-- Follows the names from the place at the end of `way`: the way to where they lead. -/
def follow (t : FileTree) (way : List String) : List String → Except FileFault (List String)
  | [] => .ok way
  | name :: rest =>
    match t.at? way with
    | none => .error .notFound
    | some (.file _) => .error .notFolder
    | some (.folder entries) =>
      if name = "" || name = "." then t.follow way rest
      else if name = ".." then t.follow way.dropLast rest
      else if Path.nameTooLong name then .error .nameTooLong
      else if (Table.get? entries name).isSome then t.follow (way ++ [name]) rest
      else .error .notFound

/-- The way to what a path names. -/
def resolve (t : FileTree) (path : String) : Except FileFault (List String) :=
  match Path.check path with
  | some fault => .error fault
  | none => t.follow [] (Path.parts path)

/-- What a path names. -/
def find (t : FileTree) (path : String) : Except FileFault FileTree := do
  let way ← t.resolve path
  match t.at? way with
  | some place => return place
  | none => throw .notFound

/-- The content of a file. -/
def read (t : FileTree) (path : String) : Except FileFault Bytes := do
  match ← t.find path with
  | .file content => return content
  | .folder _ => throw .isFolder

/-- The names in a folder. -/
def list (t : FileTree) (path : String) : Except FileFault (List String) := do
  match ← t.find path with
  | .file _ => throw .notFolder
  | .folder entries => return Table.keys entries

/-- The way to the folder in which a new entry is to be made, and the name of the entry. -/
def newPlace (t : FileTree) (path : String) : Except FileFault (List String × String) := do
  match Path.check path with
  | some fault => throw fault
  | none =>
    let names := Path.parts path
    let way ← t.follow [] names.dropLast
    match t.at? way with
    | some (.folder _) =>
      let name := names.getLastD ""
      if Path.nameTooLong name then throw .nameTooLong
      return (way, name)
    | some (.file _) => throw .notFolder
    | none => throw .notFound

/-- The tree with one more folder; what is there already is no new folder. -/
def makeFolder (t : FileTree) (path : String) : Except FileFault FileTree := do
  match t.resolve path with
  | .ok _ => throw .exists
  | .error .notFound =>
    let (way, name) ← t.newPlace path
    return t.put (way ++ [name]) (.folder [])
  | .error fault => throw fault

/-- The tree with the folder of a path and all folders on the way to it; `depth` bounds the
    number of folders that are tried.  A folder that is there already is kept. -/
def makeFoldersUpTo (t : FileTree) (depth : Nat) (names : List String) :
    Except FileFault FileTree :=
  let path := Text.joinText "/" names
  if names.all (·.isEmpty) then .ok t
  else
    match depth, t.makeFolder path with
    | _, .ok after => .ok after
    | depth + 1, .error .notFound => do
      let parents ← t.makeFoldersUpTo depth names.dropLast
      match parents.makeFolder path with
      | .ok after => return after
      | .error fault =>
        match parents.find path with
        | .ok (.folder _) => return parents
        | _ => throw fault
    | _, .error fault =>
      match t.find path with
      | .ok (.folder _) => .ok t
      | _ => .error fault

/-- The tree with the folder of a path and all folders on the way to it. -/
def makeFolders (t : FileTree) (path : String) : Except FileFault FileTree :=
  let names := Path.parts path
  t.makeFoldersUpTo names.length names

/-- The tree with a file, in place of an earlier one. -/
def write (t : FileTree) (path : String) (content : Bytes) : Except FileFault FileTree := do
  match t.find path with
  | .ok (.folder _) => throw .isFolder
  | .ok (.file _) => return t.put (← t.resolve path) (.file content)
  | .error .notFound =>
    let (way, name) ← t.newPlace path
    if name.isEmpty then throw .isFolder
    return t.put (way ++ [name]) (.file content)
  | .error fault => throw fault

end FileTree

end DocRelay
