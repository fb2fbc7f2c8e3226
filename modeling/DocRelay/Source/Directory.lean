import DocRelay.Files.Tree
import DocRelay.Source.Basic
import DocRelay.Wheel.Version

namespace DocRelay

/-!
# Wheels of a folder

A folder of wheels serves packages: an address stands for the file of its last name, a path is
looked up in the folder, and a requirement is met by the best of the wheels whose file names
match it.

* `DirectorySource` — the folder, and all files there are;
* `DirectorySource.best` — the best of several file names;
* `DirectorySource.resolve`, `DirectorySource.fetch` — the path of a package, and its bytes.
-/

/-- A folder of wheels. -/
structure DirectorySource where
  /-- The path of the folder. -/
  root : String
  /-- All files there are. -/
  files : FileTree

namespace DirectorySource

/-- The second of two files is to be preferred: its version is higher or, of equal versions, its
    name comes later. -/
def isBetter (old new : Wheel.FileName × String) : Bool :=
  match Wheel.compareVersions new.1.version old.1.version with
  | .gt => true
  | .eq => old.2 < new.2
  | .lt => false

/-- The better of the best file so far and a file, if the file meets the requirement. -/
def better (name : String) (version : Option String) (best : Option (Wheel.FileName × String))
    (file : String) : Option (Wheel.FileName × String) :=
  match Wheel.FileName.parse? file with
  | none => best
  | some wheel =>
    if wheel.matches name version then
      match best with
      | none => some (wheel, file)
      | some old => if isBetter old (wheel, file) then some (wheel, file) else some old
    else best

/-- The best of the files that meet a requirement. -/
def best (name : String) (version : Option String) (files : List String) : Option String :=
  (files.foldl (better name version) none).map Prod.snd

/-- The path of the file for a locator. -/
def resolve (s : DirectorySource) (target : Locator) : Except InstallFault String :=
  match target with
  | .url _ =>
    match target.fileName? with
    | some file => if file.isEmpty then .error .noFileName else .ok (Path.join s.root file)
    | none => .error .noFileName
  | .path file => .ok (Path.join s.root file)
  | .requirement name version =>
    match s.files.list s.root with
    | .error fault => .error (.unlisted fault)
    | .ok names =>
      match best name version names with
      | some file => .ok (Path.join s.root file)
      | none => .error (.noMatch s.root)

/-- The bytes of a package. -/
def fetch (s : DirectorySource) (spec : PackageSpec) : Except Fault Bytes :=
  match s.resolve spec.target with
  | .error fault => .error (.install spec.locator fault)
  | .ok path =>
    match s.files.read path with
    | .ok bytes => .ok bytes
    | .error fault => .error (.install spec.locator (.unreadable path fault))

/-- The source as any other. -/
def toSource (s : DirectorySource) : PackageSource := ⟨s.fetch⟩

end DirectorySource

end DocRelay
