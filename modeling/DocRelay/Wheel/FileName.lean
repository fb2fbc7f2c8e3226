import DocRelay.Text.Split
import DocRelay.Wheel.Name

namespace DocRelay.Wheel

/-!
# File names of wheels

A wheel file is called `name-version-python-abi-platform.whl`, perhaps with a build number
between the version and the last three parts, which make up the tag.

* `FileName.parse?` — the parts of a file name;
* `FileName.matches` — whether it is a wheel of a distribution, perhaps of a version;
* `FileName.render` — the file name without a build number.
-/

/-- The parts of the file name of a wheel. -/
structure FileName where
  name : String
  version : String
  tag : String
deriving DecidableEq, Repr

/-- The ending of wheel files. -/
def wheelEnding : String := ".whl"

/-- The parts of a file name. -/
def FileName.parse? (fileName : String) : Option FileName := do
  let stem ← wheelEnding.toList.isSuffixOf? fileName.toList
  match Text.split (· == '-') stem with
  | [name, version, python, abi, platform]
  | [name, version, _, python, abi, platform] =>
    return {
      name := String.ofList name
      version := String.ofList version
      tag := String.ofList (Text.join ['-'] [python, abi, platform]) }
  | _ => none

/-- The wheel is one of the distribution `name`, and of the version if one is asked for. -/
def FileName.matches (f : FileName) (name : String) (version : Option String) : Bool :=
  normalizeName f.name == normalizeName name && version.all (· == f.version)

/-- The file name of a wheel. -/
def FileName.render (f : FileName) : String :=
  f.name ++ "-" ++ f.version ++ "-" ++ f.tag ++ wheelEnding

end DocRelay.Wheel
