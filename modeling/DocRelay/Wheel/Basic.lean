import DocRelay.Digest
import DocRelay.Text.Blank
import DocRelay.Text.Split
import DocRelay.Wheel.Fault
import DocRelay.Wheel.Name

namespace DocRelay

/-!
# Wheels

A wheel is an archive with one description, the entry `METADATA` of a directory that ends in
`.dist-info`, whose headers tell the name and the version of the distribution.

* `Wheel` — what is known of a wheel;
* `Wheel.isDescription` — whether an entry is the description, by its name;
* `Wheel.ofBytes` — the wheel that a byte string is.
-/

/-- What is known of a wheel. -/
structure Wheel where
  name : String
  version : String
  /-- The entries that are no directories. -/
  files : List String
  digest : String
deriving DecidableEq, Repr

namespace Wheel

/-- The name under which a wheel is installed. -/
def normalizedName (w : Wheel) : String :=
  normalizeName w.name

/-- The entry is the description of a wheel. -/
def isDescription (name : String) : Bool :=
  match Text.splitFirst ['/'] name.toList with
  | some (folder, rest) =>
    ".dist-info".toList.isSuffixOf folder && rest == "METADATA".toList
  | none => false

/-- The entry is a directory. -/
def isDirectory (name : String) : Bool :=
  match name.toList.getLast? with
  | some c => c == '/' || c == '\\'
  | none => false

/-- The header of a line: its key and its value, without the blanks around them. -/
def header? (line : List Char) : Option (String × String) :=
  (Text.splitFirst [':'] line).map fun (key, value) =>
    (String.ofList (Text.trimChars key), String.ofList (Text.trimChars value))

/-- The headers of a description: the lines up to the first blank one. -/
def headers (text : String) : List (String × String) :=
  ((Text.lines text.toList).takeWhile fun line => !line.all Text.isBlank).filterMap header?

/-- The value of the last header with a key. -/
def lastHeader? (key : String) (hs : List (String × String)) : Option String :=
  (hs.reverse.find? (·.1 == key)).map Prod.snd

/-- The name and the version that a description tells. -/
def identity (text : String) : Except Fault (String × String) :=
  let hs := headers text
  match lastHeader? "Name" hs, lastHeader? "Version" hs with
  | some name, some version =>
    if name.isEmpty || version.isEmpty then .error .noNameOrVersion else .ok (name, version)
  | _, _ => .error .noNameOrVersion

/-- The description among the entries of an archive; every entry is opened, in order. -/
def findDescription (bytes : Bytes) (found : Option String) :
    List Archive.CentralEntry → Except Fault (Option String)
  | [] => .ok found
  | e :: rest =>
    match e.locate bytes with
    | .error fault => .error (.archive fault)
    | .ok start =>
      if !isDescription e.name then findDescription bytes found rest
      else if found.isSome then .error .twoDescriptions
      else
        match e.text bytes start with
        | .error fault => .error (.archive fault)
        | .ok text => findDescription bytes (some text) rest

/-- The wheel that a byte string is. -/
def ofBytes (bytes : Bytes) : Except Fault Wheel :=
  match Archive.directory bytes with
  | .error fault => .error (.archive fault)
  | .ok entries => do
    match ← findDescription bytes none entries with
    | none => throw .noDescription
    | some text =>
      let (name, version) ← identity text
      return {
        name := name
        version := version
        files := (entries.map (·.name)).filter fun f => !isDirectory f
        digest := Digest.compute bytes }

end Wheel

end DocRelay
