import DocRelay.Text.Blank
import DocRelay.Wheel.Fault
import DocRelay.Wheel.FileName

namespace DocRelay.Wheel

/-!
# Building wheels

A draft is a distribution with its files; the wheel that is built from it holds the files in
order and then a description and a note on the wheel itself.

* `Draft` — what a wheel is built from;
* `Draft.fileName` — the customary name of the file;
* `Draft.outcome` — the archive, as far as it can be written, and what stopped the writing;
* `Draft.build` — the archive, or why there is none.
-/

/-- What a wheel is built from. -/
structure Draft where
  name : String
  version : String
  /-- The compatibility tag, if it is not the default one. -/
  tag : Option String
  files : List Archive.Entry

namespace Draft

/-- The tag of a wheel that runs everywhere. -/
def defaultTag : String := "py3-none-any"

/-- The tag of the wheel. -/
def tagText (d : Draft) : String := d.tag.getD defaultTag

/-- The name with underscores in place of dashes. -/
def escapedName (d : Draft) : String :=
  String.ofList (d.name.toList.map fun c => if c == '-' then '_' else c)

/-- The customary name of the file. -/
def fileName (d : Draft) : String :=
  FileName.render ⟨d.escapedName, d.version, d.tagText⟩

/-- The directory of the description. -/
def infoFolder (d : Draft) : String :=
  d.escapedName ++ "-" ++ d.version ++ ".dist-info"

/-- The description of the distribution. -/
def description (d : Draft) : String :=
  "Metadata-Version: 2.1\nName: " ++ d.name ++ "\nVersion: " ++ d.version ++ "\n\n"

/-- The note on the wheel itself. -/
def wheelNote (d : Draft) : String :=
  "Wheel-Version: 1.0\nGenerator: docsync-bundle\nRoot-Is-Purelib: true\nTag: " ++ d.tagText
    ++ "\n"

/-- The entries of the wheel. -/
def entries (d : Draft) : List Archive.Entry :=
  d.files ++
    [⟨d.infoFolder ++ "/METADATA", Text.utf8 d.description⟩,
      ⟨d.infoFolder ++ "/WHEEL", Text.utf8 d.wheelNote⟩]

/-- The bytes that are written, and what stopped the writing: nothing is written of a draft
    without a name or a version, and a name that is used again ends the archive before it. -/
def outcome (d : Draft) : Bytes × Option Fault :=
  if Text.isBlankText d.name || Text.isBlankText d.version then ([], some .blankNameOrVersion)
  else
    let (distinct, repeated) := Archive.splitRepeated [] d.entries
    (Archive.write distinct, repeated.map fun name => .archive (.duplicateName name))

/-- The archive, or why there is none. -/
def build (d : Draft) : Except Fault Bytes :=
  match d.outcome with
  | (bytes, none) => .ok bytes
  | (_, some fault) => .error fault

end Draft

end DocRelay.Wheel
