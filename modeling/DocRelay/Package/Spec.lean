import DocRelay.Json.Decode
import DocRelay.Text.Blank
import DocRelay.Text.Split
import DocRelay.Wheel.FileName

namespace DocRelay

/-!
# Package specifications

What a manifest says about a package: where it comes from and, perhaps, what its digest is.

* `Locator` — a URL, a path of a wheel, or a requirement `name` or `name==version`;
* `Locator.ofText` — what a text asks for;
* `PackageSpec` — a locator as written, with an expected digest.
-/

/-- Where a package comes from. -/
inductive Locator where
  | url (address : String)
  | path (file : String)
  | requirement (name : String) (version : Option String)
deriving DecidableEq, Repr

/-- The text begins with the other one. -/
def beginsWith (s mark : String) : Bool :=
  mark.toList.isPrefixOf s.toList

/-- What a text asks for: the scheme of a web address, the ending of wheel files, or else a
    requirement.  Surrounding blanks do not count. -/
def Locator.ofText (text : String) : Locator :=
  let s := Text.trim text
  if beginsWith s "http://" || beginsWith s "https://" then .url s
  else if Wheel.wheelEnding.toList.isSuffixOf s.toList then .path s
  else
    match Text.splitFirst ['=', '='] s.toList with
    | some (name, version) =>
      .requirement (Text.trim (String.ofList name)) (some (Text.trim (String.ofList version)))
    | none => .requirement s none

/-- The name of the file that a locator leads to.  Of a URL the query and the fragment do not
    count. -/
def Locator.fileName? : Locator → Option String
  | .url address =>
    let plain := Text.beforeFirst (fun c => c == '?' || c == '#') address.toList
    some (String.ofList (Text.afterLast (· == '/') plain))
  | .path file =>
    some (String.ofList (Text.afterLast (fun c => c == '/' || c == '\\') file.toList))
  | .requirement _ _ => none

/-- A package to be installed. -/
structure PackageSpec where
  /-- The locator as written. -/
  locator : String
  /-- The digest that the fetched wheel must have. -/
  hash : Option String
deriving DecidableEq, Repr

namespace PackageSpec

/-- The short name that progress messages show: the last part of the locator, up to its first
    dash. -/
def displayName (p : PackageSpec) : String :=
  let file := Text.afterLast (· == '/') p.locator.toList
  String.ofList (Text.beforeFirst (· == '-') file)

/-- What the locator asks for. -/
def target (p : PackageSpec) : Locator :=
  Locator.ofText p.locator

/-- The value of a specification; an absent digest is left out. -/
def toJson (p : PackageSpec) : Json :=
  .obj (("locator", Json.str p.locator) ::
    match p.hash with
    | some hash => [("hash", .str hash)]
    | none => [])

/-- The form of a specification. -/
def shape : Json.Shape :=
  ⟨"struct PackageSpec",
    [Json.field "locator" Json.asText, Json.field "hash" (Json.asOption Json.asText)]⟩

/-- A specification out of a value. -/
def decode (dialect : Json.Dialect) : Json → Except Json.Misfit PackageSpec :=
  shape.decode dialect fun slots => do
    let locator ← slots.required "locator" Json.asText
    let hash ← slots.optional "hash" (Json.asOption Json.asText) none
    return ⟨locator, hash⟩

end PackageSpec

end DocRelay
