import DocRelay.Json.Read
import DocRelay.Source.Basic

namespace DocRelay

/-!
# Wheels of the network

An address is fetched as it is.  A requirement is looked up in an index, which tells the files of
a release; the first wheel that runs everywhere is fetched.

* `HttpResponse`, `HttpSource` — an answer of the network, and what is needed to ask for it;
* `IndexFile.select` — the wheel to be fetched for a release;
* `HttpSource.download`, `HttpSource.fetch` — the bytes of an address, and of a package.
-/

/-- An answer of the network, once it leads to no other address. -/
structure HttpResponse where
  /-- The address that answered. -/
  url : String
  status : Nat
  reason : String
  /-- The content; none if it is cut short. -/
  body : Option Bytes
deriving DecidableEq, Repr

/-- The network, and an index of packages. -/
structure HttpSource where
  /-- Asks for an address, and for the addresses that the answers lead to. -/
  get : String → Except TransferFault HttpResponse
  /-- The address of the index, without slashes at its end. -/
  indexUrl : String

/-- A file of a release. -/
structure IndexFile where
  filename : String
  url : String
  packageType : String
deriving DecidableEq, Repr

namespace IndexFile

/-- The form of a file of a release. -/
def shape : Json.Shape :=
  ⟨"struct IndexFile",
    [Json.field "filename" Json.asText, Json.field "url" Json.asText,
      Json.field "packagetype" Json.asText]⟩

/-- A file of a release out of a value. -/
def decode : Json → Except Json.Misfit IndexFile :=
  shape.decode .plain fun slots => do
    let filename ← slots.required "filename" Json.asText
    let url ← slots.required "url" Json.asText
    let packageType ← slots.required "packagetype" Json.asText
    return ⟨filename, url, packageType⟩

/-- The files of a release out of a value. -/
def decodeRelease : Json → Except Json.Misfit (List IndexFile) :=
  Json.Shape.decode ⟨"struct IndexRelease", [Json.field "urls" (Json.asList decode)]⟩ .plain
    fun slots => slots.required "urls" (Json.asList decode)

/-- The end of the tags of wheels that run everywhere. -/
def everywhere : String := "none-any"

/-- The file is a wheel that runs everywhere. -/
def runsEverywhere (f : IndexFile) : Bool :=
  f.packageType == "bdist_wheel" &&
    match Wheel.FileName.parse? f.filename with
    | some wheel => everywhere.toList.isSuffixOf wheel.tag.toList
    | none => false

/-- The address of the first wheel that runs everywhere. -/
def select (files : List IndexFile) : Option String :=
  (files.find? runsEverywhere).map IndexFile.url

end IndexFile

namespace HttpSource

/-- The index that is used if no other is given. -/
def defaultIndex : String := "https://pypi.org/pypi"

/-- The address without the slashes at its end. -/
def trimSlashes (address : String) : String :=
  String.ofList (address.toList.reverse.dropWhile (· == '/')).reverse

/-- The source of a network, with an index. -/
def ofIndex (get : String → Except TransferFault HttpResponse) (index : String) : HttpSource :=
  ⟨get, trimSlashes index⟩

/-- The address at which the index tells the files of a release. -/
def releaseUrl (s : HttpSource) (name : String) (version : Option String) : String :=
  match version with
  | some v => s.indexUrl ++ "/" ++ name ++ "/" ++ v ++ "/json"
  | none => s.indexUrl ++ "/" ++ name ++ "/json"

/-- The answer, unless its status is an error. -/
def accept (r : HttpResponse) : Except TransferFault HttpResponse :=
  if 400 ≤ r.status && r.status < 500 then .error (.clientError r.status r.reason r.url)
  else if 500 ≤ r.status && r.status < 600 then .error (.serverError r.status r.reason r.url)
  else .ok r

/-- The content of an address. -/
def download (s : HttpSource) (url : String) : Except TransferFault Bytes := do
  let response ← accept (← s.get url)
  match response.body with
  | some bytes => return bytes
  | none => throw .undecodable

/-- The files of a release in the content of an address. -/
def readRelease (content : Bytes) : Except TransferFault (List IndexFile) :=
  match Text.ofUtf8 content with
  | .error _ => .error .undecodable
  | .ok text =>
    match Json.read text with
    | .error _ => .error .undecodable
    | .ok j =>
      match IndexFile.decodeRelease j with
      | .error _ => .error .undecodable
      | .ok files => .ok files

/-- The address of the wheel that meets a requirement. -/
def resolve (s : HttpSource) (name : String) (version : Option String) :
    Except InstallFault String :=
  match s.download (s.releaseUrl name version) >>= readRelease with
  | .error fault => .error (.transfer fault)
  | .ok files =>
    match IndexFile.select files with
    | some url => .ok url
    | none => .error (.nothingPublished name)

/-- The bytes of what a locator asks for. -/
def fetchTarget (s : HttpSource) (target : Locator) : Except InstallFault Bytes :=
  let content (url : String) : Except InstallFault Bytes :=
    match s.download url with
    | .ok bytes => .ok bytes
    | .error fault => .error (.transfer fault)
  match target with
  | .url address => content address
  | .requirement name version => s.resolve name version >>= content
  | .path _ => .error .pathOverNetwork

/-- The bytes of a package. -/
def fetch (s : HttpSource) (spec : PackageSpec) : Except Fault Bytes :=
  match s.fetchTarget spec.target with
  | .ok bytes => .ok bytes
  | .error fault => .error (.install spec.locator fault)

/-- The source as any other. -/
def toSource (s : HttpSource) : PackageSource := ⟨s.fetch⟩

end HttpSource

end DocRelay
