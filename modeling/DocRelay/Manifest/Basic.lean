import DocRelay.Digest
import DocRelay.Manifest.Binding
import DocRelay.Package.Spec

namespace DocRelay

/-!
# Worker manifests

The configuration of a worker, fixed when it is built: its name, the packages to install in
order, and the application to run.

* `WorkerSection`, `ApplicationDescriptor`, `WorkerManifest` — the parts;
* `WorkerManifest.check` — the first rule that a manifest breaks;
* `WorkerManifest.toJson`, `WorkerManifest.decode` — the value of a manifest, and back.
-/

/-- The section of the worker itself. -/
structure WorkerSection where
  /-- The name of the worker. -/
  name : String
  /-- The label of its engine. -/
  runtime : String

/-- The section of the application. -/
structure ApplicationDescriptor where
  /-- The name under which the application is registered. -/
  entry : String
  /-- The packages that must be installed before it runs. -/
  requires : List String
  /-- Whether its document has a location. -/
  location : Bool
  /-- What is handed to the application. -/
  bindings : Table Json

/-- The configuration of a worker. -/
structure WorkerManifest where
  worker : WorkerSection
  packages : List PackageSpec
  application : ApplicationDescriptor

/-- The label of an engine that a manifest does not name. -/
def defaultRuntime : String := "native"

/-- The rule that a manifest breaks. -/
inductive ManifestFault where
  | emptyName
  | emptyEntry
  | emptyLocator
  | duplicateLocator (locator : String)
  | badHash (fault : Digest.Fault)
deriving DecidableEq, Repr

/-- The wording of a broken rule. -/
def ManifestFault.message : ManifestFault → String
  | .emptyName => "manifest error: worker.name cannot be empty"
  | .emptyEntry => "manifest error: application.entry cannot be empty"
  | .emptyLocator => "manifest error: package locator cannot be empty"
  | .duplicateLocator locator => "manifest error: duplicate package locator: " ++ locator
  | .badHash fault => "invalid digest: " ++ fault.message

namespace ApplicationDescriptor

/-- The descriptor of an application that asks for nothing. -/
def ofEntry (entry : String) : ApplicationDescriptor := ⟨entry, [], true, []⟩

/-- The value of a descriptor. -/
def toJson (a : ApplicationDescriptor) : Json :=
  .obj [("entry", .str a.entry), ("requires", .arr (a.requires.map .str)),
    ("location", .bool a.location), ("bindings", .obj a.bindings)]

/-- The form of a descriptor. -/
def shape : Json.Shape :=
  ⟨"struct ApplicationDescriptor",
    [Json.field "entry" Json.asText, Json.field "requires" (Json.asList Json.asText),
      Json.field "location" Json.asBool, Json.field "bindings" Json.asTable]⟩

/-- A descriptor out of a value. -/
def decode (dialect : Json.Dialect) : Json → Except Json.Misfit ApplicationDescriptor :=
  shape.decode dialect fun slots => do
    let entry ← slots.required "entry" Json.asText
    let requires ← slots.optional "requires" (Json.asList Json.asText) []
    let location ← slots.optional "location" Json.asBool true
    let bindings ← slots.optional "bindings" Json.asTable []
    return ⟨entry, requires, location, bindings⟩

/-- The binding under a key, decoded; `none` if there is no such binding. -/
def binding (a : ApplicationDescriptor) (key : String) (kind : BindingKind) :
    Except Json.Misfit (Option Json) :=
  match a.bindings.get? key with
  | some value => (kind.decode value).map some
  | none => .ok none

end ApplicationDescriptor

namespace WorkerSection

/-- The value of a section. -/
def toJson (w : WorkerSection) : Json :=
  .obj [("name", .str w.name), ("runtime", .str w.runtime)]

/-- The form of a section. -/
def shape : Json.Shape :=
  ⟨"struct WorkerSection", [Json.field "name" Json.asText, Json.field "runtime" Json.asText]⟩

/-- A section out of a value. -/
def decode (dialect : Json.Dialect) : Json → Except Json.Misfit WorkerSection :=
  shape.decode dialect fun slots => do
    let name ← slots.required "name" Json.asText
    let runtime ← slots.optional "runtime" Json.asText defaultRuntime
    return ⟨name, runtime⟩

end WorkerSection

namespace WorkerManifest

/-- A manifest with the default label. -/
def ofParts (name : String) (application : ApplicationDescriptor)
    (packages : List PackageSpec) : WorkerManifest :=
  ⟨⟨name, defaultRuntime⟩, packages, application⟩

/-- The value of a manifest. -/
def toJson (m : WorkerManifest) : Json :=
  .obj [("worker", m.worker.toJson), ("packages", .arr (m.packages.map PackageSpec.toJson)),
    ("application", m.application.toJson)]

/-- The form of a manifest. -/
def shape (dialect : Json.Dialect) : Json.Shape :=
  ⟨"struct WorkerManifest",
    [Json.field "worker" (WorkerSection.decode dialect),
      Json.field "packages" (Json.asList (PackageSpec.decode dialect)),
      Json.field "application" (ApplicationDescriptor.decode dialect)]⟩

/-- A manifest out of a value. -/
def decode (dialect : Json.Dialect) : Json → Except Json.Misfit WorkerManifest :=
  (shape dialect).decode dialect fun slots => do
    let worker ← slots.required "worker" (WorkerSection.decode dialect)
    let packages ← slots.optional "packages" (Json.asList (PackageSpec.decode dialect)) []
    let application ← slots.required "application" (ApplicationDescriptor.decode dialect)
    return ⟨worker, packages, application⟩

/-- The first rule that a package breaks, given the locators before it. -/
def checkPackage (seen : List String) (p : PackageSpec) : Option ManifestFault :=
  if Text.isBlankText p.locator then some .emptyLocator
  else if seen.contains p.locator then some (.duplicateLocator p.locator)
  else
    match p.hash.map Digest.parse with
    | some (.error fault) => some (.badHash fault)
    | _ => none

/-- The first rule that a list of packages breaks, given the locators before it. -/
def checkPackages (seen : List String) : List PackageSpec → Option ManifestFault
  | [] => none
  | p :: rest => (checkPackage seen p).or (checkPackages (p.locator :: seen) rest)

/-- The first rule that a manifest breaks. -/
def check (m : WorkerManifest) : Option ManifestFault :=
  if Text.isBlankText m.worker.name then some .emptyName
  else if Text.isBlankText m.application.entry then some .emptyEntry
  else checkPackages [] m.packages

end WorkerManifest

end DocRelay
