import DocRelay.Fault
import DocRelay.Package.Spec
import DocRelay.Wheel.Basic

namespace DocRelay

/-!
# Environments

The packages that are installed, each under its normalised name.  A package can be installed
again only with the same version and the same content.

* `InstalledPackage`, `Environment` — what is installed;
* `Environment.install` — installs a fetched wheel;
* `Environment.get?` — a package by any spelling of its name.
-/

/-- A package that is installed. -/
structure InstalledPackage where
  name : String
  version : String
  digest : String
  /-- The number of its files. -/
  files : Nat
  /-- The locator that it was installed from. -/
  locator : String
deriving DecidableEq, Repr

/-- The value of an installed package. -/
def InstalledPackage.toJson (p : InstalledPackage) : Json :=
  .obj [("digest", .str p.digest), ("files", .int p.files), ("locator", .str p.locator),
    ("name", .str p.name), ("version", .str p.version)]

/-- The installed packages by their normalised names. -/
structure Environment where
  packages : Table InstalledPackage
deriving DecidableEq, Repr

/-- What an installation did. -/
inductive Installation where
  | installed
  /-- The same package was installed before. -/
  | alreadyPresent
deriving DecidableEq, Repr

/-- The name of the result in answers. -/
def Installation.name : Installation → String
  | .installed => "installed"
  | .alreadyPresent => "already_present"

namespace Environment

/-- Nothing is installed. -/
def empty : Environment := ⟨[]⟩

/-- The package of a name, however it is spelt. -/
def get? (e : Environment) (name : String) : Option InstalledPackage :=
  e.packages.get? (Wheel.normalizeName name)

/-- There is a package of the name. -/
def isInstalled (e : Environment) (name : String) : Bool :=
  (e.get? name).isSome

/-- What is wrong with the digest of fetched bytes. -/
def digestFault? (spec : PackageSpec) (bytes : Bytes) : Option InstallFault :=
  match spec.hash with
  | none => none
  | some expected =>
    match Digest.verify bytes expected with
    | .verified => none
    | .invalid fault => some (.badDigest fault)
    | .mismatch expected actual => some (.wrongDigest expected actual)

/-- Installs a wheel. -/
def add (e : Environment) (locator : String) (wheel : Wheel) :
    Except InstallFault (Installation × Environment) :=
  match e.packages.get? wheel.normalizedName with
  | some old =>
    -- One version of a package at a time; the same one must have the same content.
    if old.version ≠ wheel.version then .error (.conflict old.name old.version)
    else if old.digest = wheel.digest then .ok (.alreadyPresent, e)
    else .error (.changed old.name old.version)
  | none =>
    let entry : InstalledPackage :=
      ⟨wheel.name, wheel.version, wheel.digest, wheel.files.length, locator⟩
    .ok (.installed, ⟨e.packages.insert wheel.normalizedName entry⟩)

/-- Installs what was fetched for a specification, if it is a wheel and has the expected
    digest. -/
def install (e : Environment) (spec : PackageSpec) (bytes : Bytes) :
    Except Fault (Installation × Environment) :=
  let outcome : Except InstallFault (Installation × Environment) :=
    match digestFault? spec bytes with
    | some fault => .error fault
    | none =>
      match Wheel.ofBytes bytes with
      | .error fault => .error (.badWheel fault)
      | .ok wheel => e.add spec.locator wheel
  match outcome with
  | .ok done => .ok done
  | .error fault => .error (.install spec.locator fault)

end Environment

end DocRelay
