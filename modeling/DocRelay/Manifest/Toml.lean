import DocRelay.Manifest.Basic
import DocRelay.Toml.Print
import DocRelay.Toml.Read

namespace DocRelay

/-!
# Manifests as configuration texts

A manifest is kept in a configuration file; it is checked when it is read.

* `ConfigFault` — why a file is no manifest;
* `WorkerManifest.ofToml`, `WorkerManifest.toToml` — a manifest and its text.
-/

/-- Why bytes are no manifest. -/
inductive ConfigFault where
  /-- The bytes are no text. -/
  | notUtf8 (fault : Text.Utf8Fault)
  /-- The text is no configuration text. -/
  | malformed
  /-- The values do not fit a manifest. -/
  | misfit (cause : Json.Misfit)
  /-- The manifest breaks a rule. -/
  | broken (fault : ManifestFault)
deriving DecidableEq, Repr

/-- What is said about values that do not fit; a wrong number of items is not explained. -/
def ConfigFault.explain (cause : Json.Misfit) : Option String :=
  match cause with
  | .wrongLength _ _ => none
  | cause => some (cause.message Layout.positional)

/-- What is said about a value that cannot be written. -/
def Toml.WriteFault.explain : Toml.WriteFault → Option String
  | .null => some "unsupported unit type"
  | .tooLarge => none

namespace WorkerManifest

/-- The manifest of a configuration file. -/
def ofToml (bytes : Bytes) : Except ConfigFault WorkerManifest :=
  match Text.ofUtf8 bytes with
  | .error fault => .error (.notUtf8 fault)
  | .ok text =>
    match Toml.read text with
    | none => .error .malformed
    | some j =>
      match decode .config j with
      | .error cause => .error (.misfit cause)
      | .ok manifest =>
        match manifest.check with
        | some fault => .error (.broken fault)
        | none => .ok manifest

/-- The configuration text of a manifest. -/
def toToml (m : WorkerManifest) : Except Toml.WriteFault String :=
  Toml.write m.toJson

end WorkerManifest

end DocRelay
