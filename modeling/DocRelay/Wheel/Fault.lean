import DocRelay.Archive.Read

namespace DocRelay.Wheel

/-!
# Faults of wheels

Why a wheel cannot be built or read.

* `Fault` — the causes; `Fault.message` gives the wording.
-/

/-- Why a wheel cannot be built or read. -/
inductive Fault where
  /-- A wheel that is to be built has a blank name or version. -/
  | blankNameOrVersion
  /-- There are two descriptions. -/
  | twoDescriptions
  /-- The description does not tell the name and the version. -/
  | noNameOrVersion
  /-- There is no description. -/
  | noDescription
  /-- The archive is at fault. -/
  | archive (fault : Archive.Fault)
deriving DecidableEq, Repr

/-- The wording of a fault. -/
def Fault.message : Fault → String
  | .blankNameOrVersion => "invalid wheel: wheel name and version are required"
  | .twoDescriptions => "invalid wheel: multiple .dist-info/METADATA entries"
  | .noNameOrVersion => "invalid wheel: METADATA must declare Name and Version"
  | .noDescription => "missing required entry: *.dist-info/METADATA"
  | .archive fault => fault.message

end DocRelay.Wheel
