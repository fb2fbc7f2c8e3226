import DocRelay.Fault
import DocRelay.Package.Spec

namespace DocRelay

/-!
# Sources of packages

* `PackageSource` — where the bytes of packages come from;
* `MemorySource` — bytes at hand, by locator.
-/

/-- Where the bytes of packages come from. -/
structure PackageSource where
  fetch : PackageSpec → Except Fault Bytes

/-- Packages at hand, by their locators as written. -/
structure MemorySource where
  packages : Table Bytes

namespace MemorySource

/-- The source of the pairs of a locator and bytes; of two with one locator the later one
    counts. -/
def ofPairs (pairs : List (String × Bytes)) : MemorySource := ⟨Table.ofPairs pairs⟩

/-- The bytes of a package. -/
def fetch (s : MemorySource) (spec : PackageSpec) : Except Fault Bytes :=
  match s.packages.get? spec.locator with
  | some bytes => .ok bytes
  | none => .error (.install spec.locator .unavailable)

/-- The source as any other. -/
def toSource (s : MemorySource) : PackageSource := ⟨s.fetch⟩

end MemorySource

end DocRelay
