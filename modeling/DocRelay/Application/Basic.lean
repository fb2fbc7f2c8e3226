import DocRelay.Document.Dispatch
import DocRelay.Environment
import DocRelay.Manifest.Basic

namespace DocRelay

/-!
# Applications

An application fills an empty document and sets its watchers.

* `ApplicationContext` — what an application is told;
* `Application` — a script for each context;
* `Registry` — the applications by their entry points.
-/

/-- What an application is told when it is run. -/
structure ApplicationContext where
  /-- What the manifest says about the application. -/
  descriptor : ApplicationDescriptor
  /-- The installed packages. -/
  environment : Environment

namespace ApplicationContext

/-- A binding of the manifest, decoded; `none` if there is no such binding. -/
def binding (ctx : ApplicationContext) (key : String) (kind : BindingKind) :
    Except Fault (Option Json) :=
  match ctx.descriptor.binding key kind with
  | .ok value => .ok value
  | .error cause => .error (.binding cause)

end ApplicationContext

/-- What fills an empty document. -/
structure Application where
  build : ApplicationContext → Script

/-- The applications by their entry points. -/
structure Registry where
  applications : Table Application

namespace Registry

/-- No application. -/
def empty : Registry := ⟨[]⟩

/-- The registry with an application under an entry point, in place of an earlier one. -/
def register (r : Registry) (entry : String) (app : Application) : Registry :=
  ⟨r.applications.insert entry app⟩

/-- The registry of the pairs of an entry point and an application. -/
def ofPairs (pairs : List (String × Application)) : Registry := ⟨Table.ofPairs pairs⟩

/-- The application under an entry point. -/
def get? (r : Registry) (entry : String) : Option Application :=
  r.applications.get? entry

/-- The entry points in order. -/
def entries (r : Registry) : List String := r.applications.keys

/-- There is no application. -/
def isEmpty (r : Registry) : Bool := r.applications.isEmpty

/-- The entry points as a text. -/
def summary (r : Registry) : String :=
  "[" ++ Text.joinText ", " (r.entries.map Text.quoted) ++ "]"

end Registry

end DocRelay
