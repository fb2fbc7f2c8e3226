import DocRelay.Json.Decode

namespace DocRelay

/-!
# Phases of a worker

A worker goes through five phases, one after the other and never back.

* `Phase.next` — the phase that follows;
* `Phase.name`, `Phase.ofName?` — the names that messages use;
* `Phase.ofName?_name` — the names tell the phases apart.
-/

/-- A phase of the life of a worker. -/
inductive Phase where
  /-- Nothing has started yet. -/
  | uninitialized
  /-- The engine is being acquired. -/
  | loadingRuntime
  /-- The declared packages are being installed. -/
  | installingPackages
  /-- The application is being run. -/
  | executing
  /-- The document is rendered and messages are relayed. -/
  | ready
deriving DecidableEq, Repr

namespace Phase

/-- All phases in their order. -/
def all : List Phase :=
  [.uninitialized, .loadingRuntime, .installingPackages, .executing, .ready]

/-- The number of phases that come before. -/
def rank : Phase → Nat
  | .uninitialized => 0
  | .loadingRuntime => 1
  | .installingPackages => 2
  | .executing => 3
  | .ready => 4

instance : Ord Phase := ⟨fun a b => compare a.rank b.rank⟩

/-- The phase that follows. -/
def next : Phase → Option Phase
  | .uninitialized => some .loadingRuntime
  | .loadingRuntime => some .installingPackages
  | .installingPackages => some .executing
  | .executing => some .ready
  | .ready => none

/-- The second phase follows the first. -/
def canAdvanceTo (a b : Phase) : Bool :=
  a.next == some b

/-- The name of a phase in messages. -/
def name : Phase → String
  | .uninitialized => "uninitialized"
  | .loadingRuntime => "loading_runtime"
  | .installingPackages => "installing_packages"
  | .executing => "executing"
  | .ready => "ready"

/-- The names of all phases. -/
def names : List String := all.map name

/-- The phase of a name. -/
def ofName? (s : String) : Option Phase :=
  all.find? (·.name == s)

/-- A phase, by its name. -/
def decode (dialect : Json.Dialect) (j : Json) : Except Json.Misfit Phase := do
  let s ← Json.asName dialect names j
  return (ofName? s).getD .uninitialized

/-- The names tell the phases apart. -/
theorem ofName?_name (p : Phase) : ofName? p.name = some p := by
  cases p <;> decide

/-- The next phase comes one step later. -/
theorem rank_next {p q : Phase} (h : p.next = some q) : q.rank = p.rank + 1 := by
  cases p <;> cases h <;> rfl

end Phase

end DocRelay
