import DocRelay.Location.Basic

namespace DocRelay.Location

/-!
# Sequences of steps on a location

Steps that read or change a location, with scopes in which it is writable.

* `Step` — a step; a scope holds steps of its own, and may be left because its work was broken
  off;
* `Step.run`, `runSteps` — the answers, and the location afterwards;
* `Step.run_isReadonly` — no step changes the flag for the steps behind it.
-/

/-- A step on a location. -/
inductive Step where
  /-- Looks at the location. -/
  | look (view : Location → Json)
  /-- Changes a field. -/
  | set (key : String) (value : Json)
  /-- Merges an update. -/
  | merge (update : Table Json)
  /-- Steps with the flag lifted. -/
  | scope (steps : List Step)
  /-- Steps with the flag lifted, after which the work is broken off. -/
  | brokenScope (steps : List Step)
deriving Inhabited

/-- The answer of a step. -/
inductive Answer where
  | seen (value : Json)
  | written
  | refused (fault : LocationFault)
  /-- The merged fields, or why nothing was merged; and whether the flag is as before. -/
  | merged (keys : Except LocationFault (List String)) (flagKept : Bool)
  /-- The answers of the steps of a scope. -/
  | scope (answers : List Answer)
  /-- The flag after a scope whose work was broken off. -/
  | broken (flag : Bool)
deriving Inhabited

mutual

/-- The answer of a step, and the location afterwards. -/
def Step.run (l : Location) : Step → Answer × Location
  | .look view => (.seen (view l), l)
  | .set key value =>
    match l.set key value with
    | (.ok (), after) => (.written, after)
    | (.error fault, after) => (.refused fault, after)
  | .merge update =>
    let (keys, after) := l.merge update
    (.merged keys (after.isReadonly == l.isReadonly), after)
  | .scope steps =>
    let (answers, after) := l.edit fun writable => runSteps writable steps
    (.scope answers, after)
  | .brokenScope steps =>
    let (_, after) := l.edit fun writable => runSteps writable steps
    (.broken after.isReadonly, after)

/-- The answers of steps, one after the other, and the location afterwards. -/
def runSteps (l : Location) : List Step → List Answer × Location
  | [] => ([], l)
  | step :: rest =>
    let (answer, after) := step.run l
    let (answers, last) := runSteps after rest
    (answer :: answers, last)

end

/-- No step changes the flag for the steps behind it. -/
theorem Step.run_isReadonly (step : Step) (l : Location) :
    (step.run l).2.isReadonly = l.isReadonly := by
  cases step with
  | look view => simp [Step.run]
  | set key value =>
    have h := set_isReadonly l key value
    rw [Step.run]
    split <;> simp_all
  | merge update => simp [Step.run]
  | scope steps => simp [Step.run]
  | brokenScope steps => simp [Step.run]

end DocRelay.Location
