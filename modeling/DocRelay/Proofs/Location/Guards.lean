import DocRelay.Location.Steps

namespace DocRelay.Location

/-!
# Guards of locations

A scope lifts the flag of a location through a guard.  The guard remembers the flag that it found
and puts it back when it goes, at the end of the scope or when the work in the scope is broken off.
Here the work on a location is taken apart into moves, so that the guards that are open can be seen
at every moment, also in the middle of a scope and in the middle of a merge, which opens a guard of
its own.

* `Task`, `Work` — what is still to be done with a location, and the guards that are open on it;
* `Work.next`, `Work.after`, `Work.LeadsTo` — one move, and several;
* `Work.leadsTo_run`, `Work.leadsTo_runSteps` — the moves of a step do what the step does, and end;
* `Nested`, `Work.nested_next` — every guard has found the flag that fits the guards around it, and
  no move changes that;
* `guarded_throughout` — the flag is on exactly at the moments at which no guard is open, and every
  step leaves it as it was.
-/

/-! ### Work -/

/-- What is still to be done with a location. -/
inductive Task where
  | step (step : Step)
  /-- Fields that are still to be changed by a merge, and the location as it is to be again if one
      of them cannot be changed. -/
  | fields (snapshot : Location) (members : List (String × Json))
  /-- A guard goes: the flag is again as the guard found it. -/
  | release (found : Bool)
  /-- The work is broken off. -/
  | panic
  /-- Work that was broken off goes on here. -/
  | caught

/-- The end of a guard that is open. -/
def Task.isRelease : Task → Bool
  | .release _ => true
  | _ => false

/-- A location, and what is still to be done with it. -/
structure Work where
  location : Location
  tasks : List Task

namespace Work

/-- The work that steps make. -/
def ofSteps (l : Location) (steps : List Step) : Work :=
  ⟨l, steps.map .step⟩

/-- The number of guards that are open. -/
def openGuards (w : Work) : Nat :=
  w.tasks.countP Task.isRelease

/-- The first of the tasks, or its first part, is done. -/
def next : Work → Work
  | ⟨l, []⟩ => ⟨l, []⟩
  | ⟨l, .step (.look _) :: rest⟩ => ⟨l, rest⟩
  | ⟨l, .step (.set key value) :: rest⟩ => ⟨(l.set key value).2, rest⟩
  | ⟨l, .step (.merge update) :: rest⟩ =>
    let writable := { l with isReadonly := false }
    ⟨writable, .fields writable (recognised update) :: .release l.isReadonly :: rest⟩
  | ⟨l, .step (.scope steps) :: rest⟩ =>
    ⟨{ l with isReadonly := false }, steps.map .step ++ .release l.isReadonly :: rest⟩
  | ⟨l, .step (.brokenScope steps) :: rest⟩ =>
    ⟨{ l with isReadonly := false },
      steps.map .step ++ .panic :: .release l.isReadonly :: .caught :: rest⟩
  | ⟨l, .fields _ [] :: rest⟩ => ⟨l, rest⟩
  | ⟨l, .fields snapshot ((key, value) :: members) :: rest⟩ =>
    match l.set key value with
    | (.ok (), after) => ⟨after, .fields snapshot members :: rest⟩
    | (.error _, after) => ⟨{ snapshot with isReadonly := after.isReadonly }, rest⟩
  | ⟨l, .release found :: rest⟩ => ⟨{ l with isReadonly := found }, rest⟩
  -- Nothing is done any more up to the place where the work goes on, but the guards on the way go.
  | ⟨l, [.panic]⟩ => ⟨l, []⟩
  | ⟨l, .panic :: .caught :: rest⟩ => ⟨l, rest⟩
  | ⟨l, .panic :: .release found :: rest⟩ => ⟨{ l with isReadonly := found }, .panic :: rest⟩
  | ⟨l, .panic :: _ :: rest⟩ => ⟨l, .panic :: rest⟩
  | ⟨l, .caught :: rest⟩ => ⟨l, rest⟩

/-- The work after a number of moves. -/
def after (w : Work) : Nat → Work
  | 0 => w
  | n + 1 => w.next.after n

theorem after_add (w : Work) (n m : Nat) : w.after (n + m) = (w.after n).after m := by
  induction n generalizing w with
  | zero => rw [Nat.zero_add, after]
  | succ n ih => rw [Nat.succ_add, after, after, ih]

/-- Some number of moves leads from the one work to the other. -/
def LeadsTo (w v : Work) : Prop :=
  ∃ n, w.after n = v

theorem LeadsTo.refl (w : Work) : w.LeadsTo w :=
  ⟨0, rfl⟩

theorem LeadsTo.trans {u v w : Work} (h : u.LeadsTo v) (h' : v.LeadsTo w) : u.LeadsTo w := by
  obtain ⟨n, rfl⟩ := h
  obtain ⟨m, rfl⟩ := h'
  exact ⟨n + m, after_add u n m⟩

/-- One move, and what comes behind it. -/
theorem LeadsTo.of_next {w v : Work} (h : w.next.LeadsTo v) : w.LeadsTo v :=
  LeadsTo.trans ⟨1, rfl⟩ h

/-! ### Steps and their moves -/

/-- What a merge leaves of a location whose fields it changes in turn. -/
def fieldsDone (snapshot l : Location) (members : List (String × Json)) : Location :=
  match l.setEach members with
  | (.ok _, after) => after
  | (.error _, after) => { snapshot with isReadonly := after.isReadonly }

/-- The fields of a merge, one after the other, up to the first fault. -/
theorem leadsTo_fieldsDone (snapshot l : Location) (members : List (String × Json))
    (rest : List Task) :
    LeadsTo ⟨l, .fields snapshot members :: rest⟩ ⟨fieldsDone snapshot l members, rest⟩ := by
  induction members generalizing l with
  | nil => exact .of_next (.refl _)
  | cons member members ih =>
    obtain ⟨key, value⟩ := member
    apply LeadsTo.of_next
    rw [next, fieldsDone, setEach]
    -- The first member that is refused ends the merge.
    cases hset : l.set key value with
    | mk reply after =>
      cases reply with
      | error fault => exact .refl _
      | ok done =>
        have hlater := ih after
        rw [fieldsDone] at hlater
        dsimp only
        cases heach : after.setEach members with
        | mk answer last =>
          rw [heach] at hlater
          cases answer <;> exact hlater

mutual

/-- **A step** does by its moves what it does at once. -/
theorem leadsTo_run (step : Step) (l : Location) (rest : List Task) :
    LeadsTo ⟨l, .step step :: rest⟩ ⟨(step.run l).2, rest⟩ := by
  cases step with
  | look view => exact .of_next (.refl _)
  | set key value =>
    apply LeadsTo.of_next
    rw [next, Step.run]
    cases l.set key value with
    | mk reply after => cases reply <;> exact .refl _
  | merge update =>
    -- The guard of the merge goes behind its fields, whether all were changed or not.
    apply LeadsTo.of_next
    apply (leadsTo_fieldsDone _ _ _ _).trans
    apply LeadsTo.of_next
    rw [next, Step.run, merge, edit, fieldsDone]
    dsimp only
    cases heach : setEach { l with isReadonly := false } (recognised update) with
    | mk answer after => cases answer <;> exact .refl _
  | scope steps =>
    apply LeadsTo.of_next
    exact (leadsTo_runSteps steps _ _).trans (.of_next (.refl _))
  | brokenScope steps =>
    -- The guard goes on the way from the panic to where the work goes on.
    apply LeadsTo.of_next
    exact (leadsTo_runSteps steps _ _).trans (.of_next (.of_next (.refl _)))

/-- Steps do by their moves what they do at once. -/
theorem leadsTo_runSteps (steps : List Step) (l : Location) (rest : List Task) :
    LeadsTo ⟨l, steps.map .step ++ rest⟩ ⟨(runSteps l steps).2, rest⟩ := by
  cases steps with
  | nil => exact .refl _
  | cons step steps =>
    exact (leadsTo_run step l _).trans (leadsTo_runSteps steps _ rest)

end

end Work

/-! ### The flag -/

/-- The flag fits the tasks: it is off as long as there is a guard that is still to go, and on when
    all have gone. -/
def Nested : Bool → List Task → Prop
  | flag, [] => flag = true
  | flag, .release found :: rest => flag = false ∧ Nested found rest
  | flag, _ :: rest => Nested flag rest

/-- Steps that are still to be taken make no difference to the flag. -/
theorem nested_steps (flag : Bool) (steps : List Step) (rest : List Task) :
    Nested flag (steps.map .step ++ rest) ↔ Nested flag rest := by
  induction steps with
  | nil => simp
  | cons step steps ih => simpa [Nested] using ih

/-- The flag is on exactly if there is no guard that is still to go. -/
theorem Nested.flag_eq {flag : Bool} {tasks : List Task} (h : Nested flag tasks) :
    flag = (tasks.countP Task.isRelease == 0) := by
  induction tasks generalizing flag with
  | nil => exact h
  | cons task rest ih =>
    cases task with
    | release found => simp [h.1, Task.isRelease]
    | step _ | fields _ _ | panic | caught => simpa [Task.isRelease] using ih h

/-- **No move** makes a flag that does not fit. -/
theorem Work.nested_next {w : Work} (h : Nested w.location.isReadonly w.tasks) :
    Nested w.next.location.isReadonly w.next.tasks := by
  obtain ⟨l, tasks⟩ := w
  cases tasks with
  | nil => exact h
  | cons task rest =>
    cases task with
    | step step =>
      change Nested l.isReadonly rest at h
      cases step with
      | look view => exact h
      | set key value => simpa [Work.next] using h
      | merge update => exact ⟨rfl, h⟩
      | scope steps => exact (nested_steps _ _ _).mpr ⟨rfl, h⟩
      | brokenScope steps => exact (nested_steps _ _ _).mpr ⟨rfl, h⟩
    | fields snapshot members =>
      change Nested l.isReadonly rest at h
      cases members with
      | nil => exact h
      | cons member members =>
        obtain ⟨key, value⟩ := member
        rw [next]
        cases hset : l.set key value with
        | mk reply after =>
          -- With or without a fault the flag is the one from before.
          have hflag : after.isReadonly = l.isReadonly := by
            simpa [hset] using l.set_isReadonly key value
          rw [← hflag] at h
          cases reply <;> exact h
    | release found => exact h.2
    | panic =>
      change Nested l.isReadonly rest at h
      cases rest with
      | nil => exact h
      | cons task rest =>
        cases task with
        | release found => exact h.2
        | step _ | fields _ _ | panic | caught => exact h
    | caught => exact h

theorem Work.nested_after {w : Work} (h : Nested w.location.isReadonly w.tasks) (n : Nat) :
    Nested (w.after n).location.isReadonly (w.after n).tasks := by
  induction n generalizing w with
  | zero => exact h
  | succ n ih => exact ih (nested_next h)

/-- Without a guard no field can be changed. -/
theorem run_set_of_isReadonly {l : Location} (h : l.isReadonly = true) (key : String)
    (value : Json) : (Step.set key value).run l = (.refused (.readonly key), l) := by
  simp [Step.run, set, h]

/-- **The flag is lifted in scopes only.** Whatever steps are taken on a blank location, in scopes
    within scopes, broken off or not, and whether they succeed or not: at every moment the flag is
    on exactly if no guard is open, that of a merge included.  Every step that is taken at any depth
    comes to its end, and leaves the flag as it was; and outside of all scopes a field that is to be
    changed by itself is refused, and nothing is changed. -/
theorem guarded_throughout {steps : List Step} {w : Work}
    (h : (Work.ofSteps blank steps).LeadsTo w) :
    w.location.isReadonly = (w.openGuards == 0) ∧
    (∀ step rest, w.tasks = .step step :: rest →
      w.LeadsTo ⟨(step.run w.location).2, rest⟩ ∧
      (step.run w.location).2.isReadonly = w.location.isReadonly ∧
      (w.openGuards = 0 → ∀ key value, step = .set key value →
        step.run w.location = (.refused (.readonly key), w.location))) ∧
    (Work.ofSteps blank steps).LeadsTo ⟨(runSteps blank steps).2, []⟩ := by
  obtain ⟨n, rfl⟩ := h
  have hstart : Nested (Work.ofSteps blank steps).location.isReadonly
      (Work.ofSteps blank steps).tasks := by
    have hsteps := (nested_steps true steps []).mpr rfl
    rwa [List.append_nil] at hsteps
  have hflag := (Work.nested_after hstart n).flag_eq
  refine ⟨hflag, ?_, ?_⟩
  · intro step rest htasks
    generalize (Work.ofSteps blank steps).after n = w at *
    obtain ⟨l, tasks⟩ := w
    obtain rfl := htasks
    refine ⟨Work.leadsTo_run step l rest, step.run_isReadonly l, ?_⟩
    rintro hopen key value rfl
    exact run_set_of_isReadonly (hflag.trans (beq_iff_eq.mpr hopen)) key value
  · have hend := Work.leadsTo_runSteps steps blank []
    rwa [List.append_nil] at hend

/-- A merge that fails, as its last value is not of the type of its field. -/
def misfitting : Step :=
  .merge [("hash", .str "#c"), ("reload", .str "yes")]

/-- Steps on two levels of scopes, of which the inner one is broken off. -/
def errand : List Step :=
  [.set "href" (.str "/a"),
    .scope [.set "href" (.str "/b"), .brokenScope [misfitting, .set "zoom" (.int 9)]],
    .merge [("search", .str "?d")]]

/-- The errand when it comes to the merge that fails. -/
def errandWithin : Work := (Work.ofSteps blank errand).after 4

/-- Two guards are open when the errand comes to the merge that fails, and the flag is off. -/
theorem guarded_throughout_errand :
    (Work.ofSteps blank errand).LeadsTo errandWithin ∧ errandWithin.openGuards = 2 ∧
    errandWithin.location.isReadonly = false ∧
    errandWithin.LeadsTo
      ⟨(misfitting.run errandWithin.location).2, errandWithin.tasks.tail⟩ ∧
    (misfitting.run errandWithin.location).2.isReadonly = false ∧
    (Step.set "href" (.str "/a")).run blank = (.refused (.readonly "href"), blank) := by
  have hwithin : (Work.ofSteps blank errand).LeadsTo errandWithin := ⟨4, rfl⟩
  have hopen : errandWithin.openGuards = 2 := rfl
  obtain ⟨hflag, hsteps, -⟩ := guarded_throughout hwithin
  rw [hopen] at hflag
  obtain ⟨hends, hkept, -⟩ := hsteps misfitting errandWithin.tasks.tail rfl
  obtain ⟨-, hfirst, -⟩ := guarded_throughout (Work.LeadsTo.refl (Work.ofSteps blank errand))
  obtain ⟨-, -, hrefused⟩ := hfirst (.set "href" (.str "/a")) _ rfl
  exact ⟨hwithin, hopen, hflag, hends, hkept.trans hflag, hrefused rfl "href" _ rfl⟩

end DocRelay.Location
