import DocRelay.Proofs.Document.Course
import DocRelay.Proofs.Document.Mutations

namespace DocRelay

/-!
# The log of a cycle

What is done in the course of an operation, by the operation itself and by the watchers behind it,
is written down as it is done: every mutation that is really a change, with whoever made it, and
every watcher that is set.  The log knows of no queue.

* `LogEntry` — an entry of the log; `LogEntry.changes`, `LogEntry.watchers` — the two kinds;
* `Script.log`, `Scene.reactLog`, `Scene.cycleLog`, `Scene.log` — the log of a script, of
  the watchers of an event, of a cycle, and of an operation with all that follows from it;
* `Watcher.role` — a watcher apart from what it remembers;
* `Scene.Leads` — the queue is longer by the changes, and the list of watchers by those that were
  set; `Scene.react_leads` — so it is behind every event, however its watchers end.
-/

/-- What is done to a document. -/
inductive LogEntry where
  /-- The title, a root or an attribute is changed. -/
  | changed (event : Event) (origin : Origin)
  /-- A watcher is set. -/
  | watched (w : Watcher)

namespace LogEntry

/-- The change that was made. -/
def change? : LogEntry → Option (Event × Origin)
  | changed event origin => some (event, origin)
  | watched _ => none

/-- The watcher that was set. -/
def watcher? : LogEntry → Option Watcher
  | changed _ _ => none
  | watched w => some w

/-- The changes in a log, in order, with those who made them. -/
def changes (log : List LogEntry) : Queue := log.filterMap change?

/-- The watchers that were set, in order. -/
def watchers (log : List LogEntry) : List Watcher := log.filterMap watcher?

@[simp] theorem changes_append (first second : List LogEntry) :
    changes (first ++ second) = changes first ++ changes second :=
  List.filterMap_append

@[simp] theorem watchers_append (first second : List LogEntry) :
    watchers (first ++ second) = watchers first ++ watchers second :=
  List.filterMap_append

end LogEntry

namespace Watcher

/-- What the watcher waits for, and what it does then. -/
def role (w : Watcher) : String × String × (Json → Json → Script) := (w.id, w.attr, w.body)

/-- The watcher waits for the attribute. -/
def waitsFor (id attr : String) (w : Watcher) : Bool := w.id = id && w.attr = attr

theorem waitsFor_iff {id attr : String} {w : Watcher} :
    w.waitsFor id attr = true ↔ w.id = id ∧ w.attr = attr := by
  simp [waitsFor]

end Watcher

/-! ### What is written down -/

/-- What an operation does by itself. -/
def Scene.directLog (s : Scene) (op : Operation) : List LogEntry :=
  (s.live.document.mutations op).map fun event => .changed event op.origin

/-- What a watcher's script does. -/
def Script.log : Script → Scene → List LogEntry
  | .finish _ _, _ => []
  | .perform op next, s => s.directLog op ++ (next (s.enqueue op).1).log (s.enqueue op).2
  | .look next, s => (next s.live.document s.live.isLinked).log s
  | .note entry next, s => next.log (s.note entry)
  | .watch id attr memory body next, s =>
    .watched ⟨id, attr, memory, body⟩ :: next.log (s.addWatcher ⟨id, attr, memory, body⟩)

namespace Scene

/-- What a watcher does when an attribute has a new value. -/
def watcherLog (s : Scene) (id attr : String) (value : Json) (w : Watcher) : List LogEntry :=
  if w.waitsFor id attr then (w.body w.memory value).log s else []

/-- What watchers do in turn. -/
def eachLog (s : Scene) (id attr : String) (value : Json) : List Watcher → List LogEntry
  | [] => []
  | w :: rest =>
    s.watcherLog id attr value w
      ++ (s.runWatcher id attr value w).2.eachLog id attr value rest

/-- What the watchers of an event do. -/
def reactLog (s : Scene) : Event → List LogEntry
  | .modelChanged id attr value => (s.withWatchers []).eachLog id attr value s.live.watchers
  | _ => []

/-- What is done in a cycle, while up to `budget` events are taken. -/
def cycleLog : Nat → Scene → List LogEntry
  | 0, _ => []
  | budget + 1, s =>
    match s.live.queue with
    | [] => []
    | first :: rest =>
      (s.take rest).reactLog first.1 ++ cycleLog budget ((s.take rest).react first.1)

/-- What is done in the course of an operation: by itself, and then by watchers. -/
def log (s : Scene) (op : Operation) : List LogEntry :=
  s.directLog op ++ cycleLog cycleLimit (s.enqueue op).2.begin

/-! ### What comes of it -/

/-- The queue is longer by the changes, and the list of watchers by those that were set. -/
structure Leads (s : Scene) (log : List LogEntry) (t : Scene) : Prop where
  queue : t.live.queue = s.live.queue ++ LogEntry.changes log
  roles : t.live.watchers.map Watcher.role
    = s.live.watchers.map Watcher.role ++ (LogEntry.watchers log).map Watcher.role

theorem Leads.refl (s : Scene) : s.Leads [] s :=
  ⟨(List.append_nil _).symm, (List.append_nil _).symm⟩

theorem Leads.trans {s t u : Scene} {first second : List LogEntry} (hst : s.Leads first t)
    (htu : t.Leads second u) : s.Leads (first ++ second) u := by
  refine ⟨?_, ?_⟩
  · rw [htu.queue, hst.queue, LogEntry.changes_append, List.append_assoc]
  · rw [htu.roles, hst.roles, LogEntry.watchers_append, List.map_append, List.append_assoc]

/-- What is told to the surroundings does not matter. -/
theorem Leads.of_live {s t u : Scene} {log : List LogEntry} (h : s.Leads log t)
    (hu : u.live = t.live) : s.Leads log u :=
  ⟨hu ▸ h.queue, hu ▸ h.roles⟩

/-- The changes that an operation makes are queued. -/
theorem enqueue_leads (s : Scene) (op : Operation) :
    s.Leads (s.directLog op) (s.enqueue op).2 := by
  have hchanges : LogEntry.changes (s.directLog op)
      = (s.live.document.mutations op).map fun event => (event, op.origin) := by
    rw [LogEntry.changes, directLog, List.filterMap_map]
    exact congrFun (List.filterMap_eq_map (f := fun event => (event, op.origin))) _
  have hwatchers : LogEntry.watchers (s.directLog op) = [] := by
    rw [LogEntry.watchers, directLog, List.filterMap_map]
    exact List.filterMap_eq_nil_iff.mpr fun _ _ => rfl
  refine ⟨?_, ?_⟩
  · rw [hchanges, ← Document.perform_mutations]
    rfl
  · rw [hwatchers]
    exact (List.append_nil _).symm

/-- A watcher that is set comes behind the others. -/
theorem addWatcher_leads (s : Scene) (w : Watcher) : s.Leads [.watched w] (s.addWatcher w) :=
  ⟨(List.append_nil _).symm, List.map_append⟩

/-- **Script.** What a script does is queued and set, wherever it ends. -/
theorem run_leads (script : Script) (s : Scene) :
    s.Leads (script.log s) (script.run (fun op s => s.enqueue op) s).2 := by
  induction script generalizing s with
  | finish outcome memory => exact .refl s
  | perform op next ih => exact (enqueue_leads s op).trans (ih _ _)
  | look next ih => exact ih _ _ s
  | note entry next ih => exact ⟨(ih (s.note entry)).queue, (ih (s.note entry)).roles⟩
  | watch id attr memory body next _ ih => exact (addWatcher_leads s _).trans (ih _)

/-- A watcher does what its script does, though it may fail or break off. -/
theorem runWatcher_leads (s : Scene) (id attr : String) (value : Json) (w : Watcher) :
    s.Leads (s.watcherLog id attr value w) (s.runWatcher id attr value w).2 := by
  by_cases hit : w.id = id ∧ w.attr = attr
  · rw [runWatcher_hit hit, watcherLog, if_pos (Watcher.waitsFor_iff.mpr hit)]
    exact (run_leads _ s).of_live (told_live _ _ _ _)
  · rw [runWatcher_miss hit, watcherLog, if_neg (mt Watcher.waitsFor_iff.mp hit)]
    exact .refl s

/-- A watcher that was run waits for the same and does the same. -/
theorem runWatcher_role (s : Scene) (id attr : String) (value : Json) (w : Watcher) :
    (s.runWatcher id attr value w).1.role = w.role := by
  by_cases hit : w.id = id ∧ w.attr = attr
  · rw [runWatcher_hit hit]
    rfl
  · rw [runWatcher_miss hit]

/-- Watchers in turn do what each of them does. -/
theorem runEach_leads (s : Scene) (id attr : String) (value : Json) (watchers : List Watcher) :
    s.Leads (s.eachLog id attr value watchers) (s.runEach id attr value watchers).2 := by
  induction watchers generalizing s with
  | nil => exact .refl s
  | cons w rest ih => exact (runWatcher_leads s id attr value w).trans (ih _)

/-- Watchers that were run are the same, in the same order. -/
theorem runEach_roles (s : Scene) (id attr : String) (value : Json) (watchers : List Watcher) :
    (s.runEach id attr value watchers).1.map Watcher.role = watchers.map Watcher.role := by
  induction watchers generalizing s with
  | nil => rfl
  | cons w rest ih => exact congrArg₂ List.cons (runWatcher_role s id attr value w) (ih _)

/-- **Event.** Behind an event the queue is longer by what its watchers changed, and the watchers
    are those that were there, with those that were set behind them. -/
theorem react_leads (s : Scene) (event : Event) : s.Leads (s.reactLog event) (s.react event) := by
  cases event with
  | modelChanged id attr value =>
    have heach := runEach_leads (s.withWatchers []) id attr value s.live.watchers
    rw [react, runWatchers_eq]
    refine ⟨heach.queue, ?_⟩
    -- The watchers were away, so the list at the end of the last script holds the new ones.
    dsimp only [withWatchers] at heach ⊢
    rw [List.map_append, heach.roles]
    exact congrArg (· ++ _) (runEach_roles _ id attr value s.live.watchers)
  | _ => exact .refl s

end Scene

end DocRelay
