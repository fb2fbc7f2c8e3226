import DocRelay.Document.Scene

namespace DocRelay.Scene

/-!
# Dispatch cycles

After a change that is made while the document is at rest, a cycle deals with all queued events:
it runs the watchers of each changed attribute, whose own changes are queued behind, and at last
sends the changes of the application to the host as one patch.  Past `cycleLimit` events
no watcher is run, so a cycle always ends; the events are still sent.

* `Scene.runWatchers` — the watchers of one changed attribute;
* `Scene.deliver` — the first events of a cycle, with their watchers;
* `Scene.dispatch` — a cycle; `Scene.forward` — its patch;
* `Scene.dispatch_queue`, `Scene.dispatch_dispatching` — no event is left behind;
* `Scene.perform` — an operation, followed by a cycle unless one is under way.
-/

/-- Runs one watcher, if it waits for the attribute: the watcher with what it remembers. -/
def runWatcher (s : Scene) (id attr : String) (value : Json) (w : Watcher) : Watcher × Scene :=
  if w.id = id && w.attr = attr then
    let ((outcome, memory), after) := (w.body w.memory value).run (fun op s => s.enqueue op) s
    let told :=
      match outcome with
      | .done => after
      | .failed fault => after.notify (.watcherFailed id attr fault)
      | .panicked text => after.notify (.watcherPanicked id attr text)
    ({ w with memory := memory }, told)
  else (w, s)

/-- Runs watchers in turn. -/
def runEach (s : Scene) (id attr : String) (value : Json) : List Watcher → List Watcher × Scene
  | [] => ([], s)
  | w :: rest =>
    let (w, after) := s.runWatcher id attr value w
    let (others, last) := after.runEach id attr value rest
    (w :: others, last)

/-- Runs the watchers of an attribute that has a new value.  Watchers that are set meanwhile come
    behind, and wait for the next event. -/
def runWatchers (s : Scene) (id attr : String) (value : Json) : Scene :=
  -- The watchers are away while they run, so those that they set start a list of their own.
  let bare := { s with live := { s.live with watchers := [] } }
  let (watchers, after) := bare.runEach id attr value s.live.watchers
  { after with live := { after.live with watchers := watchers ++ after.live.watchers } }

/-- The event if the application made the change. -/
def own : Event × Origin → List Event
  | (event, .runtime) => [event]
  | (_, .host) => []

/-- Runs the watchers of an event. -/
def react (s : Scene) : Event → Scene
  | .modelChanged id attr value => s.runWatchers id attr value
  | _ => s

/-- Takes up to `budget` events from the queue and runs their watchers: the changes of the
    application among them. -/
def deliver : Nat → Scene → List Event × Scene
  | 0, s => ([], s)
  | budget + 1, s =>
    match s.live.queue with
    | [] => ([], s)
    | first :: rest =>
      -- The event is gone when its watchers run, who queue their own behind the rest.
      let taken := { s with live := { s.live with queue := rest } }
      let (sent, after) := deliver budget (taken.react first.1)
      (own first ++ sent, after)

/-- The model of an event whose watchers were to be run. -/
def skipped? : Event × Origin → Option String
  | (.modelChanged id _ _, _) => some id
  | _ => none

/-- The models of the events whose watchers were to be run, in order. -/
def skipped (queue : List (Event × Origin)) : List String :=
  (queue.filterMap skipped?).foldl (fun t id => Table.insert t id ()) ([] : Table Unit) |>.keys

/-- Sends changes to the host, if the document is linked to one. -/
def forward (s : Scene) (events : List Event) : Scene :=
  match s.live.link, events with
  | none, _ => s
  | some _, [] => s
  | some sink, events =>
    match s.around.send sink (Patch.toJson events)
        (s.live.document.referencedBuffers events) with
    | (.ok _, after) => { s with around := after }
    | (.error fault, after) => { s with around := after.notify (.notForwarded fault) }

/-- Sending leaves the document alone. -/
@[simp] theorem forward_live (s : Scene) (events : List Event) :
    (s.forward events).live = s.live := by
  unfold forward
  split
  · rfl
  · rfl
  · split <;> rfl

/-- Deals with all queued events. -/
def dispatch (s : Scene) : Scene :=
  let (sent, s) := deliver cycleLimit { s with live := { s.live with dispatching := true } }
  let left := s.live.queue
  -- Events at which no watcher waits are dealt with by being sent.
  let s := if (skipped left).isEmpty then s else s.notify (.cascade (skipped left))
  let s := { s with live := { s.live with queue := [], dispatching := false } }
  s.forward (sent ++ left.flatMap own)

/-- A cycle leaves no event behind. -/
@[simp] theorem dispatch_queue (s : Scene) : s.dispatch.live.queue = [] := by
  simp [dispatch]

/-- After a cycle the document is at rest. -/
@[simp] theorem dispatch_dispatching (s : Scene) : s.dispatch.live.dispatching = false := by
  simp [dispatch]

/-- Deals with all queued events, unless a cycle is under way that will. -/
def settle (s : Scene) : Scene :=
  if s.live.dispatching then s else s.dispatch

/-- Performs an operation.  When it returns, everything that follows from it is done, unless a
    cycle is under way. -/
def perform (s : Scene) (op : Operation) : Except Fault Reply × Scene :=
  let (reply, after) := s.enqueue op
  (reply, after.settle)

/-- Runs a script of an application outside of any cycle. -/
def runScript (s : Scene) (script : Script) : Outcome × Scene :=
  let ((outcome, _), after) := script.run (fun op s => s.perform op) s
  (outcome, after)

end DocRelay.Scene
