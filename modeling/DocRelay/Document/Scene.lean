import DocRelay.Document.Script
import DocRelay.Notice
import DocRelay.Outbox

namespace DocRelay

/-!
# Documents at work

A document that is at work has watchers, may be linked to a host, and keeps the events of the
changes that were made but not yet dealt with.  What comes out of the work is kept beside it.

* `LiveDocument` — a document at work;
* `Surroundings` — the outbox, the notes of the applications, and the notices;
* `Scene` — a live document in its surroundings;
* `Scene.enqueue` — performs an operation and queues its events;
* `Script.run` — runs a script, given how operations are performed.
-/

/-- A document at work. -/
structure LiveDocument where
  document : Document
  /-- The watchers, in the order in which they were set. -/
  watchers : List Watcher
  /-- Where changes of the application are sent. -/
  link : Option Sink
  /-- The events that are not yet dealt with, with those who made the changes. -/
  queue : List (Event × Origin)
  /-- A cycle is under way, which deals with all events. -/
  dispatching : Bool

namespace LiveDocument

/-- A document at rest, with nothing but its data. -/
def ofDocument (d : Document) : LiveDocument := ⟨d, [], none, [], false⟩

/-- The document is linked to a host. -/
def isLinked (d : LiveDocument) : Bool := d.link.isSome

/-- The document, with its changes sent through the sink from now on. -/
def linkTo (d : LiveDocument) (sink : Sink) : LiveDocument := { d with link := some sink }

/-- The document with one more watcher. -/
def addWatcher (d : LiveDocument) (w : Watcher) : LiveDocument :=
  { d with watchers := d.watchers ++ [w] }

/-- A short description: the title, the roots, and some counts. -/
def summary (d : LiveDocument) : String :=
  "DocumentState \x7b id: " ++ Text.quoted d.document.id ++ ", title: "
    ++ Text.quoted d.document.title ++ ", roots: ["
    ++ Text.joinText ", " (d.document.roots.map Text.quoted) ++ "], models: "
    ++ toString d.document.models.length ++ ", watchers: " ++ toString d.watchers.length
    ++ ", linked: " ++ toString d.isLinked ++ " \x7d"

end LiveDocument

/-- What comes out of the work of documents, engines and workers. -/
structure Surroundings where
  outbox : Outbox
  /-- What applications noted. -/
  notes : List Json
  /-- What is told those who run the worker. -/
  notices : List Notice
  /-- The number of documents that were made. -/
  documents : Nat

namespace Surroundings

/-- Nothing has come out yet. -/
def empty : Surroundings := ⟨.empty, [], [], 0⟩

/-- One more notice. -/
def notify (s : Surroundings) (n : Notice) : Surroundings :=
  { s with notices := s.notices ++ [n] }

/-- One more note. -/
def note (s : Surroundings) (entry : Json) : Surroundings :=
  { s with notes := s.notes ++ [entry] }

/-- Sends a patch through a sink; a patch that is dropped is told. -/
def send (s : Surroundings) (sink : Sink) (change : Json) (buffers : List Bytes) :
    Except Fault (Option String) × Surroundings :=
  match s.outbox.send sink change buffers with
  | (.ok none, after) => (.ok none, { s with outbox := after }.notify .patchDropped)
  | (reply, after) => (reply, { s with outbox := after })

end Surroundings

/-- A live document in its surroundings. -/
structure Scene where
  live : LiveDocument
  around : Surroundings

namespace Scene

/-- One more notice. -/
def notify (s : Scene) (n : Notice) : Scene := { s with around := s.around.notify n }

/-- One more note. -/
def note (s : Scene) (entry : Json) : Scene := { s with around := s.around.note entry }

/-- One more watcher. -/
def addWatcher (s : Scene) (w : Watcher) : Scene := { s with live := s.live.addWatcher w }

/-- Performs an operation and queues the events that tell of it. -/
def enqueue (s : Scene) (op : Operation) : Except Fault Reply × Scene :=
  let (reply, after, told) := s.live.document.perform op
  let queue := s.live.queue ++ told.map fun event => (event, op.origin)
  (reply, { s with live := { s.live with document := after, queue := queue } })

end Scene

/-- Runs a script, given how operations are performed: how it ends and what it remembers. -/
def Script.run (perform : Operation → Scene → Except Fault Reply × Scene) :
    Script → Scene → (Outcome × Json) × Scene
  | .finish outcome memory, s => ((outcome, memory), s)
  | .perform op next, s =>
    let (reply, after) := perform op s
    (next reply).run perform after
  | .look next, s => (next s.live.document s.live.isLinked).run perform s
  | .note entry next, s => next.run perform (s.note entry)
  | .watch id attr memory body next, s =>
    next.run perform (s.addWatcher ⟨id, attr, memory, body⟩)

end DocRelay
