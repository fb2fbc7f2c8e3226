import DocRelay.Document.Basic

namespace DocRelay

/-!
# Scripts

What an application does to its document.  A script is any deterministic course of action: it
performs operations and goes on according to their replies, looks at the document, notes values
for those who run it, and sets watchers; at last it is done, gives up or breaks off.

* `Operation`, `Reply` — the operations on a document, and what they answer;
* `Document.perform` — an operation: its reply, the document, and the events that tell of it;
* `Script` — a course of action; `Watcher` — one that is waiting for an attribute to change.
-/

/-- An operation on a document. -/
inductive Operation where
  | setTitle (title : String) (origin : Origin)
  | addModel (kind : String) (attributes : Table Json)
  | addRoot (kind : String) (attributes : Table Json) (origin : Origin)
  | removeRoot (id : String) (origin : Origin)
  | setAttr (id attr : String) (value : Json) (origin : Origin)
  | setBinary (id attr : String) (data : Bytes) (origin : Origin)
  | applyPatch (change : Json) (origin : Origin)
  /-- Gives the document a blank location, or none. -/
  | exposeLocation (exposed : Bool)
  | mergeLocation (update : Table Json)

/-- What an operation answers. -/
inductive Reply where
  | done
  /-- The id of what was made. -/
  | made (id : String)
  /-- Whether there was a change. -/
  | changed (yes : Bool)
  /-- The fields of the location that were merged. -/
  | merged (keys : List String)
  /-- There is no location. -/
  | noLocation
deriving DecidableEq, Repr

/-- Who makes the change. -/
def Operation.origin : Operation → Origin
  | .setTitle _ o | .addRoot _ _ o | .removeRoot _ o | .setAttr _ _ _ o | .setBinary _ _ _ o
  | .applyPatch _ o => o
  | .addModel _ _ | .exposeLocation _ | .mergeLocation _ => .runtime

/-- Merges an update into the location. -/
def Document.mergeLocation (d : Document) (update : Table Json) :
    Except Fault Reply × Document :=
  match d.location with
  | none => (.ok .noLocation, d)
  | some l =>
    match l.merge update with
    | (.ok keys, after) => (.ok (.merged keys), { d with location := some after })
    | (.error fault, after) => (.error (.location fault), { d with location := some after })

/-- An operation: its reply, the document afterwards, and the events that tell of it.  Values are
    stored in canonical form. -/
def Document.perform (d : Document) : Operation → Except Fault Reply × Document × List Event
  | .setTitle title _ =>
    let (after, told) := d.setTitle title
    (.ok .done, after, told)
  | .addModel kind attributes =>
    let (id, after) := d.addModel kind (Json.canonicalTable attributes)
    (.ok (.made id), after, [])
  | .addRoot kind attributes _ =>
    let (id, after, told) := d.addRoot kind (Json.canonicalTable attributes)
    (.ok (.made id), after, told)
  | .removeRoot id _ =>
    match d.removeRoot id with
    | .ok (after, told) => (.ok .done, after, told)
    | .error fault => (.error (.patch fault), d, [])
  | .setAttr id attr value _ =>
    match d.setAttr id attr value.canonical with
    | .ok (after, told) => (.ok (.changed !told.isEmpty), after, told)
    | .error fault => (.error (.patch fault), d, [])
  | .setBinary id attr data _ =>
    match d.setBinary id attr data with
    | .ok (name, after, told) => (.ok (.made name), after, told)
    | .error fault => (.error (.patch fault), d, [])
  | .applyPatch change _ =>
    match d.applyPatch change with
    | (after, told, none) => (.ok .done, after, told)
    | (after, told, some fault) => (.error fault, after, told)
  | .exposeLocation exposed =>
    (.ok .done, { d with location := if exposed then some .blank else none }, [])
  | .mergeLocation update =>
    let (reply, after) := d.mergeLocation update
    (reply, after, [])

/-- How a script ends. -/
inductive Outcome where
  | done
  /-- The script gives up. -/
  | failed (fault : Fault)
  /-- The script breaks off, with a message that may be no text. -/
  | panicked (text : Option String)
deriving DecidableEq, Repr

/-- A course of action on a document. -/
inductive Script where
  /-- Ends, and remembers a value for the next run. -/
  | finish (outcome : Outcome) (memory : Json)
  /-- Performs an operation and goes on with its reply. -/
  | perform (op : Operation) (next : Except Fault Reply → Script)
  /-- Looks at the document, and at whether its changes are sent to a host. -/
  | look (next : Document → Bool → Script)
  /-- Notes a value. -/
  | note (entry : Json) (next : Script)
  /-- Sets a watcher of an attribute.  Its body is run with what it remembers and with the new
      value. -/
  | watch (id attr : String) (memory : Json) (body : Json → Json → Script) (next : Script)

/-- A script that waits for an attribute to change. -/
structure Watcher where
  id : String
  attr : String
  /-- What the last run remembered. -/
  memory : Json
  body : Json → Json → Script

end DocRelay
