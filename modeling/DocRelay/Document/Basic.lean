import DocRelay.Document.Event
import DocRelay.Fault

namespace DocRelay

/-!
# Documents

A document has a title, models by their ids, some of which are roots, binary buffers, and perhaps
a location.  Changes that are really changes are told by events.

* `Document` — the data of a document; `Document.empty`;
* `Document.setTitle`, `addModel`, `addRoot`, `removeRoot`, `setAttr`, `setBinary` — the changes,
  each with the document afterwards and the events that tell of it;
* `Document.firstFault?` — the first event of a patch that is not possible after those before it;
* `Document.applyPatch` — all events of a patch, or none;
* `Document.toJson` — the value that a host paints.
-/

/-- A document. -/
structure Document where
  id : String
  title : String
  /-- The ids of the roots, in the order in which they were added. -/
  roots : List String
  models : Table Model
  buffers : Table Bytes
  location : Option Location
  /-- The number that the next id is made with. -/
  nextId : Nat

namespace Document

/-- A document without anything in it. -/
def empty (id : String) : Document :=
  ⟨id, "", [], [], [], none, 1⟩

/-- A model. -/
def model? (d : Document) (id : String) : Option Model :=
  d.models.get? id

/-- An attribute of a model. -/
def attr? (d : Document) (id attr : String) : Option Json :=
  (d.model? id).bind fun m => m.attributes.get? attr

/-- The bytes of a buffer. -/
def buffer? (d : Document) (id : String) : Option Bytes :=
  d.buffers.get? id

/-- The value that a host paints. -/
def toJson (d : Document) : Json :=
  .obj [("roots", .obj [("references", .arr (d.models.values.map Model.toJson)),
      ("root_ids", .arr (d.roots.map .str))]),
    ("title", .str d.title)]

/-! ### Changes -/

/-- Sets the title; the title it has already is no change. -/
def setTitle (d : Document) (title : String) : Document × List Event :=
  if title = d.title then (d, [])
  else ({ d with title := title }, [.titleChanged title])

/-- The id of a model that is made with a number. -/
def modelId (n : Nat) : String := "m" ++ toString n

/-- The id of a buffer that is made with a number. -/
def bufferId (n : Nat) : String := "buf-" ++ toString n

/-- The first number from `n` on, of at most `tries`, that makes an id of no model. -/
def freshNumber (models : Table Model) (n : Nat) : Nat → Nat
  | 0 => n
  | tries + 1 => if models.contains (modelId n) then freshNumber models (n + 1) tries else n

/-- The number of the next model.  One of the numbers that are tried makes an id of no model, as
    there are more of them than models. -/
def nextNumber (d : Document) : Nat :=
  freshNumber d.models d.nextId (d.models.length + 1)

/-- Adds a model that is no root: its id. -/
def addModel (d : Document) (kind : String) (attributes : Table Json) : String × Document :=
  let n := d.nextNumber
  let id := modelId n
  (id, { d with models := d.models.insert id ⟨id, kind, attributes⟩, nextId := n + 1 })

/-- Adds a given model as a root. -/
def insertRoot (d : Document) (m : Model) : Document :=
  { d with roots := d.roots ++ [m.id], models := d.models.insert m.id m }

/-- Adds a root: its id. -/
def addRoot (d : Document) (kind : String) (attributes : Table Json) :
    String × Document × List Event :=
  let n := d.nextNumber
  let m : Model := ⟨modelId n, kind, attributes⟩
  (m.id, { d.insertRoot m with nextId := n + 1 }, [.rootAdded m])

/-- Removes a root and its model. -/
def removeRoot (d : Document) (id : String) : Except PatchFault (Document × List Event) :=
  if d.roots.contains id then
    .ok ({ d with roots := d.roots.filter (· ≠ id), models := d.models.erase id },
      [.rootRemoved id])
  else .error (.unknownRoot id)

/-- The attribute of the model has the value already. -/
def holds (m : Model) (attr : String) (value : Json) : Bool :=
  match m.attributes.get? attr with
  | some old => Json.same old value
  | none => false

/-- Sets an attribute; the value it has already is no change. -/
def setAttr (d : Document) (id attr : String) (value : Json) :
    Except PatchFault (Document × List Event) :=
  match d.model? id with
  | none => .error (.unknownModel id)
  | some m =>
    if holds m attr value then .ok (d, [])
    else
      let after : Model := { m with attributes := m.attributes.insert attr value }
      .ok ({ d with models := d.models.insert id after }, [.modelChanged id attr value])

/-- Stores bytes in a new buffer and sets an attribute to the reference to it: the id of the
    buffer. -/
def setBinary (d : Document) (id attr : String) (data : Bytes) :
    Except PatchFault (String × Document × List Event) :=
  if (d.model? id).isNone then .error (.unknownModel id)
  else
    -- The bytes are stored before the attribute is looked at, under a name of their own.
    let name := bufferId d.nextId
    let stored := { d with buffers := d.buffers.insert name data, nextId := d.nextId + 1 }
    (stored.setAttr id attr (Event.bufferReference name)).map fun (after, events) =>
      (name, after, events)

/-! ### Patches -/

/-- The fault of the first event that is not possible after those before it, given the ids of
    the models and of the roots. -/
def firstFault? (known roots : List String) : List Event → Option PatchFault
  | [] => none
  | .modelChanged id _ _ :: rest =>
    if known.contains id then firstFault? known roots rest else some (.unknownModel id)
  | .rootAdded m :: rest =>
    -- From here on the model counts as known, and as a root.
    if known.contains m.id then some (.modelExists m.id)
    else firstFault? (m.id :: known) (m.id :: roots) rest
  | .rootRemoved id :: rest =>
    if roots.contains id then
      firstFault? (known.filter (· ≠ id)) (roots.filter (· ≠ id)) rest
    else some (.unknownRoot id)
  | .titleChanged _ :: rest => firstFault? known roots rest

/-- Makes the change that an event tells of. -/
def applyEvent (d : Document) : Event → Except PatchFault (Document × List Event)
  | .modelChanged id attr value => d.setAttr id attr value
  | .rootAdded m => .ok (d.insertRoot m, [.rootAdded m])
  | .rootRemoved id => d.removeRoot id
  | .titleChanged title => .ok (d.setTitle title)

/-- Makes the changes in turn, up to the first that is not possible: the document, the events
    that tell of the changes, and what stopped them. -/
def applyEvents (d : Document) : List Event → Document × List Event × Option PatchFault
  | [] => (d, [], none)
  | event :: rest =>
    match d.applyEvent event with
    | .error fault => (d, [], some fault)
    | .ok (after, told) =>
      let (last, others, fault?) := after.applyEvents rest
      (last, told ++ others, fault?)

/-- Applies a patch: nothing is done unless every event is possible after those before it. -/
def applyPatch (d : Document) (j : Json) : Document × List Event × Option Fault :=
  match Patch.decode j with
  | .error cause => (d, [], some (.badPatch (.misfit cause)))
  | .ok events =>
    match firstFault? d.models.keys d.roots events with
    | some fault => (d, [], some (.patch fault))
    | none =>
      -- The check found nothing, so no fault is to be expected here.
      let (after, told, fault?) := d.applyEvents events
      (after, told, fault?.map .patch)

/-- The bytes of the buffers that the events refer to and the document has, each once, in the
    order of the first references. -/
def referencedBuffers (d : Document) (events : List Event) : List Bytes :=
  ((events.filterMap Event.buffer?).eraseDups).filterMap d.buffer?

end Document

end DocRelay
