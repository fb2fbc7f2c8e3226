import DocRelay.Json.Decode

namespace DocRelay

/-!
# Events of a document

A document is changed event by event, and a patch is a list of events.  On the wire an event is
an object whose member `kind` names what happened.

* `Origin` — who made a change;
* `Model`, `Event` — the parts of a document, and what can happen to them;
* `Event.toJson`, `Event.decode` — an event and its value;
* `Patch.toJson`, `Patch.decode` — the same for patches.
-/

/-- Who made a change. -/
inductive Origin where
  /-- The host, by a patch. -/
  | host
  /-- The application. -/
  | runtime
deriving DecidableEq, Repr

/-- A part of a document: a bag of attributes of some kind. -/
structure Model where
  id : String
  kind : String
  attributes : Table Json

/-- A change of a document. -/
inductive Event where
  /-- An attribute of a model has a new value. -/
  | modelChanged (id attr : String) (value : Json)
  /-- There is a new root. -/
  | rootAdded (added : Model)
  /-- A root is gone. -/
  | rootRemoved (id : String)
  /-- The title is another one. -/
  | titleChanged (title : String)

namespace Model

/-- The value of a model. -/
def toJson (m : Model) : Json :=
  .obj [("attributes", .obj m.attributes), ("id", .str m.id), ("type", .str m.kind)]

/-- The form of a model. -/
def shape : Json.Shape :=
  ⟨"struct Model",
    [Json.field "id" Json.asText, Json.field "type" Json.asText,
      Json.field "attributes" Json.asTable]⟩

/-- A model out of a value. -/
def decode : Json → Except Json.Misfit Model :=
  shape.decode .untagged fun slots => do
    let id ← slots.required "id" Json.asText
    let kind ← slots.required "type" Json.asText
    let attributes ← slots.optional "attributes" Json.asTable []
    return ⟨id, kind, attributes⟩

/-- The value of a reference to a model. -/
def reference (id : String) : Json :=
  .obj [("id", .str id)]

/-- The id in a reference to a model. -/
def decodeReference : Json → Except Json.Misfit String :=
  Json.Shape.decode ⟨"struct ModelRef", [Json.field "id" Json.asText]⟩ .untagged
    fun slots => slots.required "id" Json.asText

end Model

namespace Event

/-- The value of an event. -/
def toJson : Event → Json
  | .modelChanged id attr value =>
    .obj [("attr", .str attr), ("kind", .str "ModelChanged"), ("model", Model.reference id),
      ("new", value)]
  | .rootAdded added => .obj [("kind", .str "RootAdded"), ("model", added.toJson)]
  | .rootRemoved id => .obj [("kind", .str "RootRemoved"), ("model", Model.reference id)]
  | .titleChanged title => .obj [("kind", .str "TitleChanged"), ("title", .str title)]

/-- The names of the kinds of events. -/
def kinds : List String := ["ModelChanged", "RootAdded", "RootRemoved", "TitleChanged"]

/-- The form of the events of a kind. -/
def variant (name : String) (fields : List Json.Field) : Json.Shape :=
  ⟨"struct variant DocumentEvent::" ++ name, fields⟩

/-- A value of any kind. -/
def anyValue (j : Json) : Except Json.Misfit Json :=
  .ok j.canonical

/-- The event of a kind, from its other members. -/
def build (kind : String) : Json → Except Json.Misfit Event :=
  match kind with
  | "ModelChanged" =>
    (variant kind [Json.field "model" Model.decodeReference, Json.field "attr" Json.asText,
      Json.field "new" anyValue]).decode .untagged fun slots => do
        let id ← slots.required "model" Model.decodeReference
        let attr ← slots.required "attr" Json.asText
        let value ← slots.required "new" anyValue
        return .modelChanged id attr value
  | "RootAdded" =>
    (variant kind [Json.field "model" Model.decode]).decode .untagged fun slots => do
      return .rootAdded (← slots.required "model" Model.decode)
  | "RootRemoved" =>
    (variant kind [Json.field "model" Model.decodeReference]).decode .untagged fun slots => do
      return .rootRemoved (← slots.required "model" Model.decodeReference)
  | _ =>
    (variant kind [Json.field "title" Json.asText]).decode .untagged fun slots => do
      return .titleChanged (← slots.required "title" Json.asText)

/-- An event out of a value. -/
def decode (j : Json) : Except Json.Misfit Event := do
  let (kind, content) ← Json.asTagged "DocumentEvent" "kind" kinds j
  build kind content

/-- The key of a reference to a buffer. -/
def bufferKey : String := "__buffer__"

/-- The value that refers to a buffer. -/
def bufferReference (id : String) : Json :=
  .obj [(bufferKey, .str id)]

/-- The buffer that the new value of an attribute refers to. -/
def buffer? : Event → Option String
  | .modelChanged _ _ value => (value.member? bufferKey).bind Json.text?
  | _ => none

end Event

namespace Patch

/-- The value of a patch. -/
def toJson (events : List Event) : Json :=
  .obj [("events", .arr (events.map Event.toJson))]

/-- The events of a patch out of a value. -/
def decode : Json → Except Json.Misfit (List Event) :=
  Json.Shape.decode ⟨"struct DocumentPatch", [Json.field "events" (Json.asList Event.decode)]⟩
    .plain fun slots => slots.optional "events" (Json.asList Event.decode) []

end Patch

end DocRelay
