import DocRelay.Json.ReadTagged
import DocRelay.Message.Buffer

namespace DocRelay

/-!
# Messages from the host

What the page that hosts a document sends to the worker: that it has painted the document, a
change of the document, or a change of the page's location.  Changes are JSON texts inside the
message; a change that is written inline, as a value, counts as its text.

* `InboundMessage` — a message;
* `InboundMessage.ofText`, `InboundMessage.toLine` — the message of a line, and back.
-/

/-- A message from the host. -/
inductive InboundMessage where
  /-- The host has painted the document. -/
  | rendered
  /-- A change of the document, as a text; empty when the host left it out. -/
  | patch (text : String)
  /-- A change of the location, as a text. -/
  | location (text : String)
deriving DecidableEq, Repr

namespace InboundMessage

/-- The name of the kind of a message. -/
def kind : InboundMessage → String
  | .rendered => "rendered"
  | .patch _ => "patch"
  | .location _ => "location"

/-- The names of all kinds. -/
def kinds : List String := ["rendered", "patch", "location"]

/-- The value of a message. -/
def toJson : InboundMessage → Json
  | .rendered => .obj [("type", .str "rendered")]
  | .patch text => .obj [("type", .str "patch"), ("patch", .str text)]
  | .location text => .obj [("type", .str "location"), ("location", .str text)]

/-- The line of a message, without its newline. -/
def toLine (m : InboundMessage) : String :=
  m.toJson.compact

/-- The text that a value counts as: a text itself, nothing for null, and else the text of the
    value. -/
def payloadText (j : Json) : Except Json.Misfit String :=
  match j with
  | .str s => .ok s
  | .null => .ok ""
  | other => .ok other.canonical.compact

/-- The only text of a message, which may be left out. -/
def payload (name member : String) (content : Json) : Except Json.Misfit String :=
  Json.Shape.decode ⟨"struct variant InboundMessage::" ++ name, [Json.field member payloadText]⟩
    .untagged (fun slots => slots.optional member payloadText "") content

/-- The message of a kind, from its other members. -/
def build (kind : String) (content : Json) : Except Json.Misfit InboundMessage :=
  match kind with
  | "patch" => (payload "Patch" "patch" content).map .patch
  | "location" => (payload "Location" "location" content).map .location
  | _ => (Json.asEmpty content).map fun _ => .rendered

/-- The message of a line. -/
def ofText (text : String) : Except MessageFault InboundMessage :=
  match Json.readRecord "InboundMessage" "type" kinds build text with
  | .ok message => .ok message
  | .error fault => .error (.undecodable fault)

end InboundMessage

end DocRelay
