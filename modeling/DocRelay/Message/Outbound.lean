import DocRelay.Json.ReadTagged
import DocRelay.Message.Buffer
import DocRelay.Phase

namespace DocRelay

/-!
# Messages to the host

What a worker posts to the page that hosts its document: progress, the first rendering, later
changes, acknowledgements and a final failure.  A message is one line of JSON whose member
`type` names its kind.

* `RenderPayload` — what the host needs to paint the document;
* `OutboundMessage` — a message; `OutboundMessage.toLine` is its line;
* `OutboundMessage.ofText` — the message of a line.
-/

/-- What the host needs to paint a document. -/
structure RenderPayload where
  /-- The documents by their ids. -/
  docsJson : Json
  /-- What to render where. -/
  renderItems : Json
  /-- The ids of the root models. -/
  rootIds : Json

/-- A message to the host. -/
inductive OutboundMessage where
  /-- Progress of the setup. -/
  | status (text : String)
  /-- The first rendering. -/
  | render (payload : RenderPayload)
  /-- A change of the document, with the buffers that it refers to. -/
  | patch (change : Json) (buffers : List Bytes) (id : String)
  /-- One host patch has been dealt with. -/
  | idle
  /-- The setup failed in a phase. -/
  | error (phase : Phase) (text : String)

namespace OutboundMessage

/-- The name of the kind of a message. -/
def kind : OutboundMessage → String
  | .status _ => "status"
  | .render _ => "render"
  | .patch _ _ _ => "patch"
  | .idle => "idle"
  | .error _ _ => "error"

/-- The names of all kinds. -/
def kinds : List String := ["status", "render", "patch", "idle", "error"]

/-- The members of a message behind its kind. -/
def members : OutboundMessage → List (String × Json)
  | .status text => [("msg", .str text)]
  | .render payload =>
    [("docs_json", payload.docsJson), ("render_items", payload.renderItems),
      ("root_ids", payload.rootIds)]
  | .patch change buffers id =>
    [("patch", change), ("buffers", .arr (buffers.map fun b => .str (Buffer.encode b))),
      ("msg_id", .str id)]
  | .idle => []
  | .error phase text => [("phase", .str phase.name), ("msg", .str text)]

/-- The value of a message. -/
def toJson (m : OutboundMessage) : Json :=
  .obj (("type", .str m.kind) :: m.members)

/-- The line of a message, without its newline. -/
def toLine (m : OutboundMessage) : String :=
  m.toJson.compact

/-- A value of any kind. -/
def anyValue (j : Json) : Except Json.Misfit Json :=
  .ok j.canonical

/-- The buffers of a list of texts: all must be texts before any is decoded. -/
def decodeBuffers (j : Json) : Except Json.Misfit (List Bytes) := do
  let texts ← Json.asList Json.asText j
  texts.mapM fun text =>
    match Buffer.decode text with
    | .ok bytes => .ok bytes
    | .error fault => .error (.other fault.message)

/-- The form of the messages of a kind. -/
def variant (name : String) (fields : List Json.Field) : Json.Shape :=
  ⟨"struct variant OutboundMessage::" ++ name, fields⟩

/-- The message of a kind, from its other members. -/
def build (kind : String) (content : Json) : Except Json.Misfit OutboundMessage :=
  match kind with
  | "status" =>
    (variant "Status" [Json.field "msg" Json.asText]).decode .untagged (fun slots => do
      return .status (← slots.required "msg" Json.asText)) content
  | "render" =>
    (variant "Render" [Json.field "docs_json" anyValue, Json.field "render_items" anyValue,
      Json.field "root_ids" anyValue]).decode .untagged (fun slots => do
        let docsJson ← slots.required "docs_json" anyValue
        let renderItems ← slots.required "render_items" anyValue
        let rootIds ← slots.required "root_ids" anyValue
        return .render ⟨docsJson, renderItems, rootIds⟩) content
  | "patch" =>
    (variant "Patch" [Json.field "patch" anyValue, Json.field "buffers" decodeBuffers,
      Json.field "msg_id" Json.asText]).decode .untagged (fun slots => do
        let change ← slots.required "patch" anyValue
        let buffers ← slots.optional "buffers" decodeBuffers []
        let id ← slots.optional "msg_id" Json.asText ""
        return .patch change buffers id) content
  | "error" =>
    (variant "Error" [Json.field "phase" (Phase.decode .untagged),
      Json.field "msg" Json.asText]).decode .untagged (fun slots => do
        let phase ← slots.required "phase" (Phase.decode .untagged)
        let text ← slots.required "msg" Json.asText
        return .error phase text) content
  | _ => (Json.asEmpty content).map fun _ => .idle

/-- The message of a line. -/
def ofText (text : String) : Except Json.Fault OutboundMessage :=
  Json.readRecord "OutboundMessage" "type" kinds build text

/-- The message of a value. -/
def ofJson (j : Json) : Except Json.Misfit OutboundMessage := do
  let (kind, content) ← Json.asTagged "OutboundMessage" "type" kinds j
  build kind content

end OutboundMessage

end DocRelay
