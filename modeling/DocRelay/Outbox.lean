import DocRelay.Fault
import DocRelay.Message.Outbound

namespace DocRelay

/-!
# Outboxes

The way of the messages to the host.  The first rendering is posted once; patches are posted
through sinks, each of which numbers its own patches, and are dropped as long as nothing is
rendered.

* `Outbox` — what was posted, and the state of the sinks;
* `Outbox.status`, `idle`, `error`, `render` — the posts;
* `Outbox.newSink`, `Outbox.send` — sinks, and a patch through a sink;
* `Outbox.drain` — takes what was posted.
-/

/-- A way for patches; the copies of a sink are the same sink. -/
structure Sink where
  index : Nat
deriving DecidableEq, Repr

/-- The way of the messages to the host. -/
structure Outbox where
  /-- The host listens. -/
  isOpen : Bool
  /-- A rendering was asked for. -/
  isRendered : Bool
  /-- The messages that the host has not taken yet. -/
  posted : List OutboundMessage
  /-- The number of the next patch of each sink. -/
  counters : List Nat

namespace Outbox

/-- An open outbox to which nothing was posted. -/
def empty : Outbox := ⟨true, false, [], []⟩

/-- The fault of a message of a kind that nobody takes. -/
def closedFault (kind : String) : Fault :=
  .closed ("outbound channel (" ++ kind ++ " message)")

/-- Posts a message. -/
def post (o : Outbox) (m : OutboundMessage) : Except Fault Unit × Outbox :=
  if o.isOpen then (.ok (), { o with posted := o.posted ++ [m] })
  else (.error (closedFault m.kind), o)

/-- An open outbox takes every message. -/
theorem post_of_isOpen {o : Outbox} (h : o.isOpen = true) (m : OutboundMessage) :
    o.post m = (.ok (), { o with posted := o.posted ++ [m] }) := by
  simp [post, h]

/-- Posts a note on the progress of the setup. -/
def status (o : Outbox) (text : String) : Except Fault Unit × Outbox :=
  o.post (.status text)

/-- Acknowledges a patch of the host. -/
def idle (o : Outbox) : Except Fault Unit × Outbox :=
  o.post .idle

/-- Posts the failure of the setup. -/
def error (o : Outbox) (phase : Phase) (text : String) : Except Fault Unit × Outbox :=
  o.post (.error phase text)

/-- Posts the first rendering.  There is no second one, even if the first cannot be posted. -/
def render (o : Outbox) (payload : RenderPayload) : Except Fault Unit × Outbox :=
  if o.isRendered then (.error .alreadyRendered, o)
  else { o with isRendered := true }.post (.render payload)

/-- Makes a sink that numbers its patches from one. -/
def newSink (o : Outbox) : Sink × Outbox :=
  (⟨o.counters.length⟩, { o with counters := o.counters ++ [1] })

/-- The id of a patch. -/
def patchId (n : Nat) : String := "patch-" ++ toString n

/-- Sends a patch through a sink: its id, or none if it was dropped because nothing is rendered.
    A patch that cannot be posted has used up its number. -/
def send (o : Outbox) (sink : Sink) (change : Json) (buffers : List Bytes) :
    Except Fault (Option String) × Outbox :=
  if o.isRendered then
    let n := o.counters.getD sink.index 1
    let id := patchId n
    match { o with counters := o.counters.set sink.index (n + 1) }.post
        (.patch change buffers id) with
    | (.ok (), after) => (.ok (some id), after)
    | (.error fault, after) => (.error fault, after)
  else (.ok none, o)

/-- The host stops listening; what it has not taken is lost. -/
def close (o : Outbox) : Outbox :=
  { o with isOpen := false, posted := [] }

/-- A patch before the rendering is dropped, and its sink keeps its number. -/
theorem send_of_not_isRendered {o : Outbox} (h : o.isRendered = false) (sink : Sink)
    (change : Json) (buffers : List Bytes) :
    o.send sink change buffers = (.ok none, o) := by
  simp [send, h]

/-- Takes what was posted. -/
def drain (o : Outbox) : List OutboundMessage × Outbox :=
  (o.posted, { o with posted := [] })

@[simp] theorem drain_fst (o : Outbox) : o.drain.1 = o.posted := rfl

@[simp] theorem drain_posted (o : Outbox) : o.drain.2.posted = [] := rfl

end Outbox

end DocRelay
