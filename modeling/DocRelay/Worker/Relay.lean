import DocRelay.Engine
import DocRelay.Json.ReadTagged
import DocRelay.Message.Inbound

namespace DocRelay

/-!
# Relays

A relay deals with the messages of the host, one at a time and in order.  Every patch of the host
is acknowledged once it has been dealt with, whether it could be applied or not.

* `Relay` — an engine whose document is rendered;
* `Relay.handle` — deals with a message;
* `Relay.run` — deals with messages until there are none or nobody listens.
-/

/-- An engine whose document is rendered. -/
structure Relay where
  engine : Engine
  /-- The host has painted the document, and changes are sent to it. -/
  isLinked : Bool

namespace Relay

/-- The relay of an engine whose document was just rendered. -/
def ofEngine (e : Engine) : Relay := ⟨e, false⟩

/-- The name of the state of a relay. -/
def stateName (r : Relay) : String :=
  if r.isLinked then "linked" else "awaiting_rendered"

/-- The host has painted the document. -/
def onRendered (r : Relay) (s : Surroundings) : Except Fault Unit × Relay × Surroundings :=
  if r.isLinked then (.ok (), r, s.notify .renderedAgain)
  else
    match r.engine.link with
    | .ok engine => (.ok (), ⟨engine, true⟩, s)
    | .error fault => (.error fault, r, s)

/-- The value that the text of a patch is. -/
def readPatch (text : String) : Except PatchMisfit Json :=
  if Text.isBlankText text then .error .empty
  else
    match Json.read text with
    | .ok j => .ok j.canonical
    | .error fault => .error (.malformed fault)

/-- The host has changed the document. -/
def onPatch (r : Relay) (text : String) (s : Surroundings) :
    Except Fault Unit × Relay × Surroundings :=
  match readPatch text with
  | .error cause => (.error (.badPatch cause), r, s)
  | .ok change =>
    let (reply, engine, after) := r.engine.applyPatch change s
    (reply, { r with engine := engine }, after)

/-- The location of the page has changed. -/
def onLocation (r : Relay) (text : String) : Except Fault Unit × Relay :=
  match Json.readTable text with
  | .error fault => (.error (.location (.notObject fault)), r)
  | .ok update =>
    let (reply, engine) := r.engine.updateLocation update
    (reply.map fun _ => (), { r with engine := engine })

/-- Deals with a message.  A patch is acknowledged before its failure is told; if it cannot be
    acknowledged, that is the failure. -/
def handle (r : Relay) (m : InboundMessage) (s : Surroundings) :
    Except Fault Unit × Relay × Surroundings :=
  match m with
  | .rendered => r.onRendered s
  | .patch text =>
    let (reply, relay, after) := r.onPatch text s
    -- What the patch has led to is posted by now, so the acknowledgement comes behind it.
    match after.outbox.idle with
    | (.ok (), outbox) => (reply, relay, { after with outbox := outbox })
    | (.error fault, outbox) => (.error fault, relay, { after with outbox := outbox })
  | .location text =>
    let (reply, relay) := r.onLocation text
    (reply, relay, s)

/-- Deals with messages in turn.  A failure is told and passed over, except that nothing more is
    done when nobody listens: the messages that are left then. -/
def run (r : Relay) (s : Surroundings) :
    List InboundMessage → List InboundMessage × Relay × Surroundings
  | [] => ([], r, s)
  | m :: rest =>
    match r.handle m s with
    | (.ok (), relay, after) => relay.run after rest
    | (.error fault, relay, after) =>
      if fault.isClosed then (rest, relay, after)
      else relay.run (after.notify (.notHandled m.kind fault)) rest

end Relay

end DocRelay
