import DocRelay.Proofs.Document.AtRest
import DocRelay.Worker.Relay

namespace DocRelay

/-!
# One message of the host

What a relay does with one message, as long as somebody listens.

* `Relay.Serves` — the relay has a document, which is linked if and only if the relay is;
* `Relay.turn` — a message and what is told of its failure; `Relay.turn_eq` — who listens decides
  what is told;
* `Content.patched` — what becomes of a content by the text of a patch, which decides whether the
  patch is refused;
* `Relay.Undertaken`, `Relay.undertaken` — a patch is an operation on the document, or nothing is
  done;
* `Relay.PatchTurn`, `Relay.onPatch_turn` — what can become of a patch: it is refused, or it is
  applied and nothing or one patch is forwarded;
* `Relay.relocation`, `Relay.handle_location` — what becomes of the place by an update.
-/

/-- The content after the text of a patch. -/
def Content.patched (c : Content) (text : String) : Except Fault Content :=
  match Relay.readPatch text with
  | .error cause => .error (.badPatch cause)
  | .ok change => c.applied change

/-- A patch is never refused because nobody listens. -/
theorem Content.isClosed_of_patched {c : Content} {text : String} {fault : Fault}
    (h : c.patched text = .error fault) : fault.isClosed = false := by
  unfold patched at h
  cases hr : Relay.readPatch text with
  | error cause =>
    rw [hr] at h
    cases h
    rfl
  | ok change =>
    rw [hr] at h
    dsimp only [applied] at h
    -- It cannot be decoded, or one of its events is not possible.
    split at h
    · cases h
      rfl
    · split at h
      · cases h
        rfl
      · cases h

namespace Relay

/-- The relay serves a document: it is linked to the host if the relay is, and the host listens
    and has the rendering. -/
structure Serves (r : Relay) (s : Surroundings) (live : LiveDocument) : Prop where
  document : r.engine.document = some live
  reachable : live.Reachable
  link : live.link = if r.isLinked then some r.engine.sink else none
  isOpen : s.outbox.isOpen = true
  isRendered : s.outbox.isRendered = true
  /-- The outbox has numbers for the patches of the relay. -/
  known : r.engine.sink.index < s.outbox.counters.length

/-- The relay with another document. -/
def holding (r : Relay) (live : LiveDocument) : Relay :=
  { r with engine := { r.engine with document := some live } }

/-- A relay holds its document. -/
theorem holding_self {r : Relay} {live : LiveDocument} (h : r.engine.document = some live) :
    r.holding live = r := by
  obtain ⟨⟨source, registry, environment, document, sink⟩, isLinked⟩ := r
  cases h
  rfl

/-- Deals with a message, and tells its failure. -/
def turn (now : Relay × Surroundings) (m : InboundMessage) : Relay × Surroundings :=
  match now.1.handle m now.2 with
  | (.ok (), r, s) => (r, s)
  | (.error fault, r, s) => (r, s.notify (.notHandled m.kind fault))

/-! ### Patches -/

/-- The scene in which a patch of the host was just made. -/
def made (live : LiveDocument) (s : Surroundings) (change : Json) : Scene :=
  (Scene.enqueue ⟨live, s⟩ (.applyPatch change .host)).2

/-- Nothing is posted before the changes that follow from a patch are forwarded. -/
theorem made_outbox (live : LiveDocument) (s : Surroundings) (change : Json) :
    (made live s change).cycleEnd.around.outbox = s.outbox :=
  Scene.cycleEnd_outbox _

/-- The patches keep their numbers until the changes are forwarded. -/
theorem made_nextPatch (live : LiveDocument) (s : Surroundings) (change : Json) (sink : Sink) :
    (made live s change).cycleEnd.around.nextPatch sink = s.nextPatch sink := by
  rw [Surroundings.nextPatch, made_outbox]
  rfl

/-- What is posted if there is nothing to forward. -/
theorem made_posting (live : LiveDocument) (s : Surroundings) (change : Json)
    (m : OutboundMessage) :
    ((made live s change).cycleEnd.around.posting m).outbox.posted = s.outbox.posted ++ [m] := by
  show (made live s change).cycleEnd.around.outbox.posted ++ _ = _
  rw [made_outbox]

/-- What is posted if the changes are forwarded. -/
theorem made_forwarding (live : LiveDocument) (s : Surroundings) (change : Json) (sink : Sink)
    (forwarded : Json) (buffers : List Bytes) (m : OutboundMessage) :
    (((made live s change).cycleEnd.around.forwarding sink forwarded buffers).posting
        m).outbox.posted
      = s.outbox.posted
        ++ [.patch forwarded buffers (Outbox.patchId (s.nextPatch sink)), m] := by
  show ((made live s change).cycleEnd.around.outbox.posted ++ [_]) ++ [_] = _
  rw [made_outbox, made_nextPatch, List.append_assoc]
  rfl

/-- Behind an applied patch the document has the patched content, and the queue holds what the
    patch has told, all of it the host's own. -/
theorem made_patched {r : Relay} {s : Surroundings} {live : LiveDocument} (h : r.Serves s live)
    {change : Json} {c : Content} (applied : live.document.content.applied change = .ok c) :
    (made live s change).live.document.content = c ∧
      ∃ told : List Event, (made live s change).live.queue
        = told.map fun event => (event, Origin.host) := by
  obtain ⟨events, told, -, happ, -⟩ := Document.applyPatch_of_ok applied
  have hperform : live.document.perform (.applyPatch change .host)
      = (.ok .done, live.document.withContent c, told) := by
    rw [Document.perform, happ]
  refine ⟨?_, told, ?_⟩
  · show (live.document.perform (.applyPatch change .host)).2.1.content = c
    rw [hperform]
    rfl
  · show live.queue ++ (live.document.perform (.applyPatch change .host)).2.2.map _ = _
    rw [hperform, h.reachable.atRest.1]
    rfl

/-- Behind a refused patch there is nothing to deal with. -/
theorem made_refused {r : Relay} {s : Surroundings} {live : LiveDocument} (h : r.Serves s live)
    {change : Json} {fault : Fault} (refused : live.document.content.applied change = .error fault) :
    (made live s change).live.queue = [] := by
  show live.queue ++ (live.document.perform (.applyPatch change .host)).2.2.map _ = []
  rw [h.reachable.atRest.1, Document.perform, Document.applyPatch_of_error refused]
  rfl

/-- A patch is made on the document of the relay, which is linked if the relay is. -/
theorem made_isLinked {r : Relay} {s : Surroundings} {live : LiveDocument} (h : r.Serves s live)
    (hl : r.isLinked = true) (change : Json) : (made live s change).live.isLinked = true := by
  show live.link.isSome = true
  rw [h.link, if_pos hl]
  rfl

/-- What can become of the text of a patch, acknowledgement aside. -/
inductive PatchTurn (r : Relay) (s : Surroundings) (live : LiveDocument) (text : String) :
    Except Fault Unit × Relay × Surroundings → Prop where
  /-- The patch is refused, and nothing is done. -/
  | refused {fault : Fault} (refused : live.document.content.patched text = .error fault) :
    PatchTurn r s live text (.error fault, r, s)
  /-- The patch is applied, and there is nothing to forward. -/
  | quiet {change : Json} {c : Content} (read : readPatch text = .ok change)
    (applied : live.document.content.applied change = .ok c)
    (nothing : r.isLinked = false ∨ (made live s change).cycleEvents = []) :
    PatchTurn r s live text
      (.ok (), r.holding (made live s change).cycleEnd.live, (made live s change).cycleEnd.around)
  /-- The patch is applied, and the changes of the application are forwarded. -/
  | forwarded {change : Json} {c : Content} (read : readPatch text = .ok change)
    (applied : live.document.content.applied change = .ok c) (linked : r.isLinked = true)
    (changes : (made live s change).cycleEvents ≠ []) :
    PatchTurn r s live text
      (.ok (), r.holding (made live s change).cycleEnd.live,
        (made live s change).cycleEnd.around.forwarding r.engine.sink
          (Patch.toJson (made live s change).cycleEvents)
          ((made live s change).cycleEnd.live.document.referencedBuffers
            (made live s change).cycleEvents))

/-- An engine applies a patch to its document. -/
theorem applyPatch_eq {e : Engine} {live : LiveDocument} (h : e.document = some live)
    (change : Json) (s : Surroundings) :
    e.applyPatch change s =
      let after := Scene.perform ⟨live, s⟩ (.applyPatch change .host)
      (after.1.map fun _ => (), { e with document := some after.2.live }, after.2.around) := by
  unfold Engine.applyPatch
  rw [h]

/-- What a relay can do with the text of a patch: nothing, as it is no patch or there is no document,
    or an operation of the host. -/
inductive Undertaken (r : Relay) (text : String) : Prop where
  | refused {fault : Fault} (listening : fault.isClosed = false)
    (refuses : ∀ s, r.onPatch text s = (.error fault, r, s))
  | performed {change : Json} {live : LiveDocument} (read : readPatch text = .ok change)
    (document : r.engine.document = some live)
    (performs : ∀ s, r.onPatch text s =
      let after := Scene.perform ⟨live, s⟩ (.applyPatch change .host)
      (after.1.map fun _ => (), r.holding after.2.live, after.2.around))

/-- **Inversion.** A relay does one of these things, whatever is around it. -/
theorem undertaken (r : Relay) (text : String) : r.Undertaken text := by
  cases hread : readPatch text with
  | error cause =>
    have hfault : (Fault.badPatch cause).isClosed = false := rfl
    refine .refused hfault fun s => ?_
    rw [onPatch, hread]
  | ok change =>
    cases hd : r.engine.document with
    | none =>
      have hfault : Engine.noDocument.isClosed = false := rfl
      refine .refused hfault fun s => ?_
      rw [onPatch, hread]
      dsimp only
      rw [Engine.applyPatch, hd]
    | some live =>
      refine .performed hread hd fun s => ?_
      rw [onPatch, hread]
      dsimp only
      rw [applyPatch_eq hd]
      rfl

/-- **Patch.** A patch is refused as a whole, or applied with all that follows from it. -/
theorem onPatch_turn {r : Relay} {s : Surroundings} {live : LiveDocument} (h : r.Serves s live)
    (text : String) : PatchTurn r s live text (r.onPatch text s) := by
  unfold onPatch
  cases hread : readPatch text with
  | error cause =>
    refine .refused ?_
    rw [Content.patched, hread]
  | ok change =>
    dsimp only
    rw [applyPatch_eq h.document]
    cases hc : live.document.content.applied change with
    | error fault =>
      have hop : live.document.perform (.applyPatch change .host)
          = (.error fault, live.document, []) := by
        rw [Document.perform, Document.applyPatch_of_error hc]
      have hperform : Scene.perform ⟨live, s⟩ (.applyPatch change .host)
          = (.error fault, ⟨live, s⟩) := by
        rw [Scene.perform_idle h.reachable (by rw [hop]), hop]
      rw [hperform]
      show PatchTurn r s live text (.error fault, r.holding live, s)
      rw [holding_self h.document]
      refine .refused ?_
      rw [Content.patched, hread]
      exact hc
    | ok c =>
      obtain ⟨events, told, -, happ, -⟩ := Document.applyPatch_of_ok hc
      have hreply : (Scene.enqueue ⟨live, s⟩ (.applyPatch change .host)).1 = .ok .done := by
        show (live.document.perform (.applyPatch change .host)).1 = _
        rw [Document.perform, happ]
      rw [Scene.perform_atRest h.reachable, hreply]
      show PatchTurn r s live text (.ok (), r.holding (made live s change).dispatch.live,
        (made live s change).dispatch.around)
      rw [Scene.dispatch_eq, Scene.forward_live]
      have hlink : (made live s change).cycleEnd.live.link
          = if r.isLinked then some r.engine.sink else none :=
        (Scene.cycleEnd_link _).trans h.link
      -- The cycle ends by a patch if there is somebody to send it to and something to send.
      by_cases hnothing : r.isLinked = false ∨ (made live s change).cycleEvents = []
      · have hforward : (made live s change).cycleEnd.forward (made live s change).cycleEvents
            = (made live s change).cycleEnd := by
          rcases hnothing with hno | hno
          · exact Scene.forward_unlinked (by rw [hlink, hno]; rfl) _
          · rw [hno, Scene.forward_nil]
        rw [hforward]
        exact .quiet hread hc hnothing
      · obtain ⟨hlinked, hchanges⟩ := not_or.mp hnothing
        have hlinked : r.isLinked = true := Bool.not_eq_false _ ▸ hlinked
        rw [Scene.forward_linked (by rw [hlink, hlinked]; rfl)
          (by rw [made_outbox]; exact h.isOpen) (by rw [made_outbox]; exact h.isRendered) hchanges]
        exact .forwarded hread hc hlinked hchanges

/-- The relay still serves behind an applied patch. -/
theorem Serves.made {r : Relay} {s : Surroundings} {live : LiveDocument} (h : r.Serves s live)
    (change : Json) :
    (r.holding (made live s change).cycleEnd.live).Serves (made live s change).cycleEnd.around
      (made live s change).cycleEnd.live := by
  refine ⟨rfl, ?_, (Scene.cycleEnd_link _).trans h.link, ?_, ?_, ?_⟩
  · have hperform := h.reachable.perform (s := ⟨live, s⟩) (.applyPatch change .host)
    rw [Scene.perform_atRest h.reachable, Scene.dispatch_eq, Scene.forward_live] at hperform
    exact hperform
  · rw [made_outbox]
    exact h.isOpen
  · rw [made_outbox]
    exact h.isRendered
  · rw [made_outbox]
    exact h.known

/-- The relay still serves when a message was posted. -/
theorem Serves.posting {r : Relay} {s : Surroundings} {live : LiveDocument} (h : r.Serves s live)
    (m : OutboundMessage) : r.Serves (s.posting m) live :=
  ⟨h.document, h.reachable, h.link, h.isOpen, h.isRendered, h.known⟩

/-- The relay still serves when a patch was forwarded. -/
theorem Serves.forwarding {r : Relay} {s : Surroundings} {live : LiveDocument}
    (h : r.Serves s live) (sink : Sink) (change : Json) (buffers : List Bytes) :
    r.Serves (s.forwarding sink change buffers) live := by
  refine ⟨h.document, h.reachable, h.link, h.isOpen, h.isRendered, ?_⟩
  show _ < (s.outbox.counters.set _ _).length
  rw [List.length_set]
  exact h.known

/-- The relay still serves when something was told. -/
theorem Serves.notify {r : Relay} {s : Surroundings} {live : LiveDocument} (h : r.Serves s live)
    (n : Notice) : r.Serves (s.notify n) live :=
  ⟨h.document, h.reachable, h.link, h.isOpen, h.isRendered, h.known⟩

/-- A patch is acknowledged behind what it has led to, if somebody listens then. -/
theorem handle_patch_of_isOpen {r : Relay} {s : Surroundings} {text : String}
    (h : (r.onPatch text s).2.2.outbox.isOpen = true) :
    r.handle (.patch text) s
      = ((r.onPatch text s).1, (r.onPatch text s).2.1, (r.onPatch text s).2.2.posting .idle) := by
  have hidle : (r.onPatch text s).2.2.outbox.idle = _ := Outbox.post_of_isOpen h .idle
  rw [handle]
  dsimp only
  rw [hidle]
  rfl

/-- A patch is acknowledged when it has been dealt with. -/
theorem handle_patch {r : Relay} {s : Surroundings} {live : LiveDocument} (h : r.Serves s live)
    (text : String) :
    r.handle (.patch text) s
      = ((r.onPatch text s).1, (r.onPatch text s).2.1, (r.onPatch text s).2.2.posting .idle) := by
  -- Whatever became of the patch, somebody still listens for the acknowledgement.
  have hopen : (r.onPatch text s).2.2.outbox.isOpen = true := by
    generalize hresult : r.onPatch text s = result
    cases hresult ▸ onPatch_turn h text with
    | refused => exact h.isOpen
    | @quiet change => exact (h.made change).isOpen
    | @forwarded change => exact (h.made change).isOpen
  exact handle_patch_of_isOpen hopen

/-! ### The other messages -/

/-- The relay with its document linked. -/
def linking (r : Relay) (live : LiveDocument) : Relay :=
  ⟨{ r.engine with document := some (live.linkTo r.engine.sink) }, true⟩

/-- The relay still serves when the document was linked. -/
theorem Serves.linking {r : Relay} {s : Surroundings} {live : LiveDocument} (h : r.Serves s live) :
    (r.linking live).Serves s (live.linkTo r.engine.sink) :=
  ⟨rfl, h.reachable.link _, rfl, h.isOpen, h.isRendered, h.known⟩

/-- The first word of a rendering links the document. -/
theorem handle_rendered {r : Relay} {s : Surroundings} {live : LiveDocument}
    (h : r.Serves s live) :
    r.handle .rendered s =
      if r.isLinked then (.ok (), r, s.notify .renderedAgain)
      else (.ok (), r.linking live, s) := by
  rw [handle, onRendered]
  split
  · rfl
  · unfold Engine.link
    rw [h.document]
    rfl

/-- The relay of a document with another location. -/
def relocated (r : Relay) (live : LiveDocument) (l : Option Location) : Relay :=
  r.holding { live with document := { live.document with location := l } }

/-- The relay still serves when the document has another location. -/
theorem Serves.relocated {r : Relay} {s : Surroundings} {live : LiveDocument} (h : r.Serves s live)
    (l : Option Location) :
    (r.relocated live l).Serves s
      { live with document := { live.document with location := l } } :=
  ⟨rfl, h.reachable.relocate l, h.link, h.isOpen, h.isRendered, h.known⟩

/-- What a text makes of the location of a document, and why if it makes nothing of it. -/
def relocation (text : String) (place : Option Location) : Except Fault Unit × Option Location :=
  match Json.readTable text with
  | .error fault => (.error (.location (.notObject fault)), place)
  | .ok update =>
    match place with
    | none => (.ok (), none)
    | some l =>
      match l.merge update with
      | (.ok _, after) => (.ok (), some after)
      | (.error fault, after) => (.error (.location fault), some after)

/-- A failure to make anything of a location does not end a relay. -/
theorem isClosed_of_relocation {text : String} {place : Option Location} {fault : Fault}
    (h : (relocation text place).1 = .error fault) : fault.isClosed = false := by
  unfold relocation at h
  cases hread : Json.readTable text with
  | error cause =>
    rw [hread] at h
    cases h
    rfl
  | ok update =>
    rw [hread] at h
    cases place with
    | none => cases h
    | some l =>
      dsimp only at h
      -- Nothing but the merge can fail here.
      split at h
      · cases h
      · cases h
        rfl

/-- With the location that it has, a document is the same. -/
theorem relocated_self {r : Relay} {live : LiveDocument} (h : r.engine.document = some live) :
    r.relocated live live.document.location = r :=
  holding_self h

/-- A location is merged into that of the document, and everything else is left as it is. -/
theorem onLocation_eq {r : Relay} {live : LiveDocument} (h : r.engine.document = some live)
    (text : String) :
    r.onLocation text
      = ((relocation text live.document.location).1,
        r.relocated live (relocation text live.document.location).2) := by
  rw [onLocation, relocation]
  cases hread : Json.readTable text with
  | error fault =>
    dsimp only
    rw [relocated_self h]
  | ok update =>
    unfold Engine.updateLocation Document.mergeLocation
    rw [h]
    dsimp only
    -- A document without a location drops the update.
    cases hl : live.document.location with
    | none =>
      show (Except.ok (), r.holding live) = (Except.ok (), r.relocated live none)
      rw [holding_self h, ← hl, relocated_self h]
    | some l =>
      dsimp only
      cases hm : l.merge update with
      | mk reply after => cases reply <;> rfl

/-- **Location.** A relay with a document merges the location into it, and nothing else happens. -/
theorem handle_location {r : Relay} {live : LiveDocument} (h : r.engine.document = some live)
    (text : String) (s : Surroundings) :
    r.handle (.location text) s
      = ((relocation text live.document.location).1,
        r.relocated live (relocation text live.document.location).2, s) := by
  rw [handle, onLocation_eq h]

/-! ### The turn as a whole -/

/-- A turn is what its message leads to, with another notice perhaps. -/
theorem turn_eq (now : Relay × Surroundings) (m : InboundMessage) :
    ∃ notices, turn now m
      = ((now.1.handle m now.2).2.1, { (now.1.handle m now.2).2.2 with notices := notices }) := by
  unfold turn
  generalize now.1.handle m now.2 = result
  obtain ⟨reply, r, s⟩ := result
  cases reply <;> exact ⟨_, rfl⟩

/-- The relay of a turn is that of the message. -/
theorem turn_fst (now : Relay × Surroundings) (m : InboundMessage) :
    (turn now m).1 = (now.1.handle m now.2).2.1 := by
  obtain ⟨notices, h⟩ := turn_eq now m
  rw [h]

/-- What is told of a failure is not posted. -/
theorem turn_outbox (now : Relay × Surroundings) (m : InboundMessage) :
    (turn now m).2.outbox = (now.1.handle m now.2).2.2.outbox := by
  obtain ⟨notices, h⟩ := turn_eq now m
  rw [h]

/-- What is told of a failure is not noted. -/
theorem turn_notes (now : Relay × Surroundings) (m : InboundMessage) :
    (turn now m).2.notes = (now.1.handle m now.2).2.2.notes := by
  obtain ⟨notices, h⟩ := turn_eq now m
  rw [h]

/-- What is posted in a turn is what its message posts. -/
theorem turn_posted {r after : Relay} {s around : Surroundings} {m : InboundMessage}
    {reply : Except Fault Unit} (hh : r.handle m s = (reply, after, around)) :
    (Relay.turn (r, s) m).2.outbox.posted = around.outbox.posted := by
  rw [turn_outbox, hh]

/-- The relay serves behind a turn as it does behind its message. -/
theorem Serves.turn {r after : Relay} {s around : Surroundings} {m : InboundMessage}
    {reply : Except Fault Unit} {live : LiveDocument} (hs : after.Serves around live)
    (hh : r.handle m s = (reply, after, around)) :
    (Relay.turn (r, s) m).1.Serves (Relay.turn (r, s) m).2 live := by
  have hrelay : (Relay.turn (r, s) m).1 = after := by rw [turn_fst, hh]
  have hbox : (Relay.turn (r, s) m).2.outbox = around.outbox := by rw [turn_outbox, hh]
  rw [hrelay]
  exact ⟨hs.document, hs.reachable, hs.link, hbox ▸ hs.isOpen, hbox ▸ hs.isRendered,
    hbox ▸ hs.known⟩

/-- The first word of a rendering links the document, and changes nothing else. -/
theorem turn_rendered {r : Relay} {s : Surroundings} {live : LiveDocument} (h : r.Serves s live) :
    ∃ after, (turn (r, s) .rendered).1.Serves (turn (r, s) .rendered).2 after ∧
      (turn (r, s) .rendered).1.isLinked = true ∧
      (turn (r, s) .rendered).2.outbox.posted = s.outbox.posted ∧
      after.document = live.document ∧ after.watchers = live.watchers := by
  have hh := handle_rendered h
  cases hl : r.isLinked with
  | true =>
    rw [hl, if_pos rfl] at hh
    refine ⟨live, (h.notify _).turn hh, ?_, ?_, rfl, rfl⟩
    · rw [turn_fst, hh]
      exact hl
    · rw [turn_outbox, hh]
      rfl
  | false =>
    rw [hl, if_neg Bool.false_ne_true] at hh
    refine ⟨_, h.linking.turn hh, ?_, ?_, rfl, rfl⟩
    · rw [turn_fst, hh]
      rfl
    · rw [turn_outbox, hh]

/-- A location changes nothing of the content. -/
theorem turn_location {r : Relay} {s : Surroundings} {live : LiveDocument} (h : r.Serves s live)
    (text : String) :
    ∃ after, (turn (r, s) (.location text)).1.Serves
        (turn (r, s) (.location text)).2 after ∧
      (turn (r, s) (.location text)).1.isLinked = r.isLinked ∧
      (turn (r, s) (.location text)).2.outbox.posted = s.outbox.posted ∧
      after.document.content = live.document.content ∧ after.watchers = live.watchers := by
  have hh := handle_location h.document text s
  refine ⟨_, (h.relocated _).turn hh, ?_, ?_, rfl, rfl⟩
  · rw [turn_fst, hh]
    rfl
  · rw [turn_outbox, hh]

end Relay

end DocRelay
