import DocRelay.Proofs.Document.Buffers
import DocRelay.Proofs.Json.RoundTrip
import DocRelay.Proofs.Relay.Known

namespace DocRelay

/-!
# Binary data on its way to the host

The bytes of a buffer travel in the patch that refers to it, if there is one.

* `Relay.TurnCalls` — the operations that watchers perform while a relay deals with a patch;
* `Relay.turn_binary` — one turn; `Relay.binary_forwarded` — in a run, the bytes that a watcher
  sets are forwarded in the turn in which it sets them;
* `Relay.picture_lost` — the bytes that an application sets while it is built are not;
* `Relay.foreseen_lost` — nor are those that a watcher sets where the attribute refers to their
  buffer already.
-/

namespace Relay

/-- Watchers perform the operation in a scene while the relay deals with the text of a patch. -/
def TurnCalls (now : Relay × Surroundings) (text : String) (op : Operation) (t : Scene) : Prop :=
  ∃ live change, now.1.engine.document = some live ∧ readPatch text = .ok change ∧
    Scene.CycleCalls cycleLimit (made live now.2 change).begin op t

/-- **Turn.** Binary data that a watcher sets in the name of the application, and that changes the
    attribute, is forwarded in the same turn: one patch refers to a new buffer, and its bytes are
    among those that the patch carries. -/
theorem turn_binary {r : Relay} {s : Surroundings} {live : LiveDocument} (h : r.Serves s live)
    (hl : r.isLinked = true) {text id attr : String} {data : Bytes} {t : Scene}
    (called : TurnCalls (r, s) text (.setBinary id attr data .runtime) t)
    (changed : (t.live.document.perform (.setBinary id attr data .runtime)).2.2 ≠ []) :
    ∃ name change buffers n,
      (t.live.document.perform (.setBinary id attr data .runtime)).1 = .ok (.made name) ∧
      posts (r, s) (.patch text) = [.patch change buffers n, .idle] ∧
      .modelChanged id attr (Event.bufferReference name) ∈ Patch.events change ∧
      data ∈ buffers := by
  obtain ⟨same, change, hdocument, hread, hcalls⟩ := called
  obtain rfl := Option.some.inj (h.document.symm.trans hdocument)
  obtain ⟨name, hreply, hmem, hfound⟩ := hcalls.setBinary_carried changed
  cases turn_answered h text with
  | @refused fault refused =>
    have hrefused : live.document.content.applied change = .error fault := by
      rw [Content.patched, hread] at refused
      exact refused
    exact absurd (made_refused h hrefused) hcalls.queue_ne_nil
  | quiet read applied nothing =>
    obtain rfl := Except.ok.inj (hread.symm.trans read)
    -- The relay is linked, so there was nothing to forward because nothing was changed.
    have hnone := nothing.resolve_left (by rw [hl]; exact Bool.noConfusion)
    exact absurd (hnone ▸ hmem) List.not_mem_nil
  | forwarded read applied linked changes reply posted =>
    obtain rfl := Except.ok.inj (hread.symm.trans read)
    obtain ⟨-, told, hqueue⟩ := made_patched h applied
    refine ⟨name, _, _, _, hreply, posted, ?_, Document.mem_referencedBuffers hmem hfound⟩
    rw [Patch.events, Patch.decode_toJson (Scene.cycle_tidy hqueue)]
    exact hmem

/-- **Binary data.** In a run of a relay that a setup has made, let a watcher set binary data in
    the name of the application, while the relay deals with a patch behind the first word of a
    rendering.  If that changes the attribute, then the answer to the patch is one patch and its
    acknowledgement: the patch sets the attribute to a reference to a new buffer, and carries the
    bytes. -/
theorem binary_forwarded {l : Loader} {st after : Setup} {relay : Relay}
    (h : st.bootstrap l = (.ok relay, after)) {messages : List InboundMessage} {i : Nat}
    {text id attr : String} {data : Bytes} {t : Scene} (hm : messages[i]? = some (.patch text))
    (painted : .rendered ∈ messages.take i) :
    let start := (relay, after.around)
    TurnCalls (before start messages i) text (.setBinary id attr data .runtime) t →
    (t.live.document.perform (.setBinary id attr data .runtime)).2.2 ≠ [] →
    ∃ name change buffers n,
      (t.live.document.perform (.setBinary id attr data .runtime)).1 = .ok (.made name) ∧
      (answers start messages)[i]? = some [.patch change buffers n, .idle] ∧
      .modelChanged id attr (Event.bufferReference name) ∈ Patch.events change ∧
      data ∈ buffers := by
  intro start called changed
  obtain ⟨live, hserves, -, -, -⟩ := Setup.serves_of_bootstrap h
  -- The relay serves before the patch, and is linked by then.
  obtain ⟨⟨here, hhere⟩, -, hlinked⟩ := foldl_turned hserves (messages.take i)
  obtain ⟨name, change, buffers, n, hreply, hposts, hmem, hdata⟩ :=
    turn_binary hhere (hlinked.mpr (.inr painted)) called changed
  refine ⟨name, change, buffers, n, hreply, ?_, hmem, hdata⟩
  rw [getElem?_answers start hm]
  exact congrArg some hposts

end Relay

/-! ### An application with a picture -/

/-- A watcher that puts bytes into the picture when the slider is moved. -/
def Watcher.drawing : Watcher :=
  ⟨"m1", "value", .null, fun _ _ =>
    .perform (.setBinary "m2" "data" [4, 5] .runtime) fun _ => .finish .done .null⟩

/-- An application with a slider and a picture, whose first bytes are set while it is built. -/
def Application.picture : Application :=
  ⟨fun _ =>
    .perform (.addRoot "Slider" [] .runtime) fun _ =>
      .perform (.addRoot "Image" [] .runtime) fun _ =>
        .perform (.setBinary "m2" "data" [1, 2, 3] .runtime) fun _ =>
          .watch Watcher.drawing.id Watcher.drawing.attr Watcher.drawing.memory
            Watcher.drawing.body (.finish .done .null)⟩

/-- The relay of the application. -/
def Relay.picture : Relay := .running .picture

/-- The setup with the application run. -/
def Setup.picture : Setup := .running .picture

/-- The application can be set up. -/
theorem Setup.bootstrap_picture :
    Setup.slider.bootstrap (.running .picture) = (.ok .picture, .picture) := rfl

/-- The document of the application, linked, before and behind a change of the slider. -/
def LiveDocument.picture (attributes : Table Json) (queue : Queue) : LiveDocument :=
  ⟨⟨"doc-1", "", ["m1", "m2"],
      [("m1", ⟨"m1", "Slider", attributes⟩),
        ("m2", ⟨"m2", "Image", [("data", Event.bufferReference "buf-3")]⟩)],
      [("buf-3", [1, 2, 3])], none, 4⟩,
    [.drawing], some ⟨0⟩, queue, false⟩

namespace Relay

/-- A patch that is written as an object is read back in canonical form. -/
theorem readPatch_compact {members : List (String × Json)}
    (h : Json.IsPortable Json.depthLimit (.obj members)) :
    readPatch (Json.obj members).compact = .ok (Json.obj members).canonical := by
  have hblank : Text.isBlankText (Json.obj members).compact = false := by
    rw [Text.isBlankText, Json.compact, String.toList_ofList, Json.render]
    rfl
  rw [readPatch, hblank, Json.read, Json.readWithin_compact h]
  rfl

/-- **The text of a patch** is read back, if a text carries its events. -/
theorem readPatch_toJson {events : List Event} (tidy : ∀ event ∈ events, event.IsTidy)
    (portable : ∀ event ∈ events, Json.IsPortable (Json.depthLimit - 2) event.toJson) :
    readPatch (Patch.toJson events).compact = .ok (Patch.toJson events) := by
  have hpatch : Json.IsPortable Json.depthLimit (Patch.toJson events) := by
    intro member hmember
    obtain rfl := List.mem_singleton.mp hmember
    intro item hitem
    obtain ⟨event, he, rfl⟩ := List.mem_map.mp hitem
    exact portable event he
  exact (readPatch_compact hpatch).trans (congrArg Except.ok (Patch.isCanonical_toJson tidy))

/-- A text carries the change of an attribute to an integer of 64 bits. -/
theorem isPortable_modelChanged {n : Int} (h : Json.IsWord n) (id attr : String) :
    Json.IsPortable (Json.depthLimit - 2) (Event.modelChanged id attr (.int n)).toJson := by
  simp [Json.IsPortable, Json.depthLimit, Event.toJson, Model.reference, h]

/-- The patch that moves the slider. -/
def sliderMove : Event := .modelChanged "m1" "value" (.int 7)

/-- Its text. -/
def sliderMoveText : String := (Patch.toJson [sliderMove]).compact

/-- Its value is in canonical form. -/
theorem sliderMove_isTidy : ∀ event ∈ [sliderMove], event.IsTidy := by
  intro event he
  obtain rfl := List.mem_singleton.mp he
  rfl

/-- The text is read back. -/
theorem readPatch_sliderMove : readPatch sliderMoveText = .ok (Patch.toJson [sliderMove]) := by
  refine readPatch_toJson sliderMove_isTidy fun event he => ?_
  obtain rfl := List.mem_singleton.mp he
  exact isPortable_modelChanged (by decide) _ _

/-- A host that paints the slider and moves it. -/
def drawingMessages : List InboundMessage := [.rendered, .patch sliderMoveText]

/-- The relay of the application before the slider is moved. -/
def pictureLinked : Relay × Surroundings :=
  before (picture, Setup.picture.around) drawingMessages 1

/-- The scene in which the slider was just moved. -/
theorem made_sliderMove (s : Surroundings) :
    made (.picture [] []) s (Patch.toJson [sliderMove])
      = ⟨.picture [("value", .int 7)] [(sliderMove, .host)], s⟩ := by
  have hdecode := Patch.decode_toJson sliderMove_isTidy
  unfold made Scene.enqueue
  rw [Document.perform, Document.applyPatch, hdecode]
  rfl

/-- The scene in which the watcher sets other bytes. -/
def drawn : Scene :=
  ⟨{ LiveDocument.picture [("value", .int 7)] [] with watchers := [], dispatching := true },
    pictureLinked.2⟩

/-- The watcher sets them while the relay deals with the move. -/
theorem drawn_called :
    TurnCalls pictureLinked sliderMoveText (.setBinary "m2" "data" [4, 5] .runtime) drawn := by
  refine ⟨.picture [] [], _, rfl, readPatch_sliderMove, ?_⟩
  rw [made_sliderMove]
  exact .inside rfl (.inside ⟨rfl, rfl⟩ .here)

/-- The bytes that the watcher sets are forwarded. -/
theorem binary_forwarded_picture :
    Setup.slider.bootstrap (.running .picture) = (.ok picture, .picture) ∧
    drawingMessages[1]? = some (.patch sliderMoveText) ∧
    .rendered ∈ drawingMessages.take 1 ∧
    TurnCalls pictureLinked sliderMoveText (.setBinary "m2" "data" [4, 5] .runtime) drawn ∧
    (drawn.live.document.perform (.setBinary "m2" "data" [4, 5] .runtime)).2.2 ≠ [] ∧
    ∃ name change buffers n,
      (drawn.live.document.perform (.setBinary "m2" "data" [4, 5] .runtime)).1
        = .ok (.made name) ∧
      (answers (picture, Setup.picture.around) drawingMessages)[1]?
        = some [.patch change buffers n, .idle] ∧
      .modelChanged "m2" "data" (Event.bufferReference name) ∈ Patch.events change ∧
      [4, 5] ∈ buffers := by
  have hm : drawingMessages[1]? = some (.patch sliderMoveText) := rfl
  have painted : .rendered ∈ drawingMessages.take 1 := List.mem_cons_self
  have changed :
      (drawn.live.document.perform (.setBinary "m2" "data" [4, 5] .runtime)).2.2 ≠ [] := by
    have told : (drawn.live.document.perform (.setBinary "m2" "data" [4, 5] .runtime)).2.2
        = [.modelChanged "m2" "data" (Event.bufferReference "buf-4")] := by rfl
    rw [told]
    exact List.cons_ne_nil _ _
  exact ⟨Setup.bootstrap_picture, hm, painted, drawn_called, changed,
    binary_forwarded Setup.bootstrap_picture hm painted drawn_called changed⟩

/-- A host that paints the slider and asks for nothing. -/
def idleMessages : List InboundMessage := [.rendered, .patch "\x7b\x7d"]

/-- **Bytes that are lost.** The application sets binary data in its own name while it is built.
    When a patch of the host is acknowledged, the attribute still refers to the buffer, which has
    the bytes, but no patch was ever posted that could carry them. -/
theorem picture_lost :
    let context := ⟨Setup.slider.worker.manifest.application, .empty⟩
    let blank : Scene := ⟨.ofDocument (Engine.blankDocument context.descriptor 1), .empty⟩
    let last := idleMessages.foldl turn (picture, Setup.picture.around)
    (∃ t, (Application.picture.build context).Calls (fun op s => s.perform op) blank
        (.setBinary "m2" "data" [1, 2, 3] .runtime) t ∧
      (t.perform (.setBinary "m2" "data" [1, 2, 3] .runtime)).1 = .ok (.made "buf-3")) ∧
    last.2.outbox.posted.map (·.kind) = ["status", "status", "render", "idle"] ∧
    ∃ live, last.1.engine.document = some live ∧
      live.document.attr? "m2" "data" = some (Event.bufferReference "buf-3") ∧
      live.document.buffer? "buf-3" = some [1, 2, 3] := by
  refine ⟨⟨_, .perform (.perform .here), by rfl⟩, by decide +kernel, .picture [] [], by rfl, rfl, rfl⟩

end Relay

/-! ### A reference to the next buffer -/

/-- The document of the application with a patch of the host in which the picture refers to the
    buffer that is made next, and the buffers that there are by now. -/
def Document.foreseen (buffers : Table Bytes) (nextId : Nat) : Document :=
  ⟨"doc-1", "", ["m1", "m2"],
    [("m1", ⟨"m1", "Slider", [("value", .int 7)]⟩),
      ("m2", ⟨"m2", "Image", [("data", Event.bufferReference "buf-4")]⟩)],
    buffers, none, nextId⟩

/-- The document when the watcher has not acted yet. -/
def Document.undrawn : Document := .foreseen [("buf-3", [1, 2, 3])] 4

/-- The document when the watcher has acted. -/
def Document.redrawn : Document := .foreseen [("buf-3", [1, 2, 3]), ("buf-4", [4, 5])] 5

namespace Relay

/-- The patch in which a host sets the picture to a reference to the buffer that is made next, and
    moves the slider. -/
def foreseen : List Event :=
  [.modelChanged "m2" "data" (Event.bufferReference "buf-4"), sliderMove]

/-- Its text. -/
def foreseenText : String := (Patch.toJson foreseen).compact

/-- A host that paints the slider and sends the patch. -/
def foreseenMessages : List InboundMessage := [.rendered, .patch foreseenText]

/-- Its values are in canonical form. -/
theorem foreseen_isTidy : ∀ event ∈ foreseen, event.IsTidy :=
  List.forall_mem_cons.mpr ⟨rfl, sliderMove_isTidy⟩

/-- The text is read back. -/
theorem readPatch_foreseen : readPatch foreseenText = .ok (Patch.toJson foreseen) := by
  refine readPatch_toJson foreseen_isTidy (List.forall_mem_cons.mpr
    ⟨?_, List.forall_mem_singleton.mpr (isPortable_modelChanged (by decide) _ _)⟩)
  simp [Json.IsPortable, Json.depthLimit, Event.toJson, Model.reference, Event.bufferReference]

/-- The scene in which the patch was just made. -/
theorem made_foreseen (s : Surroundings) :
    made (.picture [] []) s (Patch.toJson foreseen)
      = ⟨⟨.undrawn, [.drawing], some ⟨0⟩, foreseen.map fun event => (event, .host), false⟩,
        s⟩ := by
  unfold made Scene.enqueue
  rw [Document.perform, Document.applyPatch, Patch.decode_toJson foreseen_isTidy]
  rfl

/-- The picture refers to the buffer in which the bytes are put, so nothing is told. -/
theorem perform_undrawn :
    Document.perform .undrawn (.setBinary "m2" "data" [4, 5] .runtime)
      = (.ok (.made "buf-4"), .redrawn, []) := by
  have hset : Document.setBinary .undrawn "m2" "data" [4, 5] = .ok ("buf-4", .redrawn, []) := rfl
  rw [Document.perform, hset]

/-- The watcher acts, but nothing of it is to be forwarded. -/
theorem deliver_foreseen (s : Surroundings) :
    (made (.picture [] []) s (Patch.toJson foreseen)).begin.deliver cycleLimit
      = ([], ⟨⟨.redrawn, [.drawing], some ⟨0⟩, [], true⟩, s⟩) := by
  have hpicture : Scene.react ⟨⟨.undrawn, [.drawing], some ⟨0⟩, [(sliderMove, .host)], true⟩, s⟩
      (.modelChanged "m2" "data" (Event.bufferReference "buf-4"))
        = ⟨⟨.undrawn, [.drawing], some ⟨0⟩, [(sliderMove, .host)], true⟩, s⟩ := rfl
  have hacts : Scene.enqueue ⟨⟨.undrawn, [], some ⟨0⟩, [], true⟩, s⟩
      (.setBinary "m2" "data" [4, 5] .runtime)
        = (.ok (.made "buf-4"), ⟨⟨.redrawn, [], some ⟨0⟩, [], true⟩, s⟩) := by
    rw [Scene.enqueue, perform_undrawn]
    rfl
  have hslider : Scene.react ⟨⟨.undrawn, [.drawing], some ⟨0⟩, [], true⟩, s⟩ sliderMove
      = ⟨⟨.redrawn, [.drawing], some ⟨0⟩, [], true⟩, s⟩ := by
    simp only [sliderMove, Scene.react, Scene.runWatchers, Scene.runEach, Scene.runWatcher,
      Watcher.drawing, Script.run, hacts]
    rfl
  have hevents : (foreseen.map fun event => (event, Origin.host))
      = [(.modelChanged "m2" "data" (Event.bufferReference "buf-4"), .host),
        (sliderMove, .host)] := rfl
  rw [made_foreseen, hevents, Scene.begin, show cycleLimit = 1022 + 2 from rfl]
  simp only [Scene.deliver, hpicture, hslider]
  rfl

/-- The watcher sets the bytes while the relay deals with the patch. -/
theorem foreseen_called :
    TurnCalls pictureLinked foreseenText (.setBinary "m2" "data" [4, 5] .runtime)
      ⟨⟨.undrawn, [], some ⟨0⟩, [], true⟩, pictureLinked.2⟩ := by
  refine ⟨.picture [] [], _, rfl, readPatch_foreseen, ?_⟩
  rw [made_foreseen]
  exact .later rfl (.inside rfl (.inside ⟨rfl, rfl⟩ .here))

/-- The patch is acknowledged, and nothing else is posted. -/
theorem turn_foreseen {r : Relay} {s : Surroundings} (h : r.Serves s (.picture [] [])) :
    posts (r, s) (.patch foreseenText) = [.idle] ∧
      ∃ live, (turn (r, s) (.patch foreseenText)).1.engine.document = some live ∧
        live.document = .redrawn := by
  cases turn_answered h foreseenText with
  | refused refused =>
    rw [Content.patched, readPatch_foreseen] at refused
    have hqueue := made_refused h refused
    rw [made_foreseen] at hqueue
    cases hqueue
  | quiet read applied nothing reply posted serves =>
    obtain rfl := Except.ok.inj (readPatch_foreseen.symm.trans read)
    refine ⟨posted, _, serves.document, ?_⟩
    rw [Scene.cycleEnd_live, Scene.cycleLast, deliver_foreseen]
  | forwarded read applied linked changes =>
    obtain rfl := Except.ok.inj (readPatch_foreseen.symm.trans read)
    rw [Scene.cycleEvents, Scene.cycleLast, deliver_foreseen] at changes
    exact absurd rfl changes

/-- **Bytes of a buffer that was foreseen.** Bytes are forwarded only if they change the attribute.
    Here a host sets the picture to a reference to the buffer that is made next, and moves the
    slider.  The watcher sets its bytes, which go into that buffer; but the picture refers to it
    already.  When the patch is acknowledged, no patch was ever posted that could carry the
    bytes. -/
theorem foreseen_lost :
    let last := foreseenMessages.foldl turn (picture, Setup.picture.around)
    (∃ t, TurnCalls pictureLinked foreseenText (.setBinary "m2" "data" [4, 5] .runtime) t ∧
      (t.live.document.perform (.setBinary "m2" "data" [4, 5] .runtime)).1
        = .ok (.made "buf-4")) ∧
    last.2.outbox.posted.map (·.kind) = ["status", "status", "render", "idle"] ∧
    ∃ live, last.1.engine.document = some live ∧
      live.document.attr? "m2" "data" = some (Event.bufferReference "buf-4") ∧
      live.document.buffer? "buf-4" = some [4, 5] := by
  intro last
  obtain ⟨first, hfirst, -, -, -⟩ := Setup.serves_of_bootstrap Setup.bootstrap_picture
  obtain ⟨⟨live, hserves⟩, -, -⟩ := foldl_turned hfirst [.rendered]
  obtain rfl : .picture [] [] = live := Option.some.inj hserves.document
  obtain ⟨hposts, there, hdocument, hredrawn⟩ := turn_foreseen hserves
  have hlast : last = turn ([.rendered].foldl turn (picture, Setup.picture.around))
      (.patch foreseenText) := by
    simp only [last, foreseenMessages, List.foldl_cons, List.foldl_nil]
  have hposted : last.2.outbox.posted = Setup.picture.around.outbox.posted ++ [.idle] := by
    rw [posted_foldl hfirst, foreseenMessages, answers, answers, answers, List.flatten_cons,
      List.flatten_cons]
    exact congrArg _ (congrArg₂ _ (show posts _ _ = [] from rfl) (congrArg (· ++ []) hposts))
  rw [hposted, hlast, hdocument]
  exact ⟨⟨_, foreseen_called, congrArg Prod.fst perform_undrawn⟩, rfl, there, rfl, hredrawn ▸ ⟨rfl, rfl⟩⟩

end Relay

end DocRelay
