import DocRelay.Proofs.Document.Known
import DocRelay.Proofs.Relay.Trace

namespace DocRelay

/-!
# Changes that a host can place

A host that tells of its painting before it sends a patch hears of all changes of the document from
the rendering on.  So it knows every model that a forwarded patch names, as long as the watchers
add no models without a word.

* `Patch.events`, `OutboundMessage.changes` — the events in a message to the host;
* `Relay.accepted`, `Relay.exchanged`, `Relay.conversation` — what the host and the relay tell each
  other of the document, by one message and by several in order;
* `Relay.Informed` — the host knows the models of the document; `Relay.Informed.turn` — one turn;
  `Relay.Informed.conversation` — a run;
* `Relay.conversation_areKnown` — every event names a model that is known by then.
-/

/-- The events of a patch, and none of a value that is no patch. -/
def Patch.events (change : Json) : List Event :=
  match Patch.decode change with
  | .ok events => events
  | .error _ => []

/-- The changes that a message tells the host. -/
def OutboundMessage.changes : OutboundMessage → List Event
  | .patch change _ _ => Patch.events change
  | _ => []

namespace Relay

/-- The changes that the host tells by a message, if the relay takes it. -/
def accepted (now : Relay × Surroundings) : InboundMessage → List Event
  | .patch text =>
    match (now.1.handle (.patch text) now.2).1, readPatch text with
    | .ok (), .ok change => Patch.events change
    | _, _ => []
  | _ => []

/-- What the host and the relay tell each other of the document in a turn. -/
def exchanged (now : Relay × Surroundings) (m : InboundMessage) : List Event :=
  accepted now m ++ (posts now m).flatMap OutboundMessage.changes

/-- What they tell each other in several turns, in order. -/
def conversation : Relay × Surroundings → List InboundMessage → List Event
  | _, [] => []
  | now, m :: rest => exchanged now m ++ conversation (turn now m) rest

/-- The host tells that it has painted the document before it sends a patch. -/
def PaintsFirst (messages : List InboundMessage) : Prop :=
  ∀ first text rest, messages = first ++ .patch text :: rest → .rendered ∈ first

/-- Messages that begin with the painting tell of it before any patch. -/
theorem PaintsFirst.rendered (rest : List InboundMessage) : PaintsFirst (.rendered :: rest) := by
  intro first text others h
  cases first with
  | nil => cases h
  | cons m first =>
    cases h
    exact List.mem_cons_self

/-- The host knows the models of the document that a relay serves, and its watchers act in the
    name of the application. -/
structure Informed (hidden : Prop) (models : List String) (now : Relay × Surroundings)
    (live : LiveDocument) : Prop where
  serves : now.1.Serves now.2 live
  acts : live.Acts hidden
  known : live.document.content.IsKnown hidden models

variable {hidden : Prop} {models : List String} {r : Relay} {s : Surroundings}
  {live : LiveDocument}

/-- What follows from an applied patch, behind the events of the patch. -/
theorem Informed.made (h : Informed hidden models (r, s) live) (hl : r.isLinked = true)
    {change : Json} {c : Content} (applied : live.document.content.applied change = .ok c) :
    let last := (Relay.made live s change).cycleEnd
    let told := Patch.events change ++ (Relay.made live s change).cycleEvents
    Event.AreKnown (fun id => hidden ∧ last.live.document.content.Unlisted id) models told ∧
      last.live.document.content.IsKnown hidden (told.foldl Event.known models) ∧
      (∀ id, live.document.content.Unlisted id → last.live.document.content.Unlisted id) ∧
      (∀ event ∈ (Relay.made live s change).cycleEvents, event.IsTidy) ∧ last.live.Acts hidden := by
  have hsound : live.document.content.Sound :=
    (LiveDocument.Observable.atRest h.serves.reachable).sound
  obtain ⟨events, hdecode, hfollowed⟩ := Content.exists_of_applied applied
  obtain ⟨hevents, hc, hfirst⟩ := h.known.followAll hsound hfollowed
  obtain ⟨hcontent, told, hqueue⟩ := made_patched h.serves applied
  have hacts : (Relay.made live s change).live.Acts hidden := h.acts
  have hheard := Scene.cycle_heard (made_isLinked h.serves hl change) hacts hqueue
    (hcontent ▸ hsound.followAll hfollowed) (hcontent ▸ hc)
  obtain ⟨⟨hlast, hareKnown, hknown, hunlisted⟩, hends⟩ := hheard
  rw [hcontent] at hunlisted
  have hevents' : Patch.events change = events := by rw [Patch.events, hdecode]
  dsimp only
  rw [hevents', List.foldl_append]
  refine ⟨Event.areKnown_append.mpr ⟨?_, hareKnown⟩, hknown,
    fun id hid => hunlisted id (hfirst id hid), Scene.cycle_tidy hqueue, hends⟩
  exact hevents.mono fun id hid => ⟨hid.1, hunlisted id hid.2⟩

/-- A patch that is taken tells its events. -/
theorem accepted_of_ok {text : String} {change : Json}
    (h : (r.handle (.patch text) s).1 = .ok ()) (hr : readPatch text = .ok change) :
    accepted (r, s) (.patch text) = Patch.events change := by
  rw [accepted, h, hr]

/-- A message that is no patch is answered by nothing. -/
theorem Answer.eq_nil {linked : Bool} {n next : Nat} {m : InboundMessage}
    {own : List OutboundMessage} (h : Answer linked n m own next) (hm : ∀ text, m ≠ .patch text) :
    own = [] := by
  cases h with
  | rendered => rfl
  | location text => rfl
  | idle text => exact absurd rfl (hm text)
  | patch text => exact absurd rfl (hm text)

/-- A message that is no patch tells nothing of the document. -/
theorem exchanged_eq_nil (h : r.Serves s live) {m : InboundMessage} (hm : ∀ text, m ≠ .patch text) :
    exchanged (r, s) m = [] := by
  have haccepted : accepted (r, s) m = [] := by
    cases m with
    | patch text => exact absurd rfl (hm text)
    | _ => rfl
  rw [exchanged, haccepted, (turn_turned h m).answer.eq_nil hm]
  rfl

/-- The host stays informed if the content and the watchers stay and nothing is told. -/
theorem Informed.stay (h : Informed hidden models (r, s) live) {m : InboundMessage}
    {after : LiveDocument} (hserves : (turn (r, s) m).1.Serves (turn (r, s) m).2 after)
    (hx : exchanged (r, s) m = []) (hcontent : after.document.content = live.document.content)
    (hacts : after.Acts hidden) :
    Informed hidden ((exchanged (r, s) m).foldl Event.known models) (turn (r, s) m) after ∧
      Event.AreKnown (fun id => hidden ∧ after.document.content.Unlisted id) models
        (exchanged (r, s) m) ∧
      ∀ id, live.document.content.Unlisted id → after.document.content.Unlisted id := by
  rw [hx, hcontent]
  exact ⟨⟨hserves, hacts, hcontent ▸ h.known⟩, trivial, fun _ hid => hid⟩

/-- The host stays informed if a patch is applied, and it and what follows from it are told. -/
theorem Informed.follow (h : Informed hidden models (r, s) live) (hl : r.isLinked = true)
    {change : Json} {c : Content} (applied : live.document.content.applied change = .ok c)
    {m : InboundMessage}
    (hserves : (turn (r, s) m).1.Serves (turn (r, s) m).2 (Relay.made live s change).cycleEnd.live)
    (hx : exchanged (r, s) m
      = Patch.events change ++ (Relay.made live s change).cycleEvents) :
    let after := (Relay.made live s change).cycleEnd.live
    Informed hidden ((exchanged (r, s) m).foldl Event.known models) (turn (r, s) m) after ∧
      Event.AreKnown (fun id => hidden ∧ after.document.content.Unlisted id) models
        (exchanged (r, s) m) ∧
      ∀ id, live.document.content.Unlisted id → after.document.content.Unlisted id := by
  obtain ⟨hareKnown, hknown, hunlisted, -, hends⟩ := h.made hl applied
  rw [hx]
  exact ⟨⟨hserves, hends, hknown⟩, hareKnown, hunlisted⟩

/-- **Patch.** The host stays informed whatever becomes of a patch. -/
theorem Informed.turn_patch (h : Informed hidden models (r, s) live) (hl : r.isLinked = true)
    (text : String) :
    ∃ after, Informed hidden ((exchanged (r, s) (.patch text)).foldl Event.known models)
        (turn (r, s) (.patch text)) after ∧
      Event.AreKnown (fun id => hidden ∧ after.document.content.Unlisted id) models
        (exchanged (r, s) (.patch text)) ∧
      ∀ id, live.document.content.Unlisted id → after.document.content.Unlisted id := by
  cases turn_answered h.serves text with
  | refused refused reply posted serves =>
    refine ⟨live, h.stay serves ?_ rfl h.acts⟩
    rw [exchanged, posted, accepted, reply]
    rfl
  | quiet read applied nothing reply posted serves =>
    -- The relay is linked, so there was nothing to forward because nothing was changed.
    have hnone := nothing.resolve_left (by rw [hl]; exact Bool.noConfusion)
    refine ⟨_, h.follow hl applied serves ?_⟩
    rw [exchanged, posted, accepted_of_ok reply read, hnone]
    rfl
  | @forwarded change c read applied linked changes reply posted serves =>
    obtain ⟨-, -, -, htidy, -⟩ := h.made hl applied
    have hforwarded : Patch.events (Patch.toJson (Relay.made live s change).cycleEvents)
        = (Relay.made live s change).cycleEvents := by
      rw [Patch.events, Patch.decode_toJson htidy]
    refine ⟨_, h.follow hl applied serves ?_⟩
    rw [exchanged, posted, accepted_of_ok reply read]
    show _ ++ (Patch.events (Patch.toJson _) ++ []) = _
    rw [hforwarded, List.append_nil]

/-- **Step.** In a turn, every event names a model that is known by then, and behind it the host
    knows the models of the document. -/
theorem Informed.turn (h : Informed hidden models (r, s) live) {m : InboundMessage}
    (hm : r.isLinked = true ∨ ∀ text, m ≠ .patch text) :
    ∃ after, Informed hidden ((exchanged (r, s) m).foldl Event.known models) (turn (r, s) m) after ∧
      Event.AreKnown (fun id => hidden ∧ after.document.content.Unlisted id) models
        (exchanged (r, s) m) ∧
      ∀ id, live.document.content.Unlisted id → after.document.content.Unlisted id := by
  have hacts : ∀ {after : LiveDocument}, after.watchers = live.watchers → after.Acts hidden := by
    intro after hw
    unfold LiveDocument.Acts
    rw [hw]
    exact h.acts
  cases m with
  | rendered =>
    obtain ⟨after, hserves, -, -, hdocument, hwatchers⟩ := turn_rendered h.serves
    exact ⟨after, h.stay hserves (exchanged_eq_nil h.serves fun _ => InboundMessage.noConfusion)
      (by rw [hdocument]) (hacts hwatchers)⟩
  | location text =>
    obtain ⟨after, hserves, -, -, hcontent, hwatchers⟩ := turn_location h.serves text
    exact ⟨after, h.stay hserves (exchanged_eq_nil h.serves fun _ => InboundMessage.noConfusion)
      hcontent (hacts hwatchers)⟩
  | patch text => exact h.turn_patch (hm.resolve_right fun hno => hno text rfl) text

/-- Without its first message, the host still tells of its painting first, if the relay is not
    linked by that message. -/
theorem PaintsFirst.tail {m : InboundMessage} {rest : List InboundMessage}
    (h : PaintsFirst (m :: rest)) (hm : m ≠ .rendered) : PaintsFirst rest := by
  intro first text others hrest
  have hmem := h (m :: first) text others (congrArg (m :: ·) hrest)
  exact (List.mem_cons.mp hmem).resolve_left fun hno => hm hno.symm

/-- **Run.** In every turn of a run, every event names a model that is known by then. -/
theorem Informed.conversation (h : Informed hidden models (r, s) live)
    {messages : List InboundMessage} (hm : r.isLinked = true ∨ PaintsFirst messages) :
    ∃ after, (messages.foldl Relay.turn (r, s)).1.Serves (messages.foldl Relay.turn (r, s)).2 after ∧
      Event.AreKnown (fun id => hidden ∧ after.document.content.Unlisted id) models
        (conversation (r, s) messages) ∧
      ∀ id, live.document.content.Unlisted id → after.document.content.Unlisted id := by
  induction messages generalizing r s live models with
  | nil => exact ⟨live, h.serves, trivial, fun _ hid => hid⟩
  | cons m rest ih =>
    have hfirst : r.isLinked = true ∨ ∀ text, m ≠ .patch text := by
      refine hm.imp_right fun hp text => ?_
      rintro rfl
      exact absurd (hp [] text rest rfl) List.not_mem_nil
    obtain ⟨mid, hmid, hareKnown, hone⟩ := h.turn hfirst
    have hlinked : (Relay.turn (r, s) m).1.isLinked = true ∨ PaintsFirst rest := by
      rw [(turn_turned h.serves m).linked]
      by_cases hr : m = .rendered
      · exact .inl (.inr hr)
      · exact hm.imp .inl fun hp => hp.tail hr
    obtain ⟨after, hserves, hothers, hall⟩ := ih hmid hlinked
    refine ⟨after, hserves, Event.areKnown_append.mpr ⟨?_, hothers⟩,
      fun id hid => hall id (hone id hid)⟩
    exact hareKnown.mono fun id hid => ⟨hid.1, hall id hid.2⟩

/-- **Known models.** Let the watchers of a relay that a setup has made act in the name of the
    application, and let the host tell of its painting before it sends a patch.  It knows the models
    of the rendering, which was posted last.  Then whatever the host and the relay tell each other,
    each event that is accepted or forwarded changes or removes a model that is known by then: one
    of the rendering, or one that an earlier event has added, and that no event has removed since.
    The only exception are changes of models that watchers may have added without a word, which are
    never roots. -/
theorem conversation_areKnown {l : Loader} {st after : Setup} {relay : Relay} (hidden : Prop)
    (h : st.bootstrap l = (.ok relay, after))
    (acts : ∀ live, relay.engine.document = some live → live.Acts hidden)
    {messages : List InboundMessage} (paints : PaintsFirst messages) :
    let start := (relay, after.around)
    ∃ earlier payload replica last,
      after.around.outbox.posted = earlier ++ [.render payload] ∧
      Content.ofPayload? payload = some replica ∧
      (messages.foldl turn start).1.engine.document = some last ∧
      ∀ first event rest, conversation start messages = first ++ event :: rest →
        event.IsKnown (fun id => hidden ∧ last.document.content.Unlisted id)
          (first.foldl Event.known replica.models.keys) := by
  obtain ⟨live, hserves, -, -, earlier, hposted⟩ := Setup.serves_of_bootstrap h
  have hobservable : live.Observable := .atRest hserves.reachable
  have hstart : Informed hidden live.document.content.models.keys (relay, after.around) live :=
    ⟨hserves, acts live hserves.document, fun _ hid => .inl hid⟩
  obtain ⟨last, hlast, hareKnown, -⟩ := hstart.conversation (.inr paints)
  exact ⟨earlier, _, _, last, hposted,
    Content.ofPayload?_ofDocument hobservable.sound hobservable.tidy, hlast.document,
    Event.areKnown_iff.mp hareKnown⟩

end Relay

/-! ### A watcher that adds models -/

/-- A watcher that adds a model for every value of the slider, and sets an attribute of it. -/
def Watcher.ticking : Watcher :=
  ⟨"m1", "value", .null, fun _ value =>
    .perform (.addModel "Tick" []) fun
      | .ok (.made id) => .perform (.setAttr id "shown" value .runtime) fun _ =>
        .finish .done .null
      | _ => .finish .done .null⟩

/-- An application with a slider that is watched in this way. -/
def Application.ticking : Application :=
  ⟨fun _ =>
    .perform (.addRoot "Slider" [("value", .int 1)] .runtime) fun _ =>
      .watch Watcher.ticking.id Watcher.ticking.attr Watcher.ticking.memory Watcher.ticking.body
        (.finish .done .null)⟩

/-- The relay of the application. -/
def Relay.ticking : Relay := .running .ticking

/-- The setup with the application run. -/
def Setup.ticking : Setup := .running .ticking

/-- The application can be set up. -/
theorem Setup.bootstrap_ticking :
    Setup.slider.bootstrap (.running .ticking) = (.ok .ticking, .ticking) := rfl

namespace Relay

/-- The watcher acts in the name of the application, and adds models without a word. -/
theorem ticking_acts {live : LiveDocument} (h : ticking.engine.document = some live) :
    live.Acts True := by
  have hwatchers : ticking.engine.document.map (·.watchers) = some [.ticking] := by rfl
  rw [h] at hwatchers
  have hlive : live.watchers = [.ticking] := Option.some.inj hwatchers
  refine ⟨fun w => w = .ticking, ?_, fun w hw => ?_⟩
  · rintro w rfl value
    refine ⟨⟨rfl, .inr trivial⟩, fun reply => ?_⟩
    cases reply with
    | error fault => rfl
    | ok answer =>
      cases answer with
      | made id => exact ⟨⟨rfl, .inl rfl⟩, fun _ => rfl⟩
      | _ => rfl
  · rw [hlive] at hw
    exact List.mem_singleton.mp hw

/-- A host that paints the slider and moves it. -/
def movingMessages : List InboundMessage := [.rendered, .patch (sliderMoved "7")]

/-- The host of this application knows all models but those that were added without a word. -/
theorem conversation_areKnown_ticking :
    let start := (ticking, Setup.ticking.around)
    Setup.slider.bootstrap (.running .ticking) = (.ok ticking, .ticking) ∧
    (∀ live, ticking.engine.document = some live → live.Acts True) ∧
    PaintsFirst movingMessages ∧
    ∃ earlier payload replica last,
      Setup.ticking.around.outbox.posted = earlier ++ [.render payload] ∧
      Content.ofPayload? payload = some replica ∧
      (movingMessages.foldl turn start).1.engine.document = some last ∧
      ∀ first event rest, conversation start movingMessages = first ++ event :: rest →
        event.IsKnown (fun id => True ∧ last.document.content.Unlisted id)
          (first.foldl Event.known replica.models.keys) :=
  ⟨Setup.bootstrap_ticking, fun _ => ticking_acts, .rendered _,
    conversation_areKnown True Setup.bootstrap_ticking (fun _ => ticking_acts) (.rendered _)⟩

/-- **A model that the host does not know.** The host of this application is sent a change of a
    model that is neither in the rendering nor added by any event. -/
theorem ticking_unknown :
    let start := (ticking, Setup.ticking.around)
    (answers start movingMessages).flatten.map (·.toLine) =
      ["\x7b\"type\":\"patch\",\"patch\":\x7b\"events\":[\x7b\"attr\":\"shown\","
        ++ "\"kind\":\"ModelChanged\",\"model\":\x7b\"id\":\"m2\"\x7d,\"new\":7\x7d]\x7d,"
        ++ "\"buffers\":[],\"msg_id\":\"patch-1\"\x7d", "\x7b\"type\":\"idle\"\x7d"] ∧
    ∃ earlier payload replica,
      Setup.ticking.around.outbox.posted = earlier ++ [.render payload] ∧
      Content.ofPayload? payload = some replica ∧ replica.models.keys = ["m1"] ∧
      ¬ Event.AreKnown (fun _ => False) replica.models.keys (conversation start movingMessages) := by
  obtain ⟨live, hserves, -, -, earlier, hposted⟩ :=
    Setup.serves_of_bootstrap Setup.bootstrap_ticking
  have hobservable : live.Observable := .atRest hserves.reachable
  have hkeys : live.document.models.keys = ["m1"] := by
    have hmodels : ticking.engine.document.map (·.document.models.keys) = some ["m1"] := by rfl
    rw [hserves.document] at hmodels
    exact Option.some.inj hmodels
  refine ⟨by decide +kernel, earlier, _, _, hposted,
    Content.ofPayload?_ofDocument hobservable.sound hobservable.tidy, hkeys, ?_⟩
  show ¬ Event.AreKnown _ live.document.models.keys _
  rw [hkeys]
  decide +kernel

end Relay

end DocRelay
