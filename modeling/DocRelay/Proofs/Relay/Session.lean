import DocRelay.Proofs.Document.Telling
import DocRelay.Proofs.Relay.Trace
import Mathlib.Logic.Relation

namespace DocRelay

/-!
# Sessions of a host and a relay

A host keeps a replica of the content of the document.  It applies each patch to the replica
before it sends it, applies what the relay forwards, and sends the next patch only when the last
one is acknowledged.  Messages are in flight both ways for as long as they like.

* `Content.applyPatch`, `Content.offered` — a patch, or the text of one, that a host applies;
* `Session`, `Session.Step` — a session, and what can happen next;
* `Session.Steady` — the invariant: what is in flight takes the replica to the document;
* `Session.steady_step`, `Session.steady_of_reaches` — every step keeps it, and so every run;
* `Session.Agrees`, `Setup.session_agrees` — the replica takes what is forwarded, both sides refuse
  the same patches, and they have the same content whenever a patch is acknowledged.
-/

namespace Content

/-- The content after a patch, by the rules of a document, and why it was refused if it was. -/
def applyPatch (c : Content) (change : Json) : Content × Option Fault :=
  let (after, _, fault?) := ((Document.empty "").withContent c).applyPatch change
  (after.content, fault?)

/-- The content after the text of a patch. -/
def offered (c : Content) (text : String) : Content × Option Fault :=
  match Relay.readPatch text with
  | .error cause => (c, some (.badPatch cause))
  | .ok change => c.applyPatch change

/-- A patch is applied as its events say, or refused. -/
theorem applyPatch_eq (c : Content) (change : Json) :
    c.applyPatch change =
      match c.applied change with
      | .ok after => (after, none)
      | .error fault => (c, some fault) := by
  unfold applyPatch
  cases h : c.applied change with
  | error fault =>
    rw [Document.applyPatch_of_error (d := (Document.empty "").withContent c) h]
    rfl
  | ok after =>
    obtain ⟨events, told, -, happ, -⟩ :=
      Document.applyPatch_of_ok (d := (Document.empty "").withContent c) h
    rw [happ]
    rfl

/-- The text of a patch is applied as its events say, or refused. -/
theorem offered_eq (c : Content) (text : String) :
    c.offered text =
      match c.patched text with
      | .ok after => (after, none)
      | .error fault => (c, some fault) := by
  unfold offered patched
  cases Relay.readPatch text with
  | error cause => rfl
  | ok change => exact applyPatch_eq c change

/-- What was forwarded can be read and applied. -/
theorem applyPatch_toJson {c after : Content} {events : List Event}
    (h : c.followAll events = .ok after) (ht : ∀ event ∈ events, event.IsTidy) :
    c.applyPatch (Patch.toJson events) = (after, none) := by
  rw [applyPatch_eq, applied, Patch.decode_toJson ht]
  dsimp only
  rw [h]

end Content

/-- A host and a relay, with the messages in flight: those of the relay are in its outbox. -/
structure Session where
  /-- What the host takes for the content of the document. -/
  replica : Content
  /-- Why the host refused its last patch, if it did, as long as that is not acknowledged. -/
  awaiting : Option (Option Fault)
  /-- What the host has sent and the relay has not yet dealt with. -/
  inbound : List InboundMessage
  relay : Relay
  around : Surroundings

namespace Session

/-- The host takes a message. -/
def hear (s : Session) : OutboundMessage → Session
  | .patch change _ _ => { s with replica := (s.replica.applyPatch change).1 }
  | .idle => { s with awaiting := none }
  | _ => s

/-- The messages of the relay that the host has not taken yet. -/
def posted (s : Session) : List OutboundMessage := s.around.outbox.posted

/-- The session with the first message of the relay taken. -/
def taken (s : Session) (rest : List OutboundMessage) : Session :=
  { s with around := { s.around with outbox := { s.around.outbox with posted := rest } } }

/-- The host applies a patch to the replica, and sends it. -/
def offering (s : Session) (text : String) : Session :=
  { s with
    replica := (s.replica.offered text).1
    awaiting := some (s.replica.offered text).2
    inbound := s.inbound ++ [.patch text] }

/-- The host sends a location. -/
def moving (s : Session) (text : String) : Session :=
  { s with inbound := s.inbound ++ [.location text] }

/-- The relay deals with a message, and others are left. -/
def working (s : Session) (m : InboundMessage) (rest : List InboundMessage) : Session :=
  let done := s.relay.run s.around [m]
  { s with inbound := rest, relay := done.2.1, around := done.2.2 }

/-- What can happen next in a session. -/
inductive Step (s : Session) : Session → Prop where
  /-- The host sends any patch, unless it waits for an acknowledgement. -/
  | offer (text : String) (free : s.awaiting = none) : Step s (s.offering text)
  /-- The location of the page changes. -/
  | move (text : String) : Step s (s.moving text)
  /-- The relay deals with the first message of the host. -/
  | work {m : InboundMessage} {rest : List InboundMessage} (first : s.inbound = m :: rest) :
    Step s (s.working m rest)
  /-- The host takes the first message of the relay. -/
  | receive {m : OutboundMessage} {rest : List OutboundMessage} (first : s.posted = m :: rest) :
    Step s ((s.taken rest).hear m)

/-- The host and the relay agree. -/
structure Agrees (s : Session) : Prop where
  /-- The replica takes a patch that was forwarded. -/
  accepts : ∀ change buffers id rest, s.posted = .patch change buffers id :: rest →
    (s.replica.applyPatch change).2 = none
  /-- The relay is about to refuse a patch if and only if the host did, for the same reason. -/
  refuses : ∀ text rest, s.inbound = .patch text :: rest →
    ∃ verdict, s.awaiting = some verdict ∧
      (s.relay.handle (.patch text) s.around).1 = match verdict with
        | none => .ok ()
        | some fault => .error fault
  /-- When a patch is acknowledged, the replica is the content of the document. -/
  converges : ∀ rest, s.posted = .idle :: rest →
    ∃ live, s.relay.engine.document = some live ∧ live.document.content = s.replica

/-! ### The invariant -/

/-- No patch is among the messages of the host. -/
def IsClear (messages : List InboundMessage) : Prop := ∀ text, .patch text ∉ messages

/-- What is in flight takes the replica to the content of the document. -/
inductive Flight (content : Content) (s : Session) : Prop where
  /-- No patch is under way. -/
  | quiet (free : s.awaiting = none) (clear : IsClear s.inbound) (nothing : s.posted = [])
    (same : s.replica = content)
  /-- A patch is under way to the relay. -/
  | offered {text : String} {before after : List InboundMessage}
    (inbound : s.inbound = before ++ .patch text :: after) (clear : IsClear before)
    (behind : IsClear after) (nothing : s.posted = [])
    (awaiting : s.awaiting = some (content.offered text).2)
    (ahead : s.replica = (content.offered text).1)
  /-- Changes are under way to the host, and an acknowledgement behind them. -/
  | forwarded {verdict : Option Fault} {events : List Event} {buffers : List Bytes} {id : String}
    (awaiting : s.awaiting = some verdict) (clear : IsClear s.inbound)
    (posted : s.posted = [.patch (Patch.toJson events) buffers id, .idle])
    (followed : s.replica.followAll events = .ok content)
    (tidy : ∀ event ∈ events, event.IsTidy)
  /-- An acknowledgement is under way. -/
  | acknowledged {verdict : Option Fault} (awaiting : s.awaiting = some verdict)
    (clear : IsClear s.inbound) (posted : s.posted = [.idle]) (same : s.replica = content)

/-- The invariant of a session. -/
structure Steady (s : Session) (live : LiveDocument) : Prop where
  serves : s.relay.Serves s.around live
  tells : live.TellsAll
  linked : s.relay.isLinked = true ∨ ∃ rest, s.inbound = .rendered :: rest
  flight : Flight live.document.content s

/-- A patch that the relay is about to deal with is all that is under way. -/
theorem Flight.of_inbound {content : Content} {s : Session} (h : Flight content s) {text : String}
    {rest : List InboundMessage} (first : s.inbound = .patch text :: rest) :
    s.awaiting = some (content.offered text).2 ∧ s.replica = (content.offered text).1 ∧
      s.posted = [] ∧ IsClear rest := by
  -- Without a patch among the messages of the host, none of them is the first.
  have hclear : ¬ IsClear s.inbound := fun clear => clear text (first ▸ List.mem_cons_self)
  cases h with
  | quiet _ clear _ _ => exact absurd clear hclear
  | @offered other before after inbound clear behind nothing awaiting ahead =>
    cases before with
    | cons m before =>
      cases inbound.symm.trans first
      exact absurd List.mem_cons_self (clear text)
    | nil =>
      cases inbound.symm.trans first
      exact ⟨awaiting, ahead, nothing, behind⟩
  | forwarded _ clear _ _ _ => exact absurd clear hclear
  | acknowledged _ clear _ _ => exact absurd clear hclear

/-- A message that the host is about to take is what was forwarded, with its acknowledgement
    behind it, or an acknowledgement alone. -/
theorem Flight.of_posted {content : Content} {s : Session} (h : Flight content s)
    {m : OutboundMessage} {rest : List OutboundMessage} (first : s.posted = m :: rest) :
    IsClear s.inbound ∧ (∃ verdict, s.awaiting = some verdict) ∧
      ((∃ events buffers id, m = .patch (Patch.toJson events) buffers id ∧ rest = [.idle] ∧
          (s.replica.applyPatch (Patch.toJson events)) = (content, none)) ∨
        m = .idle ∧ rest = [] ∧ s.replica = content) := by
  cases h with
  | quiet _ _ nothing _ => cases nothing.symm.trans first
  | offered _ _ _ nothing _ _ => cases nothing.symm.trans first
  | forwarded awaiting clear posted followed tidy =>
    cases posted.symm.trans first
    exact ⟨clear, ⟨_, awaiting⟩,
      .inl ⟨_, _, _, rfl, rfl, Content.applyPatch_toJson followed tidy⟩⟩
  | acknowledged awaiting clear posted same =>
    cases posted.symm.trans first
    exact ⟨clear, ⟨_, awaiting⟩, .inr ⟨rfl, rfl, same⟩⟩

/-- A relay refuses the patches that a host refuses which has the content of its document. -/
theorem handle_offered {r : Relay} {s : Surroundings} {live : LiveDocument} (h : r.Serves s live)
    (text : String) :
    (r.handle (.patch text) s).1 = match (live.document.content.offered text).2 with
      | none => .ok ()
      | some fault => .error fault := by
  rw [Content.offered_eq]
  cases Relay.turn_answered h text with
  | refused refused reply =>
    rw [refused]
    exact reply
  | quiet read applied _ reply | forwarded read applied _ _ reply =>
    rw [Content.patched, read]
    dsimp only
    rw [applied]
    exact reply

/-- A steady session agrees. -/
theorem Steady.agrees {s : Session} {live : LiveDocument} (h : s.Steady live) : s.Agrees := by
  refine ⟨fun change buffers id rest hp => ?_, fun text rest hi => ?_, fun rest hp => ?_⟩
  · obtain ⟨-, -, ⟨events, _, _, heq, -, happlied⟩ | ⟨heq, -, -⟩⟩ := h.flight.of_posted hp
    · cases heq
      rw [happlied]
    · cases heq
  · obtain ⟨hawaiting, -, -, -⟩ := h.flight.of_inbound hi
    exact ⟨_, hawaiting, handle_offered h.serves text⟩
  · obtain ⟨-, -, ⟨_, _, _, heq, -, -⟩ | ⟨-, -, hsame⟩⟩ := h.flight.of_posted hp
    · cases heq
    · exact ⟨live, h.serves.document, hsame.symm⟩

/-! ### Messages that are no patches -/

/-- Without its first message a list is still clear. -/
theorem IsClear.tail {m : InboundMessage} {rest : List InboundMessage} (h : IsClear (m :: rest)) :
    IsClear rest :=
  fun text ht => h text (List.mem_cons_of_mem _ ht)

/-- With a location behind it a list is still clear. -/
theorem IsClear.move {messages : List InboundMessage} (h : IsClear messages) (text : String) :
    IsClear (messages ++ [.location text]) := by
  intro other ho
  rcases List.mem_append.mp ho with ho | ho
  · exact h other ho
  · cases List.mem_singleton.mp ho

/-- A message that is no patch can be dealt with. -/
theorem Flight.skip {content : Content} {s t : Session} (h : Flight content s) {m : InboundMessage}
    {rest : List InboundMessage} (first : s.inbound = m :: rest) (hm : ∀ text, m ≠ .patch text)
    (hi : t.inbound = rest) (hr : t.replica = s.replica) (ha : t.awaiting = s.awaiting)
    (hp : t.posted = s.posted) : Flight content t := by
  have hclear : IsClear s.inbound → IsClear t.inbound := fun hc => hi ▸ (first ▸ hc).tail
  cases h with
  | quiet free clear nothing same =>
    exact .quiet (ha.trans free) (hclear clear) (hp.trans nothing) (hr.trans same)
  | @offered text before after inbound clear behind nothing awaiting ahead =>
    -- It is not the patch that is dealt with, so the message stands before it.
    cases before with
    | nil =>
      cases first.symm.trans inbound
      exact absurd rfl (hm text)
    | cons other before =>
      cases first.symm.trans inbound
      exact .offered hi clear.tail behind (hp.trans nothing) (ha.trans awaiting) (hr.trans ahead)
  | forwarded awaiting clear posted followed tidy =>
    exact .forwarded (ha.trans awaiting) (hclear clear) (hp.trans posted) (hr ▸ followed) tidy
  | acknowledged awaiting clear posted same =>
    exact .acknowledged (ha.trans awaiting) (hclear clear) (hp.trans posted) (hr.trans same)

/-- A location can be sent at any time. -/
theorem Flight.move {content : Content} {s : Session} (h : Flight content s) (text : String) :
    Flight content (s.moving text) := by
  cases h with
  | quiet free clear nothing same => exact .quiet free (clear.move text) nothing same
  | @offered other before after inbound clear behind nothing awaiting ahead =>
    have hinbound : s.inbound ++ [.location text]
        = before ++ .patch other :: (after ++ [.location text]) := by
      rw [inbound, List.append_assoc]
      rfl
    exact .offered hinbound clear (behind.move text) nothing awaiting ahead
  | forwarded awaiting clear posted followed tidy =>
    exact .forwarded awaiting (clear.move text) posted followed tidy
  | acknowledged awaiting clear posted same =>
    exact .acknowledged awaiting (clear.move text) posted same

/-! ### Patches -/

/-- What is forwarded behind a patch takes the patched content to that of the document. -/
theorem made_told {r : Relay} {s : Surroundings} {live : LiveDocument} (h : r.Serves s live)
    (ht : live.TellsAll) (hl : r.isLinked = true) {change : Json} {c : Content}
    (applied : live.document.content.applied change = .ok c) :
    c.followAll (Relay.made live s change).cycleEvents
        = .ok (Relay.made live s change).cycleEnd.live.document.content ∧
      (∀ event ∈ (Relay.made live s change).cycleEvents, event.IsTidy) ∧
      (Relay.made live s change).cycleEnd.live.TellsAll := by
  obtain ⟨hcontent, told, hqueue⟩ := Relay.made_patched h applied
  rw [← hcontent]
  exact Scene.cycle_told (Relay.made_isLinked h hl change) ht hqueue

/-- A patch is answered by what takes the host, which has applied it, to the content of the
    document. -/
theorem turn_patch {r : Relay} {s : Surroundings} {live : LiveDocument} (h : r.Serves s live)
    (ht : live.TellsAll) (hl : r.isLinked = true) (text : String) :
    ∃ after, (Relay.turn (r, s) (.patch text)).1.Serves (Relay.turn (r, s) (.patch text)).2 after ∧
      (Relay.turn (r, s) (.patch text)).1.isLinked = true ∧ after.TellsAll ∧
      (((Relay.turn (r, s) (.patch text)).2.outbox.posted = s.outbox.posted ++ [.idle] ∧
          after.document.content = (live.document.content.offered text).1) ∨
        ∃ events buffers id,
          (Relay.turn (r, s) (.patch text)).2.outbox.posted
            = s.outbox.posted ++ [.patch (Patch.toJson events) buffers id, .idle] ∧
          (live.document.content.offered text).1.followAll events = .ok after.document.content ∧
          ∀ event ∈ events, event.IsTidy) := by
  have hturned := Relay.turn_turned h (.patch text)
  have hlinked := hturned.linked.mpr (.inl hl)
  have hposted := hturned.posted
  rw [Content.offered_eq]
  cases Relay.turn_answered h text with
  | refused refused reply posted serves =>
    rw [posted] at hposted
    refine ⟨live, serves, hlinked, ht, .inl ⟨hposted, ?_⟩⟩
    rw [refused]
  | quiet read applied nothing reply posted serves =>
    obtain ⟨hfollowed, -, htells⟩ := made_told h ht hl applied
    -- The relay is linked, so there was nothing to forward because nothing was changed.
    have hnone := nothing.resolve_left (by rw [hl]; exact Bool.noConfusion)
    rw [hnone] at hfollowed
    rw [posted] at hposted
    refine ⟨_, serves, hlinked, htells, .inl ⟨hposted, ?_⟩⟩
    rw [Content.patched, read]
    dsimp only
    rw [applied]
    exact (Except.ok.inj hfollowed).symm
  | forwarded read applied linked changes reply posted serves =>
    obtain ⟨hfollowed, htidy, htells⟩ := made_told h ht hl applied
    rw [posted] at hposted
    refine ⟨_, serves, hlinked, htells, .inr ⟨_, _, _, hposted, ?_, htidy⟩⟩
    rw [Content.patched, read]
    dsimp only
    rw [applied]
    exact hfollowed

/-! ### Steps -/

/-- The relay deals with a message by a turn. -/
theorem working_eq {s : Session} {live : LiveDocument} (h : s.relay.Serves s.around live)
    (m : InboundMessage) (rest : List InboundMessage) :
    s.working m rest = { s with
      inbound := rest
      relay := (Relay.turn (s.relay, s.around) m).1
      around := (Relay.turn (s.relay, s.around) m).2 } := by
  unfold working
  rw [Relay.run_eq_foldl h]
  rfl

/-- What was sent first stays first. -/
theorem Steady.linked_append {s : Session} {live : LiveDocument} (h : s.Steady live)
    (m : InboundMessage) :
    s.relay.isLinked = true ∨ ∃ rest, s.inbound ++ [m] = .rendered :: rest := by
  refine h.linked.imp_right ?_
  rintro ⟨rest, hrest⟩
  exact ⟨rest ++ [m], by rw [hrest]; rfl⟩

/-- **Step.** The host applies a patch and sends it. -/
theorem Steady.offer {s : Session} {live : LiveDocument} (h : s.Steady live) (text : String)
    (free : s.awaiting = none) :
    (s.offering text).Steady live := by
  refine ⟨h.serves, h.tells, h.linked_append _, ?_⟩
  cases h.flight with
  | quiet _ clear nothing same =>
    rw [← same]
    exact .offered rfl clear (fun _ h => absurd h List.not_mem_nil) nothing rfl rfl
  | offered _ _ _ _ awaiting _ => cases free.symm.trans awaiting
  | forwarded awaiting _ _ _ _ => cases free.symm.trans awaiting
  | acknowledged awaiting _ _ _ => cases free.symm.trans awaiting

/-- **Step.** The relay deals with the first message. -/
theorem Steady.work {s : Session} {live : LiveDocument} (h : s.Steady live) {m : InboundMessage}
    {rest : List InboundMessage} (first : s.inbound = m :: rest) :
    ∃ after, (s.working m rest).Steady after := by
  rw [working_eq h.serves]
  cases m with
  | rendered =>
    obtain ⟨after, hserves, hlinked, hposted, hdocument, hwatchers⟩ := Relay.turn_rendered h.serves
    refine ⟨after, hserves, ?_, .inl hlinked, ?_⟩
    · unfold LiveDocument.TellsAll
      rw [hwatchers]
      exact h.tells
    · rw [hdocument]
      exact h.flight.skip first (fun text => InboundMessage.noConfusion) rfl rfl rfl hposted
  | location text =>
    obtain ⟨after, hserves, hlinked, hposted, hcontent, hwatchers⟩ := Relay.turn_location h.serves text
    refine ⟨after, hserves, ?_, .inl ?_, ?_⟩
    · unfold LiveDocument.TellsAll
      rw [hwatchers]
      exact h.tells
    · rcases h.linked with hl | ⟨others, hothers⟩
      · exact hlinked.trans hl
      · cases first.symm.trans hothers
    · rw [hcontent]
      exact h.flight.skip first (fun text => InboundMessage.noConfusion) rfl rfl rfl hposted
  | patch text =>
    -- The word of the rendering came first, so the relay has dealt with it.
    have hl : s.relay.isLinked = true := by
      refine h.linked.resolve_right ?_
      rintro ⟨others, hothers⟩
      cases first.symm.trans hothers
    obtain ⟨after, hserves, hlinked, htells, hanswer⟩ := turn_patch h.serves h.tells hl text
    refine ⟨after, hserves, htells, .inl hlinked, ?_⟩
    obtain ⟨hawaiting, hahead, hnothing, hbehind⟩ := h.flight.of_inbound first
    -- What is posted now is the answer alone, as nothing was on its way to the host.
    have hbox : s.around.outbox.posted = [] := hnothing
    rw [hbox] at hanswer
    rcases hanswer with ⟨hposted, hcontent⟩ | ⟨events, buffers, id, hposted, hfollowed, htidy⟩
    · exact .acknowledged hawaiting hbehind hposted (hahead.trans hcontent.symm)
    · exact .forwarded hawaiting hbehind hposted (hahead ▸ hfollowed) htidy

/-- **Step.** The host takes the first message of the relay. -/
theorem Steady.receive {s : Session} {live : LiveDocument} (h : s.Steady live)
    {m : OutboundMessage} {rest : List OutboundMessage} (first : s.posted = m :: rest) :
    Steady ((s.taken rest).hear m) live := by
  -- Taking a message from the outbox leaves all that a relay needs of it.
  have hserves : s.relay.Serves (s.taken rest).around live :=
    ⟨h.serves.document, h.serves.reachable, h.serves.link, h.serves.isOpen, h.serves.isRendered,
      h.serves.known⟩
  obtain ⟨hclear, ⟨verdict, hawaiting⟩, ⟨events, buffers, id, rfl, rfl, happlied⟩ |
    ⟨rfl, rfl, hsame⟩⟩ := h.flight.of_posted first
  · refine ⟨hserves, h.tells, h.linked, .acknowledged hawaiting hclear rfl ?_⟩
    show (s.replica.applyPatch _).1 = _
    rw [happlied]
  · exact ⟨hserves, h.tells, h.linked, .quiet rfl hclear rfl hsame⟩

/-- **Step.** Whatever happens next in a steady session, it is steady. -/
theorem steady_step {s t : Session} {live : LiveDocument} (h : s.Steady live) (hst : s.Step t) :
    ∃ after, t.Steady after := by
  cases hst with
  | offer text free => exact ⟨live, h.offer text free⟩
  | move text => exact ⟨live, h.serves, h.tells, h.linked_append _, h.flight.move text⟩
  | work first => exact h.work first
  | receive first => exact ⟨live, h.receive first⟩

/-- **Run.** A session that starts steady is steady at all times. -/
theorem steady_of_reaches {s t : Session} {live : LiveDocument} (h : s.Steady live)
    (hst : Relation.ReflTransGen Step s t) : ∃ after, t.Steady after := by
  induction hst with
  | refl => exact ⟨live, h⟩
  | tail _ hlast ih =>
    obtain ⟨mid, hmid⟩ := ih
    exact steady_step hmid hlast

end Session

/-! ### Sessions from the rendering on -/

/-- The session with which a host starts: it takes the replica from the rendering, and tells that
    it has painted it. -/
def Session.start (replica : Content) (relay : Relay) (s : Surroundings) : Session :=
  ⟨replica, none, [.rendered], relay, { s with outbox := s.outbox.drain.2 }⟩

/-- **Convergence.** Let the watchers of a relay that a setup has made tell what they do.  A host
    can take a replica from the rendering, which was posted last.  In every session from then on,
    however the messages are delayed, the replica takes what is forwarded, the relay refuses
    exactly the patches that the host has refused, and whenever a patch is acknowledged the replica
    is the content of the document. -/
theorem Setup.session_agrees {l : Loader} {st after : Setup} {relay : Relay}
    (h : st.bootstrap l = (.ok relay, after))
    (tells : ∀ live, relay.engine.document = some live → live.TellsAll) :
    ∃ earlier payload replica,
      after.around.outbox.posted = earlier ++ [.render payload] ∧
      Content.ofPayload? payload = some replica ∧
      ∀ s, Relation.ReflTransGen Session.Step (.start replica relay after.around) s →
        s.Agrees := by
  obtain ⟨live, hserves, hlinked, hone, earlier, hposted⟩ := serves_of_bootstrap h
  have hobservable : live.Observable := .atRest hserves.reachable
  refine ⟨earlier, _, _, hposted, Content.ofPayload?_ofDocument hobservable.sound hobservable.tidy,
    fun s hs => ?_⟩
  have hstart : (Session.start live.document.content relay after.around).Steady live := by
    refine ⟨⟨hserves.document, hserves.reachable, hserves.link, hserves.isOpen,
      hserves.isRendered, hserves.known⟩, tells live hserves.document, .inr ⟨[], rfl⟩,
      .quiet rfl (fun text ht => ?_) rfl rfl⟩
    cases List.mem_singleton.mp ht
  obtain ⟨last, hlast⟩ := Session.steady_of_reaches hstart hs
  exact hlast.agrees

/-- The watcher of the slider tells what it does. -/
theorem Watcher.slider_tells : (LiveDocument.TellsAll ⟨.empty "", [.slider], none, [], false⟩) := by
  refine ⟨fun w => w = .slider, ?_, fun w hw => List.mem_singleton.mp hw⟩
  rintro w rfl value
  exact ⟨⟨rfl, rfl⟩, fun _ => rfl⟩

/-- A session with the slider, from its rendering on. -/
def Session.slider : Session :=
  let document := match Relay.slider.engine.document with
    | some live => live.document
    | none => .empty ""
  .start document.content .slider Setup.sliderReady.around

/-- The session in which the host has moved the slider, and the relay knows that it is painted. -/
def Session.sliderPainted : Session :=
  (slider.offering (Relay.sliderMoved "7")).working .rendered [.patch (Relay.sliderMoved "7")]

/-- The session in which what the slider shows is on its way. -/
def Session.sliderShown : Session :=
  sliderPainted.working (.patch (Relay.sliderMoved "7")) []

/-- The slider is in step, also while what it shows is on its way to the host. -/
theorem Setup.session_agrees_slider :
    Setup.slider.bootstrap .slider = (.ok .slider, .sliderReady) ∧
    (∀ live, Relay.slider.engine.document = some live → live.TellsAll) ∧
    Relation.ReflTransGen Session.Step .slider .sliderShown ∧
    Session.sliderShown.posted.map (·.kind) = ["patch", "idle"] ∧
    ∃ earlier payload replica,
      sliderReady.around.outbox.posted = earlier ++ [.render payload] ∧
      Content.ofPayload? payload = some replica ∧
      ∀ s, Relation.ReflTransGen Session.Step (.start replica .slider sliderReady.around) s →
        s.Agrees := by
  have htells : ∀ live, Relay.slider.engine.document = some live → live.TellsAll := by
    intro live h
    have hwatchers : Relay.slider.engine.document.map (·.watchers) = some [.slider] := by rfl
    rw [h] at hwatchers
    have hlive : live.watchers = [.slider] := Option.some.inj hwatchers
    unfold LiveDocument.TellsAll
    rw [hlive]
    exact Watcher.slider_tells
  -- The slider is moved before the word of its painting has been heard.
  have hoffer : Session.Step .slider (Session.slider.offering (Relay.sliderMoved "7")) :=
    .offer _ rfl
  have hpainted : (Session.slider.offering (Relay.sliderMoved "7")).Step .sliderPainted :=
    .work rfl
  have hshown : Session.sliderPainted.Step .sliderShown := .work rfl
  have hreaches : Relation.ReflTransGen Session.Step .slider .sliderShown :=
    ((Relation.ReflTransGen.single hoffer).tail hpainted).tail hshown
  exact ⟨bootstrap_slider, htells, hreaches, by decide +kernel,
    session_agrees bootstrap_slider htells⟩

end DocRelay
