import DocRelay.Proofs.Message.RoundTrip
import DocRelay.Proofs.Relay.Binary
import DocRelay.Proofs.Relay.Trace
import DocRelay.Proofs.Worker.Reading
import DocRelay.Proofs.Worker.Serving

namespace DocRelay

/-!
# Serving takes no notice of the schedule

However the three tasks take turns, a host is served as if the input was read first, then dealt
with, and then everything written.

* `Transport.serve_unlimited`, `Setup.ComesTo` — what serving at once comes to;
* `Serving.Steady`, `Serving.steady_step`, `Serving.steady_of_runs` — the invariant: no message is
  lost or out of order;
* `Serving.Orderly`, `Serving.runs_alike` — every run is orderly and ends, and all end alike.
-/

open Transport

/-! ### Serving at once -/

/-- **Frame.** What a worker comes to does not depend on the past. -/
theorem Setup.run_behind (loader : Loader) (messages : List InboundMessage) (st : Setup)
    (past : Past) :
    (st.behind past).run loader messages
      = ((st.run loader messages).1, (st.run loader messages).2.behind past) := by
  rw [run_eq_relays, run_eq_relays]
  exact (Progress.settingUp .fresh).complete_behind loader messages st past

/-- What was told before makes no difference to how a worker ends, nor to what it posts. -/
theorem Setup.run_of_notices (loader : Loader) (messages : List InboundMessage) (w : Worker)
    (s : Surroundings) (notices : List Notice) :
    let told := Setup.run loader messages ⟨w, { s with notices := notices }⟩
    let plain := Setup.run loader messages ⟨w, s⟩
    told.1 = plain.1 ∧ told.2.around.outbox.posted = plain.2.around.outbox.posted := by
  have hbehind : ∀ earlier, Setup.mk w { s with notices := earlier }
      = Setup.behind ⟨w, { s with notices := [] }⟩ ⟨[], earlier⟩ := fun earlier => by
    simp [behind, Surroundings.behind, Outbox.behind]
  have hs : Setup.mk w s = _ := hbehind s.notices
  rw [hbehind, hs, run_behind, run_behind]
  exact ⟨rfl, rfl⟩

/-- What serving a host comes to that takes everything: how the worker ends, and what it posts. -/
theorem Transport.serve_unlimited (manifest : WorkerManifest) (loader : Loader) (input : Bytes)
    (s : Surroundings) :
    let served := serve manifest loader input .unlimited s
    let ran := Setup.run loader (readMessages true input).messages ⟨.ofManifest manifest, s⟩
    served.result = ran.1 ∧ served.written = (ran.2.around.outbox.posted.map lineOf).flatten := by
  -- All that the reading adds to the surroundings is notices, which the run does not look at.
  obtain ⟨notices, hserve⟩ : ∃ notices,
      let told := Setup.run loader (readMessages true input).messages
        ⟨.ofManifest manifest, { s with notices := notices }⟩
      serve manifest loader input .unlimited s = ⟨told.1,
        (told.2.around.outbox.posted.map lineOf).flatten,
        { told.2.around with outbox := told.2.around.outbox.drain.2 }⟩ := by
    simp only [serve, Outbox.drain, writeMessages_unlimited]
    cases (readMessages true input).fault with
    | none =>
      refine ⟨s.notices ++ (readMessages true input).notices, ?_⟩
      dsimp only
    | some fault =>
      refine ⟨s.notices ++ (readMessages true input).notices ++ [.readingStopped fault], ?_⟩
      dsimp only [Surroundings.notify]
  obtain ⟨hsame, hposted⟩ := Setup.run_of_notices loader (readMessages true input).messages
    (.ofManifest manifest) s notices
  dsimp only at hserve hsame hposted ⊢
  rw [hserve, hsame, hposted]
  exact ⟨rfl, rfl⟩

/-- What serving the messages comes to after a setup: how the worker ends, what was posted, and
    the messages that were dealt with. -/
inductive Setup.ComesTo (loader : Loader) (st : Setup) (messages : List InboundMessage) :
    Except Fault Unit → List OutboundMessage → List InboundMessage → Prop where
  /-- No message is dealt with. -/
  | failed {fault : Fault} {after : Setup} (failed : st.bootstrap loader = (.error fault, after)) :
    ComesTo loader st messages (.error fault) after.around.outbox.posted []
  /-- Every message is dealt with in order, and answered behind what the setup has posted. -/
  | served {relay : Relay} {after : Setup} (ready : st.bootstrap loader = (.ok relay, after)) :
    ComesTo loader st messages (.ok ())
      (after.around.outbox.posted ++ (Relay.answers (relay, after.around) messages).flatten)
      messages

/-- After a setup that ends well every message is dealt with. -/
theorem Setup.ComesTo.of_ready {loader : Loader} {st after : Setup} {relay : Relay}
    {messages taken : List InboundMessage} {result : Except Fault Unit}
    {posts : List OutboundMessage} (h : st.ComesTo loader messages result posts taken)
    (ready : st.bootstrap loader = (.ok relay, after)) :
    result = .ok () ∧
      posts = after.around.outbox.posted
        ++ (Relay.answers (relay, after.around) messages).flatten ∧
      taken = messages := by
  cases h with
  | failed failed => cases ready.symm.trans failed
  | served ready' =>
    cases ready.symm.trans ready'
    exact ⟨rfl, rfl, rfl⟩

/-- A worker posts the answers behind the setup. -/
theorem Setup.run_comesTo (loader : Loader) (st : Setup) (messages : List InboundMessage) :
    ∃ taken, ComesTo loader st messages (st.run loader messages).1
      (st.run loader messages).2.around.outbox.posted taken := by
  rw [run_eq_relays]
  cases h : st.bootstrap loader with
  | mk reply after =>
    cases reply with
    | error fault => exact ⟨[], .failed h⟩
    | ok relay =>
      obtain ⟨live, hserves, -, -, -⟩ := serves_of_bootstrap h
      refine ⟨messages, ?_⟩
      dsimp only [relays]
      rw [Relay.run_eq_foldl hserves, Relay.posted_foldl hserves]
      exact .served h

/-- A relay that serves behind a past serves. -/
theorem Relay.Serves.of_behind {r : Relay} {around : Surroundings} {past : Past}
    {live : LiveDocument} (h : r.Serves (around.behind past) live) : r.Serves around live :=
  ⟨h.document, h.reachable, h.link, h.isOpen, h.isRendered, h.known⟩

namespace Serving

variable {loader : Loader} {s t : Serving}

/-! ### No message is lost -/

/-- The queue of a worker that gets on is as it was. -/
theorem reaching_inbound (s : Serving) (p : Progress × Setup) :
    (s.reaching p).inbound = s.inbound := by
  obtain ⟨progress, st⟩ := p
  cases progress <;> rfl

/-- **Step.** No more messages wait in the queue than there is room for. -/
theorem step_room (h : Step loader s t) (room : s.inbound.length ≤ inboundLimit) :
    t.inbound.length ≤ inboundLimit := by
  cases h with
  | read next => exact (reads_reading next).room room
  | hangUp ended => exact room
  | send held free => exact (reads_sending held free).room room
  | setUp reached =>
    rw [reaching_inbound]
    exact room
  | @handle r m rest reached first =>
    obtain ⟨p, heq, -⟩ := s.handling_eq_reaching r m rest
    rw [heq, reaching_inbound]
    rw [first] at room
    exact Nat.le_of_succ_le room
  | stop reached nothing gone => exact room
  | write first => exact room

/-- What holds at all times, for the setup and the messages that are served. -/
inductive Steady (loader : Loader) (st : Setup) (messages : List InboundMessage) (s : Serving) :
    Prop where
  /-- The setup comes to what it comes to at once, behind what is written by now. -/
  | settingUp {stage : Stage} {past : Past} (reached : s.progress = .settingUp stage)
    (onward : st.bootstrap loader = ((s.setup.fromStage loader stage).1,
      (s.setup.fromStage loader stage).2.behind past))
    (nothing : s.taken = []) (kept : s.inbound ++ s.reader.ahead = messages) :
    Steady loader st messages s
  | relaying {r relay : Relay} {live : LiveDocument} {after : Setup}
    (reached : s.progress = .relaying r) (ready : st.bootstrap loader = (.ok relay, after))
    (serves : r.Serves s.setup.around live)
    (kept : s.taken ++ (s.inbound ++ s.reader.ahead) = messages) : Steady loader st messages s
  | served {relay : Relay} {after : Setup} (reached : s.progress = .ended (.ok ()))
    (gone : s.reader = .gone) (ready : st.bootstrap loader = (.ok relay, after))
    (nothing : s.inbound = []) (kept : s.taken = messages) : Steady loader st messages s
  /-- What was read by then is lost with what was not. -/
  | failed {fault : Fault} {after : Setup} (reached : s.progress = .ended (.error fault))
    (gone : s.reader = .gone) (failed : st.bootstrap loader = (.error fault, after))
    (nothing : s.taken = []) (kept : s.inbound <+: messages) : Steady loader st messages s

variable {st : Setup} {messages : List InboundMessage}

/-- **Step.** The reading gets on. -/
theorem Steady.reads (h : Steady loader st messages s) (hst : Reads s t) :
    Steady loader st messages t := by
  cases h with
  | settingUp reached onward nothing kept =>
    exact .settingUp (hst.progress.trans reached) (hst.setup ▸ onward) (hst.taken.trans nothing)
      (hst.kept.trans kept)
  | relaying reached ready serves kept =>
    exact .relaying (hst.progress.trans reached) ready (hst.setup ▸ serves)
      (by rw [hst.taken, hst.kept, kept])
  | served _ gone _ _ _ => exact absurd gone hst.going
  | failed _ gone _ _ _ => exact absurd gone hst.going

/-- **Step.** The setup gets on. -/
theorem Steady.setUp (h : Steady loader st messages s) {stage : Stage}
    (reached : s.progress = .settingUp stage) :
    Steady loader st messages (s.reaching (s.setup.step loader stage)) := by
  cases h with
  | @settingUp other past reached' onward nothing kept =>
    -- Where the step leads is where the whole setup comes to, which is the same as before the step.
    obtain rfl : stage = other := Progress.settingUp.inj (reached.symm.trans reached')
    have hleads := s.setup.step_leads loader stage
    generalize s.setup.step loader stage = p at hleads
    generalize s.setup.fromStage loader stage = whole at onward hleads
    cases hleads with
    | settingUp next =>
      rw [← next] at onward
      exact .settingUp rfl onward nothing kept
    | relaying ready =>
      rw [ready] at onward
      obtain ⟨live, hserves, -, -, -⟩ := Setup.serves_of_bootstrap onward
      refine .relaying rfl onward hserves.of_behind ?_
      show s.taken ++ _ = _
      rw [nothing]
      exact kept
    | ended failed =>
      rw [failed] at onward
      exact .failed rfl rfl onward nothing ⟨_, kept⟩
  | relaying reached' => cases reached.symm.trans reached'
  | served reached' => cases reached.symm.trans reached'
  | failed reached' => cases reached.symm.trans reached'

/-- A relay that serves deals with a message by a turn. -/
theorem handling_eq_turn {r : Relay} {live : LiveDocument} (h : r.Serves s.setup.around live)
    (m : InboundMessage) (rest : List InboundMessage) :
    s.handling r m rest = { s with
      inbound := rest
      taken := s.taken ++ [m]
      progress := .relaying (Relay.turn (r, s.setup.around) m).1
      setup := { s.setup with around := (Relay.turn (r, s.setup.around) m).2 } } := by
  have hgoesOn := (Relay.turn_turned h m).goesOn
  unfold handling Relay.turn
  dsimp only at hgoesOn ⊢
  generalize r.handle m s.setup.around = handled at hgoesOn ⊢
  obtain ⟨reply, relay, after⟩ := handled
  cases reply with
  | ok done => rfl
  | error fault =>
    dsimp only
    rw [if_neg (by simp [hgoesOn fault rfl])]
    rfl

/-- What holds while messages are relayed. -/
theorem Steady.of_relaying (h : Steady loader st messages s) {r : Relay}
    (reached : s.progress = .relaying r) :
    ∃ relay live after, st.bootstrap loader = (.ok relay, after) ∧
      r.Serves s.setup.around live ∧ s.taken ++ (s.inbound ++ s.reader.ahead) = messages := by
  cases h with
  | @relaying other relay live after reached' ready serves kept =>
    obtain rfl : r = other := Progress.relaying.inj (reached.symm.trans reached')
    exact ⟨relay, live, after, ready, serves, kept⟩
  | settingUp reached' => cases reached.symm.trans reached'
  | served reached' => cases reached.symm.trans reached'
  | failed reached' => cases reached.symm.trans reached'

/-- **Step.** The relay deals with a message. -/
theorem Steady.handle (h : Steady loader st messages s) {r : Relay} {m : InboundMessage}
    {rest : List InboundMessage} (reached : s.progress = .relaying r)
    (first : s.inbound = m :: rest) : Steady loader st messages (s.handling r m rest) := by
  obtain ⟨relay, live, after, ready, serves, kept⟩ := h.of_relaying reached
  obtain ⟨next, hnext⟩ := (Relay.turn_turned serves m).serves
  rw [handling_eq_turn serves]
  refine .relaying rfl ready hnext ?_
  rw [← kept, first]
  exact List.append_assoc _ _ _

/-- **Step.** There are no messages any more. -/
theorem Steady.stop (h : Steady loader st messages s) {r : Relay}
    (reached : s.progress = .relaying r) (nothing : s.inbound = []) (gone : s.reader = .gone) :
    Steady loader st messages (s.reaching (.ended (.ok ()), s.setup)) := by
  obtain ⟨relay, live, after, ready, -, kept⟩ := h.of_relaying reached
  rw [nothing, gone] at kept
  exact .served rfl rfl ready nothing ((List.append_nil _).symm.trans kept)

/-- **Step.** A message is written. -/
theorem Steady.write (h : Steady loader st messages s) {m : OutboundMessage}
    {rest : List OutboundMessage} (first : s.posted = m :: rest) :
    Steady loader st messages (s.writing m rest) := by
  have hpast := writing_behind first
  cases h with
  | @settingUp stage past reached onward nothing kept =>
    rw [← hpast, Setup.fromStage_behind] at onward
    -- What is written now has become part of the past.
    dsimp only at onward
    rw [Setup.behind_behind] at onward
    exact .settingUp reached onward nothing kept
  | relaying reached ready serves kept =>
    rw [← hpast] at serves
    exact .relaying reached ready serves.of_behind kept
  | served reached gone ready nothing kept => exact .served reached gone ready nothing kept
  | failed reached gone failed nothing kept => exact .failed reached gone failed nothing kept

/-- **Step.** Whatever happens next, it stays steady. -/
theorem steady_step (h : Steady loader st messages s) (hst : Step loader s t) :
    Steady loader st messages t := by
  cases hst with
  | read next => exact h.reads (reads_reading next)
  | hangUp ended => exact h.reads (reads_hangUp ended)
  | send held room => exact h.reads (reads_sending held room)
  | setUp reached => exact h.setUp reached
  | handle reached first => exact h.handle reached first
  | stop reached nothing gone => exact h.stop reached nothing gone
  | write first => exact h.write first

/-- **Run.** It is steady at all times, and there is always room for what waits in the queue. -/
theorem steady_of_runs {n : Nat} (h : Runs loader n s t) (hs : Steady loader st messages s)
    (room : s.inbound.length ≤ inboundLimit) :
    Steady loader st messages t ∧ t.inbound.length ≤ inboundLimit := by
  induction h with
  | here => exact ⟨hs, room⟩
  | step _ last ih =>
    obtain ⟨hsteady, hroom⟩ := ih hs room
    exact ⟨steady_step hsteady last, step_room last hroom⟩

/-! ### Every run comes to the same -/

/-- No message is lost, comes twice, or comes before an earlier one. -/
structure Orderly (s : Serving) (messages : List InboundMessage) : Prop where
  room : s.inbound.length ≤ inboundLimit
  /-- What was taken and what waits in the queue is the beginning of what the host has sent. -/
  inOrder : s.taken ++ s.inbound <+: messages
  /-- Unless the setup has failed, all the rest is still to come. -/
  kept : (∀ fault, s.progress ≠ .ended (.error fault)) →
    s.taken ++ (s.inbound ++ s.reader.ahead) = messages

theorem Steady.kept (h : Steady loader st messages s)
    (hp : ∀ fault, s.progress ≠ .ended (.error fault)) :
    s.taken ++ (s.inbound ++ s.reader.ahead) = messages := by
  cases h with
  | settingUp _ _ nothing kept => rw [nothing, kept]; rfl
  | relaying _ _ _ kept => exact kept
  | served _ gone _ nothing kept => rw [nothing, gone, kept]; exact List.append_nil _
  | failed reached _ _ _ _ => exact absurd reached (hp _)

theorem Steady.inOrder (h : Steady loader st messages s) : s.taken ++ s.inbound <+: messages := by
  cases h with
  | settingUp _ _ nothing kept => rw [nothing]; exact ⟨_, kept⟩
  | relaying _ _ _ kept => exact ⟨_, (List.append_assoc _ _ _).trans kept⟩
  | served _ _ _ nothing kept =>
    exact ⟨[], by rw [nothing, kept, List.append_nil, List.append_nil]⟩
  | failed _ _ _ nothing kept => rw [nothing]; exact kept

/-- There is nothing to do any more if and only if the worker has ended and everything is
    written. -/
theorem Steady.forall_not_step_iff (h : Steady loader st messages s) :
    (∀ t, ¬Step loader s t) ↔ s.IsDone := by
  refine ⟨fun hno => ?_, fun hdone t hst => ?_⟩
  · by_contra hdone
    obtain ⟨t, hst⟩ := exists_step loader hdone
    exact hno t hst
  · obtain ⟨⟨result, hresult⟩, hposted⟩ := hdone
    -- The reader of an ended worker is gone.
    have hgone : s.reader = .gone := by
      cases h with
      | settingUp reached => cases hresult.symm.trans reached
      | relaying reached => cases hresult.symm.trans reached
      | served _ gone => exact gone
      | failed _ gone => exact gone
    cases hst with
    | read next => cases hgone.symm.trans next
    | hangUp next => cases hgone.symm.trans next
    | send next => cases hgone.symm.trans next
    | setUp reached => cases hresult.symm.trans reached
    | handle reached => cases hresult.symm.trans reached
    | stop reached => cases hresult.symm.trans reached
    | write first => cases hposted.symm.trans first

/-- At the end nothing is to come any more. -/
theorem IsDone.outcome (h : s.IsDone) (loader : Loader) :
    ∃ result, s.progress = .ended result ∧ s.outcome loader = (result, s.written) := by
  obtain ⟨⟨result, hresult⟩, hposted⟩ := h
  have hcome : s.toCome loader = (result, s.setup) := by
    rw [toCome, hresult]
    rfl
  refine ⟨result, hresult, ?_⟩
  rw [Serving.outcome, hcome]
  show (result, s.written ++ (s.posted.map lineOf).flatten) = _
  rw [hposted]
  exact congrArg _ (List.append_nil _)

/-- The messages that were dealt with at the end are those that the setup lets be dealt with. -/
theorem Steady.taken_eq (h : Steady loader st messages s) (hdone : s.IsDone)
    {result : Except Fault Unit} {posts : List OutboundMessage} {taken : List InboundMessage}
    (hc : st.ComesTo loader messages result posts taken) : s.taken = taken := by
  obtain ⟨⟨last, hlast⟩, -⟩ := hdone
  cases h with
  | settingUp reached => cases hlast.symm.trans reached
  | relaying reached => cases hlast.symm.trans reached
  | served _ _ ready _ kept => exact kept.trans (hc.of_ready ready).2.2.symm
  | failed _ _ failed nothing _ =>
    cases hc with
    | failed => exact nothing
    | served ready => cases failed.symm.trans ready

/-- It is steady before the first step. -/
theorem start_steady (loader : Loader) (manifest : WorkerManifest) (input : Bytes)
    (s : Surroundings) :
    Steady loader ⟨.ofManifest manifest, s⟩ (readMessages true input).messages
      (start manifest input s) := by
  -- There is no past yet.
  have honward : Setup.bootstrap loader ⟨.ofManifest manifest, s⟩
      = (((start manifest input s).setup.fromStage loader .fresh).1,
        ((start manifest input s).setup.fromStage loader .fresh).2.behind ⟨[], []⟩) := rfl
  exact .settingUp rfl honward rfl rfl

/-- **Serving.** However the tasks take turns, there is an end, and it is the same as if the host
    was served at once: the worker ends in the same way, and the same bytes are written.  They are
    the lines of what the setup has posted and, if there is a relay, of its answers to all messages
    of the input, one after the other: each is the text of its message and a newline, and if these
    are messages that their lines carry, the host reads them from there.  At all times the messages
    that were taken and those that wait are the first of the input, no more wait than there is room
    for, and unless the setup has failed the others are still to come; what is written is the
    beginning of what is written in all. -/
theorem runs_alike (manifest : WorkerManifest) (loader : Loader) (input : Bytes)
    (s : Surroundings) :
    let messages := (readMessages true input).messages
    let served := serve manifest loader input .unlimited s
    ∃ bound posts taken,
      Setup.ComesTo loader ⟨.ofManifest manifest, s⟩ messages served.result posts taken ∧
      served.written = (posts.map fun m => Text.utf8 m.toLine ++ [newline]).flatten ∧
      ((∀ m ∈ posts, m.IsCarried) → ∃ lines,
        served.written.splitOn newline = lines ++ [[]] ∧
        lines.map OutboundMessage.ofBytes? = posts.map some) ∧
      (∃ n t, Runs loader n (start manifest input s) t ∧ t.IsDone) ∧
      ∀ n t, Runs loader n (start manifest input s) t →
        n ≤ bound ∧ t.Orderly messages ∧ t.written <+: served.written ∧
        ((∀ u, ¬Step loader t u) ↔ t.IsDone) ∧
        (t.IsDone → t.progress = .ended served.result ∧ t.written = served.written ∧
          t.taken = taken) := by
  obtain ⟨hresult, hwritten⟩ := serve_unlimited manifest loader input s
  obtain ⟨taken, hcomes⟩ := Setup.run_comesTo loader ⟨.ofManifest manifest, s⟩
    (readMessages true input).messages
  dsimp only at hresult hwritten ⊢
  rw [← hresult] at hcomes
  refine ⟨(start manifest input s).size loader, _, taken, hcomes, hwritten, fun hcarried => ?_,
    exists_runs_isDone loader _, fun n t hruns => ?_⟩
  · obtain ⟨lines, hsplit, -, hread⟩ := exists_lines hcarried
    exact ⟨lines, by rw [hwritten, hsplit], hread⟩
  · obtain ⟨houtcome, hsize⟩ := hruns.outcome
    obtain ⟨hsteady, hroom⟩ := steady_of_runs hruns (start_steady loader manifest input s)
      (Nat.zero_le _)
    -- At the start, what the tasks come to is what the worker comes to with all messages.
    have hstart : (start manifest input s).outcome loader
        = ((serve manifest loader input .unlimited s).result,
            (serve manifest loader input .unlimited s).written) := by
      rw [hresult, hwritten, Setup.run_eq_relays]
      rfl
    rw [hstart] at houtcome
    refine ⟨Nat.le_of_add_right_le hsize, ⟨hroom, hsteady.inOrder, hsteady.kept⟩,
      ⟨_, congrArg Prod.snd houtcome⟩, hsteady.forall_not_step_iff, fun hdone => ?_⟩
    obtain ⟨result, hprogress, hlast⟩ := hdone.outcome loader
    obtain ⟨rfl, htwritten⟩ := Prod.mk.inj (hlast.symm.trans houtcome)
    exact ⟨hprogress, htwritten, hsteady.taken_eq hdone hcomes⟩

/-- The lines of a host that moves the slider. -/
def movingLines : Bytes :=
  (Relay.drawingMessages.map fun m => Text.utf8 m.toLine ++ [newline]).flatten

/-- What is posted then. -/
def movingPosts : List OutboundMessage :=
  [.status "Loading native runtime", .status "Executing code",
    .render ⟨.obj [("doc-1", .obj [
        ("roots", .obj [
          ("references", .arr [.obj [
            ("attributes", .obj [("shown", .int 2), ("value", .int 2)]),
            ("id", .str "m1"), ("type", .str "Slider")]]),
          ("root_ids", .arr [.str "m1"])]),
        ("title", .str "")])],
      .arr [.obj [("docid", .str "doc-1"), ("root_ids", .arr [.str "m1"]),
        ("roots", .obj [("m1", .str "el-m1")])]],
      .arr [.str "m1"]⟩,
    .patch (Patch.toJson [.modelChanged "m1" "shown" (.int 7)]) [] "patch-1", .idle]

/-- Their lines carry them. -/
theorem isCarried_movingPosts : ∀ m ∈ movingPosts, m.IsCarried := by
  simp only [movingPosts, List.forall_mem_cons]
  refine ⟨OutboundMessage.isCarried_status _, OutboundMessage.isCarried_status _,
    OutboundMessage.isCarried_render ⟨rfl, ?_⟩ ⟨rfl, ?_⟩ ⟨rfl, ?_⟩,
    OutboundMessage.isCarried_patch ⟨rfl, ?_⟩, OutboundMessage.isCarried_idle,
    fun _ hm => absurd hm List.not_mem_nil⟩
  all_goals simp [Patch.toJson, Event.toJson, Model.reference, Json.IsPortable, Json.depthLimit,
    Json.IsWord, Json.maxWord]

/-- A host that moves the slider is served: the worker ends well, and the host reads what was
    posted from its lines. -/
theorem runs_alike_moving :
    let served := serve Setup.slider.worker.manifest .slider movingLines .unlimited .empty
    (readMessages true movingLines).messages = Relay.drawingMessages ∧
    (∀ m ∈ movingPosts, m.IsCarried) ∧
    served.result = .ok () ∧
    served.written = (movingPosts.map fun m => Text.utf8 m.toLine ++ [newline]).flatten ∧
    (∃ lines, served.written.splitOn newline = lines ++ [[]] ∧
      lines.map OutboundMessage.ofBytes? = movingPosts.map some) ∧
    ∃ n t, Runs .slider n (start Setup.slider.worker.manifest movingLines .empty) t ∧
      t.progress = .ended (.ok ()) ∧ t.written = served.written ∧
      t.taken = Relay.drawingMessages := by
  dsimp only
  have hmessages : (readMessages true movingLines).messages = Relay.drawingMessages :=
    (readMessages_written Relay.drawingMessages).1
  have hposts : Setup.sliderReady.around.outbox.posted
      ++ (Relay.answers (.slider, Setup.sliderReady.around) Relay.drawingMessages).flatten
        = movingPosts := by
    simp only [Relay.drawingMessages, Relay.answers, Relay.posts, Relay.turn, Relay.handle,
      Relay.onPatch, Relay.readPatch_sliderMove]
    rfl
  obtain ⟨bound, posts, taken, hcomes, hwritten, hlines, ⟨n, t, hruns, hdone⟩, hall⟩ :=
    runs_alike Setup.slider.worker.manifest .slider movingLines .empty
  obtain ⟨hresult, rfl, rfl⟩ := hcomes.of_ready Setup.bootstrap_slider
  obtain ⟨-, -, -, -, hend⟩ := hall n t hruns
  obtain ⟨hprogress, htwritten, htaken⟩ := hend hdone
  rw [hmessages, hposts] at hwritten hlines
  rw [hmessages] at htaken
  rw [hresult] at hprogress
  exact ⟨hmessages, isCarried_movingPosts, hresult, hwritten, hlines isCarried_movingPosts, n, t,
    hruns, hprogress, htwritten, htaken⟩

end Serving

end DocRelay
