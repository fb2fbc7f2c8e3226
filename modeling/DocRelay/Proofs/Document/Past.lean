import DocRelay.Proofs.Document.Aside

namespace DocRelay

/-!
# The past does not matter

What was posted and told before makes no difference to what is posted and told next: everything
that is done in some surroundings is done in the same way behind a past.

* `Past` — what was posted and told; `Surroundings.behind` — the surroundings behind a past;
* `Outbox.post_behind`, `Surroundings.send_behind` — messages and patches;
* `Surroundings.isAside_behind`, `Scene.dispatch_behind` — a past stands aside; cycles;
* `Scene.perform_behind`, `Scene.runScript_behind` — operations and applications.
-/

/-- What was posted and told in the past. -/
structure Past where
  posted : List OutboundMessage
  notices : List Notice

/-! ### Outboxes -/

namespace Outbox

/-- The outbox behind messages that were posted before. -/
def behind (o : Outbox) (earlier : List OutboundMessage) : Outbox :=
  { o with posted := earlier ++ o.posted }

theorem post_behind (o : Outbox) (earlier : List OutboundMessage) (m : OutboundMessage) :
    (o.behind earlier).post m = ((o.post m).1, (o.post m).2.behind earlier) := by
  by_cases h : o.isOpen = true
  · simp [post, behind, h]
  · simp [post, behind, h]

theorem render_behind (o : Outbox) (earlier : List OutboundMessage) (payload : RenderPayload) :
    (o.behind earlier).render payload
      = ((o.render payload).1, (o.render payload).2.behind earlier) := by
  have hrendered : (o.behind earlier).isRendered = o.isRendered := rfl
  rw [render, render, hrendered]
  split
  · rfl
  · exact post_behind { o with isRendered := true } earlier _

/-- The number of the next patch of a sink. -/
def nextPatch (o : Outbox) (sink : Sink) : Nat := o.counters.getD sink.index 1

/-- The number of the next patch of a sink is used up. -/
def numbered (o : Outbox) (sink : Sink) : Outbox :=
  { o with counters := o.counters.set sink.index (o.nextPatch sink + 1) }

/-- A patch that is not dropped uses up its number, and is posted. -/
theorem send_of_isRendered {o : Outbox} (h : o.isRendered = true) (sink : Sink) (change : Json)
    (buffers : List Bytes) :
    o.send sink change buffers =
      let sent := (o.numbered sink).post (.patch change buffers (patchId (o.nextPatch sink)))
      (sent.1.map fun _ => some (patchId (o.nextPatch sink)), sent.2) := by
  rw [send, if_pos h, numbered, nextPatch]
  dsimp only
  generalize Outbox.post _ _ = sent
  obtain ⟨reply, after⟩ := sent
  cases reply <;> rfl

theorem send_behind (o : Outbox) (earlier : List OutboundMessage) (sink : Sink) (change : Json)
    (buffers : List Bytes) :
    (o.behind earlier).send sink change buffers
      = ((o.send sink change buffers).1, (o.send sink change buffers).2.behind earlier) := by
  have hrendered : (o.behind earlier).isRendered = o.isRendered := rfl
  have hnextPatch : (o.behind earlier).nextPatch sink = o.nextPatch sink := rfl
  have hnumbered : (o.behind earlier).numbered sink = (o.numbered sink).behind earlier := rfl
  cases h : o.isRendered with
  | false => rw [send_of_not_isRendered (hrendered.trans h), send_of_not_isRendered h]
  | true =>
    rw [send_of_isRendered (hrendered.trans h), send_of_isRendered h, hnextPatch, hnumbered,
      post_behind]

end Outbox

/-! ### Surroundings -/

namespace Surroundings

/-- The surroundings behind a past. -/
def behind (s : Surroundings) (past : Past) : Surroundings :=
  { s with
    outbox := s.outbox.behind past.posted
    notices := past.notices ++ s.notices }

theorem notify_behind (s : Surroundings) (past : Past) (n : Notice) :
    (s.behind past).notify n = (s.notify n).behind past := by
  simp [notify, behind]

theorem send_behind (s : Surroundings) (past : Past) (sink : Sink) (change : Json)
    (buffers : List Bytes) :
    (s.behind past).send sink change buffers
      = ((s.send sink change buffers).1, (s.send sink change buffers).2.behind past) := by
  have hsend : (s.behind past).outbox.send sink change buffers = _ :=
    s.outbox.send_behind past.posted sink change buffers
  rw [send, send, hsend]
  generalize s.outbox.send sink change buffers = sent
  obtain ⟨reply, after⟩ := sent
  rcases reply with fault | _ | id
  · rfl
  · simp [behind, notify]
  · rfl

theorem isAside_behind (past : Past) : IsAside (·.behind past) where
  notify s n := s.notify_behind past n
  note _ _ := rfl

end Surroundings

/-! ### Scenes -/

/-- The scene behind a past. -/
def Scene.behind (s : Scene) (past : Past) : Scene := { s with around := s.around.behind past }

namespace Scene

theorem forward_behind (s : Scene) (past : Past) (events : List Event) :
    (s.behind past).forward events = (s.forward events).behind past := by
  have hlive : (s.behind past).live = s.live := rfl
  unfold forward
  rw [hlive]
  cases s.live.link with
  | none => rfl
  | some sink =>
    cases events with
    | nil => rfl
    | cons event rest =>
      -- Sending goes the same way behind a past, and so does what is told when it fails.
      have hsend := s.around.send_behind past sink (Patch.toJson (event :: rest))
        (s.live.document.referencedBuffers (event :: rest))
      dsimp only
      rw [show (s.behind past).around = s.around.behind past from rfl, hsend]
      generalize s.around.send sink _ _ = sent
      obtain ⟨reply, after⟩ := sent
      cases reply with
      | ok id => rfl
      | error fault =>
        dsimp only
        rw [Surroundings.notify_behind]
        rfl

/-- **A cycle** is the same behind a past. -/
theorem dispatch_behind (s : Scene) (past : Past) :
    (s.behind past).dispatch = s.dispatch.behind past := by
  obtain ⟨hend, hevents⟩ := cycleEnd_altered (Surroundings.isAside_behind past) s
  rw [dispatch_eq, dispatch_eq, show s.behind past = s.altered (·.behind past) from rfl, hend,
    hevents]
  exact forward_behind s.cycleEnd past s.cycleEvents

/-- **An operation** is the same behind a past, with all that follows from it. -/
theorem perform_behind (s : Scene) (past : Past) (op : Operation) :
    (s.behind past).perform op = ((s.perform op).1, (s.perform op).2.behind past) := by
  have hmade : (s.behind past).enqueue op = ((s.enqueue op).1, (s.enqueue op).2.behind past) := rfl
  rw [perform, perform, hmade]
  dsimp only
  rw [settle, settle, show ((s.enqueue op).2.behind past).live = (s.enqueue op).2.live from rfl]
  split
  · rfl
  · rw [dispatch_behind]

/-- **An application** does the same behind a past. -/
theorem runScript_behind (s : Scene) (past : Past) (script : Script) :
    (s.behind past).runScript script
      = ((s.runScript script).1, (s.runScript script).2.behind past) := by
  have hrun := Script.run_altered (Surroundings.isAside_behind past) (fun op s => s.perform op)
    (fun op s => perform_behind s past op) script s
  unfold runScript
  rw [show s.behind past = s.altered (·.behind past) from rfl, hrun]
  rfl

end Scene

end DocRelay
