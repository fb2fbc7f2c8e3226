import DocRelay.Proofs.Document.Reachable

namespace DocRelay

/-!
# Scripts on a document at rest

An application fills its document by a script that is run outside of any cycle.  What it makes of
the document depends on the document alone, and as long as the document is not linked nothing is
posted.

* `Scene.passes_reachable` — the document stays reachable;
* `Scene.passes_unlinked` — without a link nothing is posted, whatever watchers do;
* `Scene.IsLocal`, `Script.run_congr`, `Scene.perform_isLocal` — operations and scripts do the
  same to the same document in all surroundings.
-/

namespace Scene

/-- The document stays reachable wherever a script passes. -/
theorem passes_reachable {script : Script} {s t : Scene}
    (hp : script.Passes (fun op s => s.perform op) s t) (h : s.live.Reachable) :
    t.live.Reachable := by
  induction hp with
  | here => exact h
  | perform _ ih => exact ih (h.perform _)
  | look _ ih => exact ih h
  | note _ ih => exact ih h
  | watch _ ih => exact ih (h.watch _)

/-! ### Documents that are not linked -/

/-- A document that is not linked sends nothing. -/
theorem forward_unlinked {s : Scene} (h : s.live.link = none) (events : List Event) :
    s.forward events = s := by
  unfold forward
  rw [h]

/-- An operation on a document that is not linked posts nothing, and does not link it. -/
theorem perform_unlinked {s : Scene} (h : s.live.link = none) (op : Operation) :
    (s.perform op).2.live.link = none ∧ (s.perform op).2.around.outbox = s.around.outbox := by
  show (s.enqueue op).2.settle.live.link = none ∧
    (s.enqueue op).2.settle.around.outbox = s.around.outbox
  rw [settle]
  split
  · -- A cycle is under way already, and the change waits for it.
    exact ⟨h, rfl⟩
  · have hend : (s.enqueue op).2.cycleEnd.live.link = none := (cycleEnd_link _).trans h
    rw [dispatch_eq, forward_unlinked hend]
    exact ⟨hend, cycleEnd_outbox _⟩

/-- A script on a document that is not linked posts nothing, and does not link it. -/
theorem passes_unlinked {script : Script} {s t : Scene}
    (hp : script.Passes (fun op s => s.perform op) s t) (h : s.live.link = none) :
    t.live.link = none ∧ t.around.outbox = s.around.outbox := by
  induction hp with
  | here => exact ⟨h, rfl⟩
  | @perform op _ s _ _ ih =>
    obtain ⟨hlink, hbox⟩ := perform_unlinked h op
    obtain ⟨hlast, hboxes⟩ := ih hlink
    exact ⟨hlast, hboxes.trans hbox⟩
  | look _ ih => exact ih h
  | note _ ih => exact ih h
  | watch _ ih => exact ih h

end Scene

/-! ### What is forwarded -/

/-- The surroundings with a message posted. -/
def Surroundings.posting (s : Surroundings) (m : OutboundMessage) : Surroundings :=
  { s with outbox := { s.outbox with posted := s.outbox.posted ++ [m] } }

/-- The number of the next patch of a sink. -/
def Surroundings.nextPatch (s : Surroundings) (sink : Sink) : Nat :=
  s.outbox.counters.getD sink.index 1

/-- The surroundings with a patch posted through a sink. -/
def Surroundings.forwarding (s : Surroundings) (sink : Sink) (change : Json)
    (buffers : List Bytes) : Surroundings :=
  { s with outbox :=
    { s.outbox with
      counters := s.outbox.counters.set sink.index (s.nextPatch sink + 1)
      posted := s.outbox.posted ++ [.patch change buffers (Outbox.patchId (s.nextPatch sink))] } }

/-- A post that is no patch leaves the numbers of patches. -/
theorem Surroundings.posting_nextPatch (s : Surroundings) (m : OutboundMessage) (sink : Sink) :
    (s.posting m).nextPatch sink = s.nextPatch sink := rfl

/-- Behind a patch comes the next number. -/
theorem Surroundings.forwarding_nextPatch {s : Surroundings} {sink : Sink}
    (h : sink.index < s.outbox.counters.length) (change : Json) (buffers : List Bytes) :
    (s.forwarding sink change buffers).nextPatch sink = s.nextPatch sink + 1 := by
  show (s.outbox.counters.set sink.index _).getD sink.index 1 = _
  rw [List.getD_eq_getElem?_getD, List.getElem?_set_self h]
  rfl

namespace Scene

/-- Without changes nothing is forwarded. -/
theorem forward_nil (s : Scene) : s.forward [] = s := by
  unfold forward
  cases s.live.link <;> rfl

/-- Changes of a linked document are forwarded as one patch. -/
theorem forward_linked {s : Scene} {sink : Sink} (hl : s.live.link = some sink)
    (ho : s.around.outbox.isOpen = true) (hr : s.around.outbox.isRendered = true)
    {events : List Event} (he : events ≠ []) :
    s.forward events = { s with
      around := s.around.forwarding sink (Patch.toJson events)
        (s.live.document.referencedBuffers events) } := by
  -- The outbox is open and has had the rendering, so it takes the patch under the next number.
  have hsend : ∀ change buffers, s.around.send sink change buffers
      = (.ok (some (Outbox.patchId (s.around.nextPatch sink))),
          s.around.forwarding sink change buffers) := by
    intro change buffers
    have hout : s.around.outbox.send sink change buffers
        = (.ok (some (Outbox.patchId (s.around.nextPatch sink))),
            (s.around.forwarding sink change buffers).outbox) := by
      unfold Outbox.send Outbox.post
      dsimp only
      rw [if_pos hr, if_pos ho]
      rfl
    rw [Surroundings.send, hout]
    rfl
  unfold forward
  cases events with
  | nil => exact absurd rfl he
  | cons event rest =>
    rw [hl]
    dsimp only
    rw [hsend]

/-- Without events no watcher runs. -/
theorem deliver_idle (budget : Nat) {s : Scene} (h : s.live.queue = []) :
    deliver budget s = ([], s) := by
  cases budget with
  | zero => rfl
  | succ budget => rw [deliver, h]

/-- A cycle without events does nothing. -/
theorem dispatch_idle {s : Scene} (h : s.live.queue = []) (hd : s.live.dispatching = false) :
    s.dispatch = s := by
  -- Nothing is delivered, nothing is left over, and so nothing is skipped or sent.
  have hlast : deliver cycleLimit s.begin = ([], s.begin) := deliver_idle _ h
  have hevents : s.cycleEvents = [] := by
    rw [cycleEvents, cycleLast, hlast]
    show [] ++ s.live.queue.flatMap own = []
    rw [h]
    rfl
  have hend : s.cycleEnd = s := by
    rw [cycleEnd, cycleLast, hlast]
    obtain ⟨⟨d, watchers, link, queue, dispatching⟩, around⟩ := s
    cases h
    cases hd
    rfl
  rw [dispatch_eq, hevents, forward_nil, hend]

/-- An operation that changes nothing leaves a document at rest alone. -/
theorem perform_idle {s : Scene} (h : s.live.Reachable) {op : Operation}
    (hop : (s.live.document.perform op).2 = (s.live.document, [])) :
    s.perform op = ((s.live.document.perform op).1, s) := by
  have hmade : (s.enqueue op).2 = s := by
    show Scene.mk ⟨(s.live.document.perform op).2.1, s.live.watchers, s.live.link,
      s.live.queue ++ (s.live.document.perform op).2.2.map _, s.live.dispatching⟩ s.around = s
    rw [hop, List.map_nil, List.append_nil]
  rw [perform_atRest h, hmade, dispatch_idle h.atRest.1 h.atRest.2]
  rfl

end Scene

/-! ### Surroundings do not matter -/

/-- What operations answer and do to the document depends on the document alone. -/
def Scene.IsLocal (perform : Operation → Scene → Except Fault Reply × Scene) : Prop :=
  ∀ op {s t : Scene}, s.live = t.live →
    (perform op s).1 = (perform op t).1 ∧ (perform op s).2.live = (perform op t).2.live

/-- A script does the same to the same document. -/
theorem Script.run_congr {perform : Operation → Scene → Except Fault Reply × Scene}
    (hp : Scene.IsLocal perform) (script : Script) {s t : Scene} (h : s.live = t.live) :
    (script.run perform s).1 = (script.run perform t).1 ∧
      (script.run perform s).2.live = (script.run perform t).2.live := by
  induction script generalizing s t with
  | finish outcome memory => exact ⟨rfl, h⟩
  | perform op next ih =>
    obtain ⟨hreply, hlive⟩ := hp op h
    -- The answers are the same, and so both go on with the same script.
    have hstep : ∀ u : Scene, (Script.perform op next).run perform u
        = (next (perform op u).1).run perform (perform op u).2 := fun _ => rfl
    rw [hstep, hstep, hreply]
    exact ih _ hlive
  | look next ih =>
    rw [run, run, h]
    exact ih _ _ h
  | note entry next ih => exact ih h
  | watch id attr memory body next _ ih =>
    refine ih ?_
    show s.live.addWatcher _ = t.live.addWatcher _
    rw [h]

namespace Scene

theorem enqueue_isLocal : IsLocal fun op s => s.enqueue op := by
  intro op s t h
  cases s
  cases t
  cases h
  exact ⟨rfl, rfl⟩

theorem runWatcher_congr {s t : Scene} (h : s.live = t.live) (id attr : String) (value : Json)
    (w : Watcher) :
    (s.runWatcher id attr value w).1 = (t.runWatcher id attr value w).1 ∧
      (s.runWatcher id attr value w).2.live = (t.runWatcher id attr value w).2.live := by
  by_cases hit : w.id = id ∧ w.attr = attr
  · -- Notices may differ, as they are told to the surroundings.
    obtain ⟨hend, hlive⟩ := Script.run_congr enqueue_isLocal (w.body w.memory value) h
    rw [runWatcher_hit hit, runWatcher_hit hit]
    dsimp only
    rw [hend, told_live, told_live]
    exact ⟨rfl, hlive⟩
  · rw [runWatcher_miss hit, runWatcher_miss hit]
    exact ⟨rfl, h⟩

theorem runEach_congr {s t : Scene} (h : s.live = t.live) (id attr : String) (value : Json)
    (watchers : List Watcher) :
    (s.runEach id attr value watchers).1 = (t.runEach id attr value watchers).1 ∧
      (s.runEach id attr value watchers).2.live = (t.runEach id attr value watchers).2.live := by
  induction watchers generalizing s t with
  | nil => exact ⟨rfl, h⟩
  | cons w rest ih =>
    obtain ⟨hone, hlive⟩ := runWatcher_congr h id attr value w
    obtain ⟨hothers, hlast⟩ := ih hlive
    exact ⟨congrArg₂ List.cons hone hothers, hlast⟩

theorem react_congr {s t : Scene} (h : s.live = t.live) (event : Event) :
    (s.react event).live = (t.react event).live := by
  cases event with
  | modelChanged id attr value =>
    have hbare : (s.withWatchers []).live = (t.withWatchers []).live := by
      rw [withWatchers, withWatchers, h]
    obtain ⟨hkept, hlast⟩ := runEach_congr hbare id attr value t.live.watchers
    rw [react, react, runWatchers_eq, runWatchers_eq, h]
    dsimp only [withWatchers] at hkept hlast ⊢
    rw [hkept, hlast]
  | _ => exact h

/-- A cycle delivers the same events to the same watchers. -/
theorem deliver_congr (budget : Nat) {s t : Scene} (h : s.live = t.live) :
    (deliver budget s).1 = (deliver budget t).1 ∧
      (deliver budget s).2.live = (deliver budget t).2.live := by
  induction budget generalizing s t with
  | zero => exact ⟨rfl, h⟩
  | succ budget ih =>
    rw [deliver, deliver, h]
    split
    · exact ⟨rfl, h⟩
    · rename_i first rest hq
      obtain ⟨hsent, hlast⟩ := ih (react_congr
        (s := { s with live := { t.live with queue := rest } }) (t := t.take rest) rfl first.1)
      exact ⟨congrArg (own first ++ ·) hsent, hlast⟩

theorem dispatch_congr {s t : Scene} (h : s.live = t.live) : s.dispatch.live = t.dispatch.live := by
  have hlast : s.cycleLast.live = t.cycleLast.live :=
    (deliver_congr cycleLimit (s := s.begin) (t := t.begin) (by rw [begin, begin, h])).2
  rw [dispatch_eq, dispatch_eq, forward_live, forward_live, cycleEnd_live, cycleEnd_live, hlast]

/-- **Surroundings do not matter** to an operation and all that follows from it. -/
theorem perform_isLocal : IsLocal fun op s => s.perform op := by
  intro op s t h
  obtain ⟨hreply, hlive⟩ := enqueue_isLocal op h
  refine ⟨hreply, ?_⟩
  show (s.enqueue op).2.settle.live = (t.enqueue op).2.settle.live
  rw [settle, settle, hlive]
  split
  · exact hlive
  · exact dispatch_congr hlive

/-- A script of an application makes the same of the same document. -/
theorem runScript_congr {s t : Scene} (h : s.live = t.live) (script : Script) :
    (s.runScript script).1 = (t.runScript script).1 ∧
      (s.runScript script).2.live = (t.runScript script).2.live := by
  obtain ⟨hend, hlive⟩ := Script.run_congr perform_isLocal script h
  refine ⟨?_, hlive⟩
  show (script.run (fun op s => s.perform op) s).1.1 = (script.run _ t).1.1
  rw [hend]

end Scene

end DocRelay
