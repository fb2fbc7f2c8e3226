import DocRelay.Proofs.Document.AtRest
import DocRelay.Proofs.Document.Mutations
import DocRelay.Proofs.Document.Telling

namespace DocRelay

/-!
# Patches as a whole

A patch is taken or refused as a whole, whoever applies it: the host, the application, or a watcher
in the middle of a cycle.  One that is taken does what its events do one after the other, and
watchers run behind the last of them.

* `LiveDocument.Callable` — the documents on which an operation can be performed;
* `Content.Allows`, `Content.Refuses` — an event that is possible, and a patch that is refused;
  `Content.refuses_iff` — there is no other reason;
* `Scene.performEvent` — the change of one event, followed by a cycle unless one is under way;
* `Scene.changed`, `Scene.foldlM_performEvent` — while a cycle is under way the events in turn
  change the content and lengthen the queue, and nothing else;
* `Scene.IsUnawaited`, `Scene.deliver_unawaited` — events that no watcher waits for;
* `Scene.ActsInTurn`, `Scene.actsInTurn` — two patches in one act as one after the other;
* `Scene.applyPatch_allOrNothing` — a patch is refused for a reason and does nothing, or is taken
  and does what its events do in turn, before any watcher runs.
-/

/-- A document on which an operation can be performed: at rest, or by a watcher while a cycle is
    under way. -/
inductive LiveDocument.Callable : LiveDocument → Prop where
  | atRest {d : LiveDocument} (h : d.Reachable) : Callable d
  | inCycle {s t : Scene} {op : Operation} (h : s.live.Reachable)
    (passed : Scene.CyclePasses cycleLimit (s.enqueue op).2.begin t) : Callable t.live

/-- A document that is not at rest has a cycle under way. -/
theorem LiveDocument.Callable.cases {d : LiveDocument} (h : d.Callable) :
    d.Reachable ∨ d.dispatching = true := by
  cases h with
  | atRest h => exact .inl h
  | inCycle _ passed => exact .inr (Scene.cyclePasses_sameSetting passed).dispatching

/-! ### Refusal -/

namespace Content

/-- The event is possible. -/
def Allows (c : Content) : Event → Prop
  | .modelChanged id _ _ => id ∈ c.models.keys
  | .rootAdded m => m.id ∉ c.models.keys
  | .rootRemoved id => id ∈ c.roots
  | .titleChanged _ => True

/-- The patch is refused: the value is no patch, or one of its events is not possible where those
    before it lead to. -/
inductive Refuses (c : Content) (change : Json) : Prop where
  | undecodable {cause : Json.Misfit} (misfit : Patch.decode change = .error cause)
  | impossible {before rest : List Event} {event : Event} {mid : Content}
    (decoded : Patch.decode change = .ok (before ++ event :: rest))
    (led : c.followAll before = .ok mid) (no : ¬mid.Allows event)

/-- What is possible can be followed, and nothing else can. -/
theorem follow_eq_ok_iff {c : Content} {event : Event} :
    (∃ after, c.follow event = .ok after) ↔ c.Allows event := by
  cases event with
  | modelChanged id attr value =>
    rw [Allows, ← Table.contains_iff_mem_keys, Table.contains, follow]
    cases c.models.get? id <;> simp
  | rootAdded m =>
    rw [Allows, ← Table.contains_iff_mem_keys, follow]
    split <;> simp_all
  | rootRemoved id =>
    rw [Allows, ← List.contains_iff_mem, follow]
    split <;> simp_all
  | titleChanged title => exact ⟨fun _ => trivial, fun _ => ⟨_, rfl⟩⟩

/-- Events cannot be followed if one of them is not possible where those before it lead to. -/
theorem followAll_eq_error_iff {c : Content} {events : List Event} :
    (∃ fault, c.followAll events = .error fault) ↔
      ∃ before event rest mid, events = before ++ event :: rest ∧ c.followAll before = .ok mid ∧
        ¬mid.Allows event := by
  constructor
  · rintro ⟨fault, h⟩
    -- By induction on the events: the bad one is the first, or it is bad among the others.
    induction events generalizing c with
    | nil => cases h
    | cons event rest ih =>
      rw [followAll] at h
      cases hf : c.follow event with
      | error cause =>
        refine ⟨[], event, rest, c, rfl, rfl, fun hall => ?_⟩
        obtain ⟨after, hok⟩ := follow_eq_ok_iff.mpr hall
        rw [hf] at hok
        cases hok
      | ok after =>
        rw [hf] at h
        obtain ⟨before, bad, others, mid, rfl, hled, hno⟩ := ih h
        exact ⟨event :: before, bad, others, mid, rfl, (followAll_cons hf before).trans hled, hno⟩
  · rintro ⟨before, event, rest, mid, rfl, hled, hno⟩
    rw [followAll_append hled, followAll]
    cases hf : mid.follow event with
    | error fault => exact ⟨fault, rfl⟩
    | ok after => exact absurd (follow_eq_ok_iff.mp ⟨after, hf⟩) hno

/-- A patch that can be decoded is applied if its events can be followed. -/
theorem applied_eq_ok_iff {c after : Content} {change : Json} {events : List Event}
    (hj : Patch.decode change = .ok events) :
    c.applied change = .ok after ↔ c.followAll events = .ok after := by
  simp only [applied, hj]
  cases c.followAll events <;> simp

/-- **A patch is refused** if it cannot be decoded or followed. -/
theorem refuses_iff {c : Content} {change : Json} :
    c.Refuses change ↔ ∃ fault, c.applied change = .error fault := by
  rw [applied]
  constructor
  · rintro (misfit | ⟨decoded, led, no⟩)
    · rw [misfit]
      exact ⟨_, rfl⟩
    · obtain ⟨fault, hf⟩ := followAll_eq_error_iff.mpr ⟨_, _, _, _, rfl, led, no⟩
      rw [decoded]
      dsimp only
      rw [hf]
      exact ⟨_, rfl⟩
  · rintro ⟨fault, h⟩
    cases hj : Patch.decode change with
    | error cause => exact .undecodable hj
    | ok events =>
      rw [hj] at h
      dsimp only at h
      -- The patch can be decoded, so it is one of its events that is not possible.
      cases hf : c.followAll events with
      | ok after =>
        rw [hf] at h
        cases h
      | error cause =>
        obtain ⟨before, event, rest, mid, rfl, hled, hno⟩ := followAll_eq_error_iff.mp ⟨_, hf⟩
        exact .impossible hj hled hno

end Content

/-- The watcher waits for the event. -/
def Watcher.Awaits (w : Watcher) : Event → Prop
  | .modelChanged id attr _ => w.id = id ∧ w.attr = attr
  | .rootAdded _ | .rootRemoved _ | .titleChanged _ => False

namespace Scene

/-! ### One event after the other -/

/-- Makes the change of one event, followed by a cycle unless one is under way. -/
def performEvent (origin : Origin) (s : Scene) (event : Event) : Except PatchFault Scene :=
  (s.live.document.applyEvent event).map fun (after, told) =>
    settle { s with live := { s.live with
      document := after, queue := s.live.queue ++ told.map fun event => (event, origin) } }

/-- The scene with another content, and with changes behind the others in the queue. -/
def changed (s : Scene) (c : Content) (made : List Event) (origin : Origin) : Scene :=
  { s with live := { s.live with
    document := s.live.document.withContent c
    queue := s.live.queue ++ made.map fun event => (event, origin) } }

/-- Changes that are made one after the other are queued in that order. -/
theorem changed_changed (s : Scene) (mid c : Content) (first second : List Event)
    (origin : Origin) :
    (s.changed mid first origin).changed c second origin
      = s.changed c (first ++ second) origin := by
  simp [changed]

/-- **Events in turn.** While a cycle is under way, events that can be followed are made one after
    the other, and all that comes of them is the content and the queue. -/
theorem foldlM_performEvent {s : Scene} (hd : s.live.dispatching = true) {events : List Event}
    {c : Content} (h : s.live.document.content.followAll events = .ok c) (origin : Origin) :
    events.foldlM (performEvent origin) s
      = .ok (s.changed c (s.live.document.content.effects events) origin) := by
  induction events generalizing s with
  | nil =>
    obtain rfl := Except.ok.inj h
    simp [changed, Content.effects, pure, Except.pure]
  | cons event rest ih =>
    obtain ⟨mid, hf, hrest⟩ := Content.exists_of_followAll_cons h
    -- The cycle that is under way will deal with the event, so nothing follows from it yet.
    have hone : performEvent origin s event
        = .ok (s.changed mid (s.live.document.content.effect event) origin) := by
      rw [performEvent, Document.applyEvent_follow hf]
      exact congrArg Except.ok (if_pos hd)
    rw [List.foldlM_cons, hone, Content.effects_cons hf, ← changed_changed]
    exact ih (s := s.changed mid _ origin) hd hrest

/-! ### The whole patch -/

/-- A patch that cannot be followed is answered by a fault, and nothing is done. -/
theorem enqueue_applyPatch_of_error {s : Scene} {change : Json} {fault : Fault}
    (h : s.live.document.content.applied change = .error fault) (origin : Origin) :
    s.enqueue (.applyPatch change origin) = (.error fault, s) := by
  rw [enqueue, Document.perform, Document.applyPatch_of_error h]
  simp

/-- A patch that can be followed changes the content and lengthens the queue. -/
theorem enqueue_applyPatch_of_ok {s : Scene} {change : Json} {events : List Event} {c : Content}
    (hj : Patch.decode change = .ok events) (h : s.live.document.content.followAll events = .ok c)
    (origin : Origin) :
    s.enqueue (.applyPatch change origin)
      = (.ok .done, s.changed c (s.live.document.content.effects events) origin) := by
  rw [enqueue, Document.perform, Document.applyPatch_followed hj h]
  rfl

/-- Where nothing is queued unless a cycle is under way, there is nothing to settle. -/
theorem settle_callable {s : Scene} (h : s.live.Callable) : s.settle = s := by
  rw [settle]
  rcases h.cases with hrest | hd
  · rw [if_neg (by simp [hrest.atRest.2]), dispatch_idle hrest.atRest.1 hrest.atRest.2]
  · rw [if_pos hd]

/-- A cycle that is under way need not begin. -/
theorem begin_eq_self {s : Scene} (h : s.live.dispatching = true) : s.begin = s := by
  obtain ⟨⟨d, watchers, link, queue, dispatching⟩, around⟩ := s
  cases h
  rfl

/-- A cycle begins by noting that it is under way. -/
theorem dispatch_begin (s : Scene) : s.begin.dispatch = s.dispatch := by
  have hbegin : s.begin.begin = s.begin := rfl
  rw [dispatch_eq, dispatch_eq, cycleEnd, cycleEnd, cycleEvents, cycleEvents, cycleLast, cycleLast,
    hbegin]

/-- A patch that is refused changes nothing and starts no cycle. -/
theorem perform_applyPatch_of_error {s : Scene} (hs : s.live.Callable) {change : Json}
    {fault : Fault} (h : s.live.document.content.applied change = .error fault) (origin : Origin) :
    s.perform (.applyPatch change origin) = (.error fault, s) := by
  rw [perform, enqueue_applyPatch_of_error h]
  exact congrArg (Prod.mk _) (settle_callable hs)

/-- A patch that is taken changes the content as a whole before the cycle that deals with it. -/
theorem perform_applyPatch_of_ok {s : Scene} {change : Json} {events : List Event} {c : Content}
    (hj : Patch.decode change = .ok events) (h : s.live.document.content.followAll events = .ok c)
    (origin : Origin) :
    s.perform (.applyPatch change origin)
      = (.ok .done,
          if s.live.dispatching then
            s.begin.changed c (s.live.document.content.effects events) origin
          else (s.begin.changed c (s.live.document.content.effects events) origin).dispatch) := by
  have hbegin : s.begin.changed c (s.live.document.content.effects events) origin
      = (s.changed c (s.live.document.content.effects events) origin).begin := rfl
  rw [hbegin, dispatch_begin, perform, enqueue_applyPatch_of_ok hj h]
  refine congrArg (Prod.mk _) ?_
  rw [settle]
  by_cases hd : s.live.dispatching = true
  · rw [if_pos hd]
    exact (if_pos hd).trans (begin_eq_self (s := s.changed c _ origin) hd).symm
  · rw [if_neg hd]
    exact if_neg hd

/-! ### Events that nobody waits for -/

/-- No watcher waits for an event in the queue. -/
def IsUnawaited (s : Scene) : Prop :=
  ∀ first ∈ s.live.queue, ∀ w ∈ s.live.watchers, ¬w.Awaits first.1

/-- Without watchers nobody waits. -/
theorem isUnawaited_of_nil {s : Scene} (h : s.live.watchers = []) : s.IsUnawaited :=
  fun _ _ w hw => absurd (h ▸ hw) (List.not_mem_nil (a := w))

/-- Watchers of something else are passed over. -/
theorem runEach_miss {id attr : String} {watchers : List Watcher}
    (miss : ∀ w ∈ watchers, ¬(w.id = id ∧ w.attr = attr)) (s : Scene) (value : Json) :
    s.runEach id attr value watchers = (watchers, s) := by
  induction watchers with
  | nil => rfl
  | cons w rest ih =>
    rw [runEach, runWatcher_miss (miss w List.mem_cons_self)]
    dsimp only
    rw [ih fun v hv => miss v (List.mem_cons_of_mem _ hv)]

/-- From an event that nobody waits for nothing follows. -/
theorem react_unawaited {s : Scene} {event : Event} (h : ∀ w ∈ s.live.watchers, ¬w.Awaits event) :
    s.react event = s := by
  cases event with
  | modelChanged id attr value =>
    rw [react, runWatchers_eq, runEach_miss h]
    show s.withWatchers (s.live.watchers ++ []) = s
    rw [List.append_nil]
    rfl
  | _ => rfl

/-- Where nobody waits, a cycle takes its events and does nothing else. -/
theorem deliver_unawaited {s : Scene} (h : s.IsUnawaited) (budget : Nat) :
    deliver budget s
      = (ownEvents (s.live.queue.take budget), s.take (s.live.queue.drop budget)) := by
  induction budget generalizing s with
  | zero => rfl
  | succ budget ih =>
    rw [deliver]
    split
    · rename_i hq
      obtain ⟨⟨d, watchers, link, queue, dispatching⟩, around⟩ := s
      cases hq
      rfl
    · rename_i first rest hq
      -- Nobody waits for this event, so taking it is all that happens.
      have hreact : (s.take rest).react first.1 = s.take rest :=
        react_unawaited (h first (hq ▸ List.mem_cons_self))
      have hrest := ih (s := s.take rest) fun event hevent =>
        h event (hq ▸ List.mem_cons_of_mem _ hevent)
      rw [hq]
      dsimp only
      show (own first ++ (deliver budget ((s.take rest).react first.1)).1,
        (deliver budget ((s.take rest).react first.1)).2) = _
      rw [hreact, hrest]
      rfl

/-- Where nobody waits, a cycle empties the queue and does nothing else to the document. -/
theorem cycleEnd_unawaited {s : Scene} (h : s.IsUnawaited) :
    s.cycleEnd.live = { s.live with queue := [], dispatching := false } := by
  rw [cycleEnd_live, cycleLast, deliver_unawaited (s := s.begin) h cycleLimit]
  rfl

/-- Where nobody waits, a cycle sends the changes of the application that are queued, and no
    more. -/
theorem cycleEvents_unawaited {s : Scene} (h : s.IsUnawaited) :
    s.cycleEvents = ownEvents s.live.queue := by
  rw [cycleEvents, cycleLast, deliver_unawaited (s := s.begin) h cycleLimit]
  show ownEvents (s.live.queue.take cycleLimit) ++ ownEvents (s.live.queue.drop cycleLimit) = _
  rw [ownEvents, ownEvents, ← List.flatMap_append, List.take_append_drop, ownEvents]

/-- No watcher runs behind a change: there is none, and nothing waits, or a cycle is under way that
    will deal with the change later. -/
def IsQuiet (s : Scene) : Prop :=
  (s.live.watchers = [] ∧ s.live.queue = []) ∨ s.live.dispatching = true

/-- In a quiet scene a patch that is taken changes the content, and its changes wait only if a cycle
    is under way. -/
theorem perform_applyPatch_quiet {s : Scene} (hs : s.IsQuiet) {change : Json} {events : List Event}
    {c : Content} (hj : Patch.decode change = .ok events)
    (h : s.live.document.content.followAll events = .ok c) (origin : Origin) :
    (s.perform (.applyPatch change origin)).2.live =
      { s.live with
        document := s.live.document.withContent c
        queue :=
          if s.live.dispatching then
            s.live.queue
              ++ (s.live.document.content.effects events).map fun event => (event, origin)
          else [] } := by
  rw [perform_applyPatch_of_ok hj h]
  by_cases hd : s.live.dispatching = true
  · rw [if_pos hd, if_pos hd, begin_eq_self hd]
    rfl
  · have hnone : s.live.watchers = [] := (hs.resolve_right hd).1
    have hrest : s.live.dispatching = false := by simpa using hd
    have hend := cycleEnd_unawaited (s := s.begin.changed c
      (s.live.document.content.effects events) origin) (isUnawaited_of_nil hnone)
    rw [if_neg hd, if_neg hd]
    dsimp only
    rw [dispatch_eq, forward_live, hend, ← hrest]
    rfl

/-- In a quiet scene nothing is posted behind a patch of the host. -/
theorem perform_applyPatch_quiet_host {s : Scene} (hs : s.IsQuiet) {change : Json}
    {events : List Event} {c : Content} (hj : Patch.decode change = .ok events)
    (h : s.live.document.content.followAll events = .ok c) :
    (s.perform (.applyPatch change .host)).2.around.outbox = s.around.outbox := by
  rw [perform_applyPatch_of_ok hj h]
  by_cases hd : s.live.dispatching = true
  · rw [if_pos hd]
    rfl
  · obtain ⟨hnone, hqueue⟩ := hs.resolve_right hd
    have hown : (s.begin.changed c (s.live.document.content.effects events) .host).cycleEvents
        = [] := by
      rw [cycleEvents_unawaited (s := s.begin.changed c _ .host) (isUnawaited_of_nil hnone)]
      show ownEvents (s.live.queue ++ _) = []
      rw [hqueue]
      exact ownEvents_host _
    rw [if_neg hd]
    dsimp only
    rw [dispatch_eq, hown, forward_nil, cycleEnd_outbox]
    rfl

/-- After a patch that is taken a quiet scene is quiet. -/
theorem IsQuiet.perform_applyPatch {s : Scene} (hs : s.IsQuiet) {change : Json}
    {events : List Event} {c : Content} (hj : Patch.decode change = .ok events)
    (h : s.live.document.content.followAll events = .ok c) (origin : Origin) :
    (s.perform (.applyPatch change origin)).2.IsQuiet := by
  rw [IsQuiet, perform_applyPatch_quiet hs hj h]
  by_cases hd : s.live.dispatching = true
  · exact .inr hd
  · refine .inl ⟨(hs.resolve_right hd).1, ?_⟩
    dsimp only
    rw [if_neg hd]

/-- A patch is answered by a fault if it cannot be applied to the content. -/
theorem applyPatch_error_iff (s : Scene) (change : Json) (origin : Origin) :
    (∃ fault, (s.perform (.applyPatch change origin)).1 = .error fault) ↔
      ∃ fault, s.live.document.content.applied change = .error fault := by
  cases hc : s.live.document.content.applied change with
  | error fault =>
    have hreply : (s.perform (.applyPatch change origin)).1 = .error fault :=
      congrArg Prod.fst (enqueue_applyPatch_of_error hc origin)
    exact ⟨fun _ => ⟨_, rfl⟩, fun _ => ⟨_, hreply⟩⟩
  | ok after =>
    obtain ⟨events, hj, hf⟩ := Content.exists_of_applied hc
    have hreply : (s.perform (.applyPatch change origin)).1 = .ok .done :=
      congrArg Prod.fst (enqueue_applyPatch_of_ok hj hf origin)
    simp [hreply]

/-- A patch is taken if it can be applied to the content. -/
theorem applyPatch_ok_iff {s : Scene} {change : Json} {origin : Origin} :
    (∃ reply, (s.perform (.applyPatch change origin)).1 = .ok reply) ↔
      ∃ after, s.live.document.content.applied change = .ok after := by
  have herror := applyPatch_error_iff s change origin
  cases hreply : (s.perform (.applyPatch change origin)).1 <;>
    cases hc : s.live.document.content.applied change <;> simp_all

/-- A patch acts as two others, one after the other. -/
structure ActsInTurn (s : Scene) (change one other : Json) (origin : Origin) : Prop where
  /-- It is taken if the one is, and then the other. -/
  taken : (∃ reply, (s.perform (.applyPatch change origin)).1 = .ok reply) ↔
    (∃ reply, (s.perform (.applyPatch one origin)).1 = .ok reply) ∧
      ∃ reply, ((s.perform (.applyPatch one origin)).2.perform (.applyPatch other origin)).1
        = .ok reply
  live : (∃ reply, (s.perform (.applyPatch change origin)).1 = .ok reply) →
    (s.perform (.applyPatch change origin)).2.live
      = ((s.perform (.applyPatch one origin)).2.perform (.applyPatch other origin)).2.live
  /-- The changes are those of the one and then those of the other. -/
  mutations : (∃ reply, (s.perform (.applyPatch change origin)).1 = .ok reply) →
    s.live.document.mutations (.applyPatch change origin)
      = s.live.document.mutations (.applyPatch one origin)
        ++ (s.perform (.applyPatch one origin)).2.live.document.mutations
          (.applyPatch other origin)
  /-- Of patches of the host nothing is posted; patches of the application are posted as they are
      taken. -/
  outbox : origin = .host → (∃ reply, (s.perform (.applyPatch change origin)).1 = .ok reply) →
    (s.perform (.applyPatch change origin)).2.around.outbox
      = ((s.perform (.applyPatch one origin)).2.perform (.applyPatch other origin)).2.around.outbox

/-- **Two patches in one**, where no watcher runs, act as one after the other. -/
theorem actsInTurn {s : Scene} (hs : s.IsQuiet) {change one other : Json}
    {first second : List Event} (hone : Patch.decode one = .ok first)
    (hother : Patch.decode other = .ok second) (hboth : Patch.decode change = .ok (first ++ second))
    (origin : Origin) : s.ActsInTurn change one other origin := by
  -- What the first patch leaves is the same document with the content in the middle.
  have hstep : ∀ mid, s.live.document.content.followAll first = .ok mid →
      (s.perform (.applyPatch one origin)).2.live.document = s.live.document.withContent mid :=
    fun mid hfirst =>
      congrArg LiveDocument.document (perform_applyPatch_quiet hs hone hfirst origin)
  -- If the two can be taken in one, the second can be taken where the first leads to.
  have hturn : (∃ reply, (s.perform (.applyPatch change origin)).1 = .ok reply) →
      ∃ mid after, s.live.document.content.followAll first = .ok mid ∧
        s.live.document.content.followAll (first ++ second) = .ok after ∧
        (s.perform (.applyPatch one origin)).2.live.document.content.followAll second
          = .ok after := by
    intro htaken
    obtain ⟨after, hc⟩ := applyPatch_ok_iff.mp htaken
    have hf := (Content.applied_eq_ok_iff hboth).mp hc
    obtain ⟨mid, hfirst, hsecond⟩ := Content.exists_of_followAll_append hf
    refine ⟨mid, after, hfirst, hf, ?_⟩
    rw [hstep mid hfirst]
    exact hsecond
  refine ⟨⟨fun htaken => ?_, ?_⟩, fun htaken => ?_, fun htaken => ?_, ?_⟩
  · obtain ⟨mid, after, hfirst, -, hsecond⟩ := hturn htaken
    exact ⟨applyPatch_ok_iff.mpr ⟨mid, (Content.applied_eq_ok_iff hone).mpr hfirst⟩,
      applyPatch_ok_iff.mpr ⟨after, (Content.applied_eq_ok_iff hother).mpr hsecond⟩⟩
  · rintro ⟨hone', hother'⟩
    obtain ⟨mid, hc⟩ := applyPatch_ok_iff.mp hone'
    obtain ⟨after, he⟩ := applyPatch_ok_iff.mp hother'
    have hfirst := (Content.applied_eq_ok_iff hone).mp hc
    have hsecond := (Content.applied_eq_ok_iff hother).mp he
    rw [hstep mid hfirst] at hsecond
    exact applyPatch_ok_iff.mpr ⟨after, (Content.applied_eq_ok_iff hboth).mpr
      ((Content.followAll_append hfirst second).trans hsecond)⟩
  · obtain ⟨mid, after, hfirst, hf, hsecond⟩ := hturn htaken
    have hs' := hs.perform_applyPatch hone hfirst origin
    rw [perform_applyPatch_quiet hs hboth hf, perform_applyPatch_quiet hs' hother hsecond,
      hstep mid hfirst, perform_applyPatch_quiet hs hone hfirst, Content.effects_append hfirst]
    by_cases hd : s.live.dispatching = true
    · simp [hd]
    · simp [hd]
  · obtain ⟨mid, after, hfirst, hf, hsecond⟩ := hturn htaken
    rw [Document.mutations_applyPatch hboth hf, Document.mutations_applyPatch hone hfirst,
      Document.mutations_applyPatch hother hsecond, hstep mid hfirst,
      Content.effects_append hfirst]
    rfl
  · rintro rfl htaken
    obtain ⟨mid, after, hfirst, hf, hsecond⟩ := hturn htaken
    have hs' := hs.perform_applyPatch hone hfirst .host
    rw [perform_applyPatch_quiet_host hs hboth hf, perform_applyPatch_quiet_host hs' hother hsecond,
      perform_applyPatch_quiet_host hs hone hfirst]

/-- **A patch is all or nothing**, and what is taken is the sequential meaning of its events; at rest
    and in the middle of a cycle, for the host and for the application. -/
theorem applyPatch_allOrNothing {s : Scene} (h : s.live.Callable) (change : Json)
    (origin : Origin) :
    let c := s.live.document.content
    let result := s.perform (.applyPatch change origin)
    -- It is refused for a reason, and then nothing at all is done.
    ((∃ fault, result.1 = .error fault) ↔ c.Refuses change) ∧
    ((∃ fault, result.1 = .error fault) → result.2 = s) ∧
    -- Otherwise its events are made in turn, none of them fails, and only then watchers run.
    ((∃ reply, result.1 = .ok reply) → ∃ events after made,
      Patch.decode change = .ok events ∧ c.followAll events = .ok after ∧
      events.foldlM (performEvent origin) s.begin = .ok made ∧
      made = s.begin.changed after (c.effects events) origin ∧
      result.2 = if s.live.dispatching then made else made.dispatch) ∧
    -- Where no watcher runs, two patches in one act as one after the other.
    (s.live.watchers = [] ∨ s.live.dispatching = true →
      ∀ (one other : Json) (first second : List Event), Patch.decode one = .ok first →
        Patch.decode other = .ok second → Patch.decode change = .ok (first ++ second) →
        s.ActsInTurn change one other origin) := by
  intro c result
  refine ⟨?_, ?_, ?_, ?_⟩
  · rw [Content.refuses_iff]
    exact applyPatch_error_iff s change origin
  · rintro hfault
    obtain ⟨fault, hc⟩ := (applyPatch_error_iff s change origin).mp hfault
    exact congrArg Prod.snd (perform_applyPatch_of_error h hc origin)
  · rintro hok
    obtain ⟨after, hc⟩ := applyPatch_ok_iff.mp hok
    obtain ⟨events, hj, hf⟩ := Content.exists_of_applied hc
    exact ⟨events, after, _, hj, hf, foldlM_performEvent (s := s.begin) rfl hf origin, rfl,
      congrArg Prod.snd (perform_applyPatch_of_ok hj hf origin)⟩
  · intro hw one other first second hone hother hboth
    -- At rest nothing waits in the queue, so a document without watchers is quiet.
    have hs : s.IsQuiet := by
      rcases h.cases with hrest | hd
      · exact hw.imp_left fun hnone => ⟨hnone, hrest.atRest.1⟩
      · exact .inr hd
    exact actsInTurn hs hone hother hboth origin

/-- In the middle of a cycle, a watcher removes a root and sets the title by one patch, or by two; a
    patch that would remove a root that is gone does not set the title either. -/
theorem applyPatch_allOrNothing_brokenOff :
    let s := LiveDocument.brokenOff
    let one := Patch.toJson [.titleChanged "Sliders"]
    let other := Patch.toJson [.rootRemoved "m2"]
    let both := Patch.toJson [.titleChanged "Sliders", .rootRemoved "m2"]
    let missing := Patch.toJson [.titleChanged "Sliders", .rootRemoved "m1"]
    let result := s.perform (.applyPatch both .runtime)
    s.live.Callable ∧ s.live.dispatching = true ∧ result.1 = .ok .done ∧
      result.2.live.document.roots = [] ∧ result.2.live.queue.length = 4 ∧
      result.2.live =
        ((s.perform (.applyPatch one .runtime)).2.perform (.applyPatch other .runtime)).2.live ∧
      (s.perform (.applyPatch missing .runtime)).2 = s := by
  intro s one other both missing result
  have hqueue : LiveDocument.noticed.live.queue
      = [(.modelChanged "m1" "value" (.int 5), .host)] := by rfl
  have hs : s.live.Callable := .inCycle LiveDocument.watched_reachable
    (.inside hqueue (.inside ⟨rfl, rfl⟩ (.perform (.perform .here))))
  have hok : result.1 = .ok .done := by rfl
  have hfault : (s.perform (.applyPatch missing .runtime)).1
      = .error (.patch (.unknownRoot "m1")) := by rfl
  have hturn := (applyPatch_allOrNothing hs both .runtime).2.2.2 (.inr (by decide +kernel))
    one other [.titleChanged "Sliders"] [.rootRemoved "m2"] (by rfl) (by rfl) (by rfl)
  exact ⟨hs, by decide +kernel, hok, by decide +kernel, by decide +kernel, hturn.live ⟨_, hok⟩,
    (applyPatch_allOrNothing hs missing .runtime).2.1 ⟨_, hfault⟩⟩

end Scene

end DocRelay
