import DocRelay.Proofs.Document.Past

namespace DocRelay

/-!
# An outbox in many hands

An outbox and its sinks are handed around as copies, and everyone who holds a copy calls it when he
likes.  All copies of an outbox are that outbox, so a call does not say on which of them it is made;
a copy of a sink's handle is another handle of the same sink.

* `Outbox.Call`, `Outbox.Reply` — the calls, and what they give back;
* `Outbox.Shared` — an outbox with the handles of its sinks; `Shared.perform` — a call;
* `Shared.Performed`, `Shared.perform_performed` — all that a call can do while the host listens;
* `Shared.record`, `Shared.received` — the calls of a run with their replies, and what the host
  gets;
* `Shared.received_eq`, `Shared.renderings_record`, `Shared.Ordered.run`, `Shared.idsOf_eq_range` —
  messages, renderings, patches and their numbers over a run;
* `Shared.received_orderly` — all of it from the first call on.
-/

/-- The payload of a rendering. -/
def OutboundMessage.rendering? : OutboundMessage → Option RenderPayload
  | .render payload => some payload
  | _ => none

namespace Outbox

/-- A call on an outbox, or on a handle of one of its sinks.  Handles are counted from zero. -/
inductive Call where
  | status (text : String)
  | render (payload : RenderPayload)
  | idle
  | error (phase : Phase) (text : String)
  /-- Makes a sink and gives its first handle. -/
  | makeSink
  /-- Gives another handle of the sink of a handle. -/
  | copySink (handle : Nat)
  /-- Sends a patch through the sink of a handle. -/
  | send (handle : Nat) (change : Json) (buffers : List Bytes)

/-- What a call gives back. -/
inductive Reply where
  | posted (result : Except Fault Unit)
  /-- The id of the patch, or none if it was dropped. -/
  | sent (result : Except Fault (Option String))
  | handle (number : Nat)
  | noHandle

namespace Call

/-- What is posted by a call that is always taken. -/
def notice? : Call → Option OutboundMessage
  | .status text => some (.status text)
  | .idle => some .idle
  | .error phase text => some (.error phase text)
  | _ => none

/-- The payload of a rendering. -/
def rendering? : Call → Option RenderPayload
  | .render payload => some payload
  | _ => none

/-- The handle that a call is made on. -/
def handle? : Call → Option Nat
  | .copySink handle => some handle
  | .send handle _ _ => some handle
  | _ => none

/-- The message of a call that was accepted, by its reply. -/
def accepted? : Call × Reply → Option OutboundMessage
  | (.status text, .posted (.ok ())) => some (.status text)
  | (.render payload, .posted (.ok ())) => some (.render payload)
  | (.idle, .posted (.ok ())) => some .idle
  | (.error phase text, .posted (.ok ())) => some (.error phase text)
  | (.send _ change buffers, .sent (.ok (some id))) => some (.patch change buffers id)
  | _ => none

end Call

/-- An outbox with the handles of its sinks. -/
structure Shared where
  outbox : Outbox
  /-- The sink of each handle. -/
  handles : List Sink

namespace Shared

/-- An open outbox that was never called. -/
def fresh : Shared := ⟨.empty, []⟩

/-- The sink of a handle is called, if there is one. -/
def through (s : Shared) (handle : Nat) (call : Sink → Reply × Shared) : Reply × Shared :=
  match s.handles[handle]? with
  | some sink => call sink
  | none => (.noHandle, s)

/-- A call. -/
def perform (s : Shared) : Call → Reply × Shared
  | .status text =>
    (.posted (s.outbox.status text).1, { s with outbox := (s.outbox.status text).2 })
  | .render payload =>
    (.posted (s.outbox.render payload).1, { s with outbox := (s.outbox.render payload).2 })
  | .idle => (.posted s.outbox.idle.1, { s with outbox := s.outbox.idle.2 })
  | .error phase text =>
    (.posted (s.outbox.error phase text).1, { s with outbox := (s.outbox.error phase text).2 })
  | .makeSink =>
    (.handle s.handles.length, ⟨s.outbox.newSink.2, s.handles ++ [s.outbox.newSink.1]⟩)
  | .copySink handle =>
    s.through handle fun sink =>
      (.handle s.handles.length, { s with handles := s.handles ++ [sink] })
  | .send handle change buffers =>
    s.through handle fun sink =>
      (.sent (s.outbox.send sink change buffers).1,
        { s with outbox := (s.outbox.send sink change buffers).2 })

/-! ### One call -/

/-- A message more is posted. -/
def posting (s : Shared) (m : OutboundMessage) : Shared :=
  { s with outbox := { s.outbox with posted := s.outbox.posted ++ [m] } }

/-- The rendering was asked for. -/
def rendered (s : Shared) : Shared :=
  { s with outbox := { s.outbox with isRendered := true } }

/-- The number of a sink's next patch is used up. -/
def numbering (s : Shared) (sink : Sink) : Shared :=
  { s with outbox := s.outbox.numbered sink }

/-- **A call** while the host listens: what it gives back and what it leaves. -/
inductive Performed (s : Shared) : Call → Reply → Shared → Prop where
  | noticed {call : Call} {m : OutboundMessage} (notice : call.notice? = some m) :
    Performed s call (.posted (.ok ())) (s.posting m)
  | rendered (payload : RenderPayload) (first : s.outbox.isRendered = false) :
    Performed s (.render payload) (.posted (.ok ())) (s.rendered.posting (.render payload))
  | again (payload : RenderPayload) (later : s.outbox.isRendered = true) :
    Performed s (.render payload) (.posted (.error .alreadyRendered)) s
  | made :
    Performed s .makeSink (.handle s.handles.length)
      ⟨s.outbox.newSink.2, s.handles ++ [s.outbox.newSink.1]⟩
  | copied {handle : Nat} {sink : Sink} (known : s.handles[handle]? = some sink) :
    Performed s (.copySink handle) (.handle s.handles.length)
      { s with handles := s.handles ++ [sink] }
  | dropped {handle : Nat} {sink : Sink} (change : Json) (buffers : List Bytes)
    (known : s.handles[handle]? = some sink) (early : s.outbox.isRendered = false) :
    Performed s (.send handle change buffers) (.sent (.ok none)) s
  | sent {handle : Nat} {sink : Sink} (change : Json) (buffers : List Bytes)
    (known : s.handles[handle]? = some sink) (late : s.outbox.isRendered = true) :
    Performed s (.send handle change buffers)
      (.sent (.ok (some (patchId (s.outbox.nextPatch sink)))))
      ((s.numbering sink).posting (.patch change buffers (patchId (s.outbox.nextPatch sink))))
  | unknown {call : Call} {handle : Nat} (asks : call.handle? = some handle)
    (missing : s.handles[handle]? = none) : Performed s call .noHandle s

/-- **Step.** A call on an open outbox does one of these things. -/
theorem perform_performed {s : Shared} (h : s.outbox.isOpen = true) (call : Call) :
    Performed s call (s.perform call).1 (s.perform call).2 := by
  -- An open outbox takes what is posted, so a notice is as good as posted.
  have notice : ∀ m, call.notice? = some m →
      s.perform call = (.posted (s.outbox.post m).1, { s with outbox := (s.outbox.post m).2 }) →
      Performed s call (s.perform call).1 (s.perform call).2 := by
    intro m hm hperform
    rw [hperform, post_of_isOpen h]
    exact .noticed hm
  cases call with
  | status text => exact notice (.status text) rfl rfl
  | idle => exact notice .idle rfl rfl
  | error phase text => exact notice (.error phase text) rfl rfl
  | render payload =>
    rw [perform, Outbox.render]
    cases hr : s.outbox.isRendered with
    | true => exact .again payload hr
    | false =>
      have hpost := post_of_isOpen (o := { s.outbox with isRendered := true }) h (.render payload)
      rw [if_neg Bool.false_ne_true, hpost]
      exact .rendered payload hr
  | makeSink => exact .made
  | copySink handle =>
    rw [perform, through]
    cases hk : s.handles[handle]? with
    | none => exact .unknown rfl hk
    | some sink => exact .copied hk
  | send handle change buffers =>
    rw [perform, through]
    cases hk : s.handles[handle]? with
    | none => exact .unknown rfl hk
    | some sink =>
      dsimp only
      cases hr : s.outbox.isRendered with
      | false =>
        rw [send_of_not_isRendered hr]
        exact .dropped change buffers hk hr
      | true =>
        have hpost := post_of_isOpen (o := s.outbox.numbered sink) h
          (.patch change buffers (patchId (s.outbox.nextPatch sink)))
        rw [send_of_isRendered hr, hpost]
        exact .sent change buffers hk hr

/-- What holds of an outbox while the host listens: each handle has a sink that was made. -/
structure Sound (s : Shared) : Prop where
  isOpen : s.outbox.isOpen = true
  known : ∀ sink ∈ s.handles, sink.index < s.outbox.counters.length

theorem sound_fresh : fresh.Sound :=
  ⟨rfl, fun _ hs => by cases hs⟩

namespace Performed

variable {s after : Shared} {call : Call} {reply : Reply}

/-- A call posts what was accepted of it, and nothing else. -/
theorem posted (h : Performed s call reply after) :
    after.outbox.posted = s.outbox.posted ++ (Call.accepted? (call, reply)).toList := by
  cases h with
  | noticed notice =>
    cases call with
    | status text => cases notice; rfl
    | idle => cases notice; rfl
    | error phase text => cases notice; rfl
    | _ => cases notice
  | rendered => rfl
  | sent => rfl
  | again => exact (List.append_nil _).symm
  | made => exact (List.append_nil _).symm
  | copied => exact (List.append_nil _).symm
  | dropped => exact (List.append_nil _).symm
  | unknown => cases call <;> exact (List.append_nil _).symm

/-- The flag is set by the first rendering, and by nothing else. -/
theorem isRendered_iff (h : Performed s call reply after) :
    after.outbox.isRendered = true ↔
      s.outbox.isRendered = true ∨ ∃ payload, call = .render payload := by
  cases h with
  | noticed notice =>
    cases call with
    | render payload => cases notice
    | _ => exact ⟨.inl, fun hr => hr.resolve_right (by rintro ⟨payload, hcall⟩; cases hcall)⟩
  | rendered payload first => exact ⟨fun _ => .inr ⟨payload, rfl⟩, fun _ => rfl⟩
  | again payload later => exact ⟨.inl, fun _ => later⟩
  | unknown asks =>
    cases call with
    | render payload => cases asks
    | _ => exact ⟨.inl, fun hr => hr.resolve_right (by rintro ⟨payload, hcall⟩; cases hcall)⟩
  | _ => exact ⟨.inl, fun hr => hr.resolve_right (by rintro ⟨payload, hcall⟩; cases hcall)⟩

/-- A notice is always taken. -/
theorem of_notice (h : Performed s call reply after) (hn : call.notice?.isSome = true) :
    reply = .posted (.ok ()) := by
  cases h with
  | noticed => rfl
  | unknown asks =>
    cases call with
    | copySink handle => cases hn
    | send handle change buffers => cases hn
    | _ => cases asks
  | _ => cases hn

/-- A rendering is taken if it is the first one, and else it is refused. -/
theorem of_render {payload : RenderPayload} (h : Performed s (.render payload) reply after) :
    (¬s.outbox.isRendered = true → reply = .posted (.ok ())) ∧
      (s.outbox.isRendered = true → reply = .posted (.error .alreadyRendered) ∧ after = s) := by
  cases h with
  | noticed notice => cases notice
  | rendered payload first => exact ⟨fun _ => rfl, fun hr => by rw [first] at hr; cases hr⟩
  | again payload later => exact ⟨fun hr => absurd later hr, fun _ => ⟨rfl, rfl⟩⟩
  | unknown asks => cases asks

/-- A patch through a sink is dropped before the rendering, and taken behind it. -/
theorem of_send {handle : Nat} {sink : Sink} {change : Json} {buffers : List Bytes}
    (h : Performed s (.send handle change buffers) reply after)
    (known : s.handles[handle]? = some sink) :
    (¬s.outbox.isRendered = true → reply = .sent (.ok none) ∧ after = s) ∧
      (s.outbox.isRendered = true → ∃ id, reply = .sent (.ok (some id))) := by
  cases h with
  | noticed notice => cases notice
  | dropped change buffers known early =>
    exact ⟨fun _ => ⟨rfl, rfl⟩, fun hr => by rw [early] at hr; cases hr⟩
  | sent change buffers known late => exact ⟨fun hr => absurd late hr, fun _ => ⟨_, rfl⟩⟩
  | unknown asks missing =>
    obtain rfl := Option.some.inj asks
    rw [known] at missing
    cases missing

/-- What is known of an outbox stays known. -/
theorem sound (h : Performed s call reply after) (hs : s.Sound) : after.Sound := by
  obtain ⟨hopen, hknown⟩ := hs
  -- Only a new sink, a new handle and a patch touch what is known of sinks.
  cases h with
  | noticed => exact ⟨hopen, hknown⟩
  | rendered => exact ⟨hopen, hknown⟩
  | again => exact ⟨hopen, hknown⟩
  | dropped => exact ⟨hopen, hknown⟩
  | unknown => exact ⟨hopen, hknown⟩
  | made =>
    refine ⟨hopen, fun sink hsink => ?_⟩
    have hlength : s.outbox.newSink.2.counters.length = s.outbox.counters.length + 1 := by
      simp [newSink]
    rw [hlength]
    rcases List.mem_append.mp hsink with hold | hnew
    · exact Nat.lt_succ_of_lt (hknown sink hold)
    · rw [List.mem_singleton.mp hnew]
      exact Nat.lt_succ_self _
  | copied known =>
    refine ⟨hopen, fun sink hsink => ?_⟩
    rcases List.mem_append.mp hsink with hold | hnew
    · exact hknown sink hold
    · rw [List.mem_singleton.mp hnew]
      exact hknown _ (List.mem_of_getElem? known)
  | sent =>
    refine ⟨hopen, fun sink hsink => ?_⟩
    show sink.index < (List.set _ _ _).length
    rw [List.length_set]
    exact hknown sink hsink

end Performed

/-! ### Runs -/

/-- Calls in turn. -/
def run (s : Shared) (calls : List Call) : Shared :=
  calls.foldl (fun s call => (s.perform call).2) s

/-- The calls of a run with their replies. -/
def record : Shared → List Call → List (Call × Reply)
  | _, [] => []
  | s, call :: rest => (call, (s.perform call).1) :: record (s.perform call).2 rest

/-- What the host gets. -/
def received (s : Shared) : List OutboundMessage := s.outbox.posted

/-- The id of a patch that was accepted on a handle of the sink. -/
def idOf? (s : Shared) (sink : Sink) : Call × Reply → Option String
  | (.send handle _ _, .sent (.ok (some id))) =>
    if s.handles[handle]? = some sink then some id else none
  | _ => none

/-- The ids of the patches that are accepted on all handles of the sink, in the order of the
    calls. -/
def idsOf (sink : Sink) : Shared → List Call → List String
  | _, [] => []
  | s, call :: rest =>
    (s.idOf? sink (call, (s.perform call).1)).toList ++ idsOf sink (s.perform call).2 rest

theorem Sound.perform {s : Shared} (h : s.Sound) (call : Call) : (s.perform call).2.Sound :=
  (perform_performed h.isOpen call).sound h

theorem Sound.run {s : Shared} (h : s.Sound) (calls : List Call) : (s.run calls).Sound := by
  induction calls generalizing s with
  | nil => exact h
  | cons call rest ih => exact ih (h.perform call)

/-- The calls up to one behind an index take the outbox from before it to behind it. -/
theorem run_take_succ (s : Shared) {calls : List Call} {i : Nat} {call : Call}
    (h : calls[i]? = some call) :
    s.run (calls.take (i + 1)) = ((s.run (calls.take i)).perform call).2 := by
  rw [run, List.take_add_one, h, List.foldl_append]
  rfl

/-- A call is recorded with what it gives back where it is made. -/
theorem getElem?_record (s : Shared) {calls : List Call} {i : Nat} {call : Call}
    (h : calls[i]? = some call) :
    (s.record calls)[i]? = some (call, ((s.run (calls.take i)).perform call).1) := by
  induction calls generalizing s i with
  | nil => cases h
  | cons first rest ih =>
    cases i with
    | zero =>
      obtain rfl := Option.some.inj h
      rfl
    | succ i => exact ih (s.perform first).2 h

/-- **Messages.** The host gets what was accepted, in the order of the calls. -/
theorem received_eq {s : Shared} (h : s.Sound) (calls : List Call) :
    (s.run calls).received = s.received ++ (s.record calls).filterMap Call.accepted? := by
  induction calls generalizing s with
  | nil => exact (List.append_nil _).symm
  | cons call rest ih =>
    have hcall : (s.perform call).2.received
        = s.received ++ (Call.accepted? (call, (s.perform call).1)).toList :=
      (perform_performed h.isOpen call).posted
    have hrest : (s.run (call :: rest)).received
        = (s.perform call).2.received
          ++ ((s.perform call).2.record rest).filterMap Call.accepted? :=
      ih (h.perform call)
    rw [hrest, hcall, List.append_assoc, record, List.filterMap_cons]
    cases Call.accepted? (call, (s.perform call).1) <;> rfl

/-- The flag tells whether a rendering was asked for. -/
theorem isRendered_run {s : Shared} (h : s.Sound) (calls : List Call) :
    (s.run calls).outbox.isRendered = true ↔
      s.outbox.isRendered = true ∨ ∃ payload, .render payload ∈ calls := by
  induction calls generalizing s with
  | nil => simp [run]
  | cons call rest ih =>
    have hcall := (perform_performed h.isOpen call).isRendered_iff
    have hrest : (s.run (call :: rest)).outbox.isRendered = true ↔ _ := ih (h.perform call)
    rw [hrest, hcall, or_assoc, ← exists_or]
    simp only [List.mem_cons, eq_comm]

/-- The renderings that a call adds: the first one only. -/
theorem Performed.renderings {s after : Shared} {call : Call} {reply : Reply}
    (h : Performed s call reply after) :
    (Call.accepted? (call, reply)).bind OutboundMessage.rendering? =
      if s.outbox.isRendered then none else call.rendering? := by
  cases h with
  | noticed notice =>
    cases call with
    | status text => simp [Call.accepted?, OutboundMessage.rendering?, Call.rendering?]
    | idle => simp [Call.accepted?, OutboundMessage.rendering?, Call.rendering?]
    | error phase text => simp [Call.accepted?, OutboundMessage.rendering?, Call.rendering?]
    | _ => cases notice
  | rendered payload first =>
    simp [Call.accepted?, OutboundMessage.rendering?, Call.rendering?, first]
  | again payload later => simp [Call.accepted?, later]
  | unknown asks =>
    cases call with
    | copySink handle => simp [Call.accepted?, Call.rendering?]
    | send handle change buffers => simp [Call.accepted?, Call.rendering?]
    | _ => cases asks
  | _ => simp [Call.accepted?, OutboundMessage.rendering?, Call.rendering?]

/-- **Renderings.** Of all renderings the host gets the first one, unless there was one before. -/
theorem renderings_record {s : Shared} (h : s.Sound) (calls : List Call) :
    ((s.record calls).filterMap Call.accepted?).filterMap OutboundMessage.rendering? =
      if s.outbox.isRendered then [] else (calls.filterMap Call.rendering?).take 1 := by
  rw [List.filterMap_filterMap]
  induction calls generalizing s with
  | nil => simp [record]
  | cons call rest ih =>
    have hcall := perform_performed h.isOpen call
    have hflag := hcall.isRendered_iff
    rw [record, List.filterMap_cons, hcall.renderings, ih (h.perform call)]
    by_cases hr : s.outbox.isRendered = true
    · -- The flag is never taken back.
      have hafter : (s.perform call).2.outbox.isRendered = true := hflag.mpr (.inl hr)
      simp [hr, hafter]
    · cases hc : call.rendering? with
      | none =>
        have hne : ¬ ∃ payload, call = .render payload := by
          rintro ⟨payload, rfl⟩
          cases hc
        have hafter : ¬ (s.perform call).2.outbox.isRendered = true := by
          rw [hflag]
          exact not_or.mpr ⟨hr, hne⟩
        simp [hr, hafter, hc]
      | some payload =>
        have hrender : call = .render payload := by
          cases call with
          | render other => exact congrArg _ (Option.some.inj hc)
          | _ => cases hc
        have hafter : (s.perform call).2.outbox.isRendered = true := hflag.mpr (.inr ⟨_, hrender⟩)
        simp [hr, hafter, hc]

/-- Every patch that the host got came behind a rendering, and there was one if the flag says so. -/
structure Ordered (s : Shared) : Prop where
  behind : ∀ before change buffers id rest,
    s.received = before ++ .patch change buffers id :: rest → ∃ payload, .render payload ∈ before
  painted : s.outbox.isRendered = true → ∃ payload, .render payload ∈ s.received

theorem ordered_fresh : fresh.Ordered := by
  refine ⟨fun before change buffers id rest hsplit => ?_, fun h => by cases h⟩
  cases before <;> cases hsplit

/-- A message more, which is no patch unless there was a rendering. -/
theorem Ordered.behind_append {s : Shared} (h : s.Ordered) {m : OutboundMessage}
    (hm : ∀ change buffers id, m = .patch change buffers id → s.outbox.isRendered = true) :
    ∀ before change buffers id rest,
      s.received ++ [m] = before ++ .patch change buffers id :: rest →
        ∃ payload, .render payload ∈ before := by
  intro before change buffers id rest hsplit
  rcases List.eq_nil_or_concat rest with rfl | ⟨front, last, rfl⟩
  · -- The patch is the new message.
    obtain ⟨hbefore, hlast⟩ := List.append_inj' hsplit rfl
    rw [← hbefore]
    exact h.painted (hm change buffers id (List.cons.inj hlast).1)
  · rw [List.concat_eq_append, ← List.cons_append, ← List.append_assoc] at hsplit
    exact h.behind before change buffers id front (List.append_inj' hsplit rfl).1

/-- **Step.** A call keeps the order of what the host gets. -/
theorem Performed.ordered {s after : Shared} {call : Call} {reply : Reply}
    (h : Performed s call reply after) (hs : s.Ordered) : after.Ordered := by
  -- A rendering that the host has got it has for good.
  have painted : ∀ m, s.outbox.isRendered = true →
      ∃ payload, .render payload ∈ s.received ++ [m] := by
    intro m hr
    obtain ⟨payload, hmem⟩ := hs.painted hr
    exact ⟨payload, List.mem_append_left _ hmem⟩
  cases h with
  | @noticed _ m notice =>
    refine ⟨hs.behind_append ?_, painted m⟩
    rintro change buffers id rfl
    cases call <;> cases notice
  | rendered payload =>
    refine ⟨hs.behind_append ?_, fun _ => ⟨payload, List.mem_append_right _ List.mem_cons_self⟩⟩
    intro change buffers id hm
    cases hm
  | sent change buffers known late => exact ⟨hs.behind_append fun _ _ _ _ => late, painted _⟩
  | again => exact hs
  | dropped => exact hs
  | unknown => exact hs
  | made => exact ⟨hs.behind, hs.painted⟩
  | copied => exact ⟨hs.behind, hs.painted⟩

/-- **Patches.** No patch comes before the rendering. -/
theorem Ordered.run {s : Shared} (h : s.Ordered) (hs : s.Sound) (calls : List Call) :
    (s.run calls).Ordered := by
  induction calls generalizing s with
  | nil => exact h
  | cons call rest ih =>
    exact ih ((perform_performed hs.isOpen call).ordered h) (hs.perform call)

/-! ### The numbers of patches -/

/-- A new sink starts with the number that is taken for one that is not there yet. -/
theorem nextPatch_newSink (o : Outbox) (sink : Sink) :
    o.newSink.2.nextPatch sink = o.nextPatch sink := by
  have hcounters : o.newSink.2.counters = o.counters ++ [1] := rfl
  rw [nextPatch, nextPatch, hcounters, List.getD_eq_getElem?_getD, List.getD_eq_getElem?_getD]
  rcases Nat.lt_trichotomy sink.index o.counters.length with hold | hnew | hbeyond
  · rw [List.getElem?_append_left hold]
  · simp [hnew]
  · rw [List.getElem?_append_right (Nat.le_of_lt hbeyond),
      List.getElem?_eq_none (Nat.le_of_lt hbeyond), List.getElem?_eq_none]
    simp only [List.length_singleton]
    omega

/-- A patch through a sink takes a number of that sink, and of no other. -/
theorem nextPatch_numbered {o : Outbox} {sink : Sink} (h : sink.index < o.counters.length)
    (other : Sink) :
    (o.numbered sink).nextPatch other
      = if sink = other then o.nextPatch other + 1 else o.nextPatch other := by
  have hcounters : (o.numbered sink).counters
      = o.counters.set sink.index (o.nextPatch sink + 1) := rfl
  rw [nextPatch, hcounters, List.getD_eq_getElem?_getD]
  by_cases hs : sink = other
  · subst hs
    rw [if_pos rfl, List.getElem?_set_self h]
    rfl
  · have hindex : sink.index ≠ other.index := by
      intro hi
      cases sink
      cases other
      exact hs (congrArg Sink.mk hi)
    rw [if_neg hs, List.getElem?_set_ne hindex, nextPatch, List.getD_eq_getElem?_getD]

/-- **Step.** The ids of a call are those between a sink's number before and behind it. -/
theorem Performed.ids {s after : Shared} {call : Call} {reply : Reply}
    (h : Performed s call reply after) (hs : s.Sound) (sink : Sink) :
    ∃ count, after.outbox.nextPatch sink = s.outbox.nextPatch sink + count ∧
      (s.idOf? sink (call, reply)).toList
        = (List.range' (s.outbox.nextPatch sink) count).map patchId := by
  cases h with
  | noticed notice =>
    refine ⟨0, rfl, ?_⟩
    cases call with
    | status text => rfl
    | idle => rfl
    | error phase text => rfl
    | _ => cases notice
  | made => exact ⟨0, nextPatch_newSink s.outbox sink, rfl⟩
  | @sent handle used change buffers known late =>
    have hknown := hs.known used (List.mem_of_getElem? known)
    have hnext : ((s.numbering used).posting (.patch change buffers
        (patchId (s.outbox.nextPatch used)))).outbox.nextPatch sink
          = (s.outbox.numbered used).nextPatch sink := rfl
    rw [hnext, nextPatch_numbered hknown]
    -- Only the sink that is used goes on to its next number.
    by_cases hu : used = sink
    · subst hu
      exact ⟨1, by rw [if_pos rfl], by simp [idOf?, known]⟩
    · exact ⟨0, by rw [if_neg hu, Nat.add_zero], by simp [idOf?, known, hu]⟩
  | unknown asks =>
    refine ⟨0, rfl, ?_⟩
    cases call with
    | copySink handle => rfl
    | send handle change buffers => rfl
    | _ => cases asks
  | _ => exact ⟨0, rfl, rfl⟩

/-- **Numbers.** The patches of a sink have its numbers, without gaps and without repetition. -/
theorem idsOf_eq_range {s : Shared} (h : s.Sound) (sink : Sink) (calls : List Call) :
    ∃ count, idsOf sink s calls
      = (List.range' (s.outbox.nextPatch sink) count).map patchId := by
  induction calls generalizing s with
  | nil => exact ⟨0, rfl⟩
  | cons call rest ih =>
    obtain ⟨own, hnext, hown⟩ := (perform_performed h.isOpen call).ids h sink
    obtain ⟨others, hothers⟩ := ih (h.perform call)
    refine ⟨own + others, ?_⟩
    rw [idsOf, hown, hothers, hnext, ← List.map_append, List.range'_append_1]

/-! ### From the first call on -/

/-- **Traffic.** Whatever is called on the copies of an outbox and of its sinks, in whatever order,
    while the host listens: the host gets the messages that were accepted, unchanged and in the
    order of the calls.  Of the renderings it gets the first; the later ones are refused and post
    nothing.  Before that it gets no patch: a patch that is sent too early is dropped, and nothing
    is changed by it.  Everything else is accepted, and the patches of a sink and its copies are
    numbered from one, in the order in which they were accepted. -/
theorem received_orderly (calls : List Call) :
    let history := fresh.record calls
    let received := (fresh.run calls).received
    received = history.filterMap Call.accepted? ∧
    received.filterMap OutboundMessage.rendering? = (calls.filterMap Call.rendering?).take 1 ∧
    (∀ before change buffers id behind, received = before ++ .patch change buffers id :: behind →
      ∃ payload, .render payload ∈ before) ∧
    (∀ sink, idsOf sink fresh calls
      = (List.range (idsOf sink fresh calls).length).map fun k => patchId (k + 1)) ∧
    ∀ i call, calls[i]? = some call →
      let now := fresh.run (calls.take i)
      let next := fresh.run (calls.take (i + 1))
      let reply := (now.perform call).1
      let rendered := ∃ payload, .render payload ∈ calls.take i
      history[i]? = some (call, reply) ∧
      next.received = now.received ++ (Call.accepted? (call, reply)).toList ∧
      (call.notice?.isSome → reply = .posted (.ok ())) ∧
      (∀ payload, call = .render payload →
        (¬rendered → reply = .posted (.ok ())) ∧
        (rendered → reply = .posted (.error .alreadyRendered) ∧ next = now)) ∧
      ∀ handle sink change buffers, call = .send handle change buffers →
        now.handles[handle]? = some sink →
        (¬rendered → reply = .sent (.ok none) ∧ next = now) ∧
        (rendered → ∃ id, reply = .sent (.ok (some id))) := by
  have hreceived := received_eq sound_fresh calls
  have hrenderings := renderings_record sound_fresh calls
  refine ⟨hreceived, ?_, (ordered_fresh.run sound_fresh calls).behind, fun sink => ?_,
    fun i call hcall => ?_⟩
  · exact (congrArg (List.filterMap OutboundMessage.rendering?) hreceived).trans hrenderings
  · obtain ⟨count, hids⟩ := idsOf_eq_range sound_fresh sink calls
    have hone : fresh.outbox.nextPatch sink = 1 := by simp [nextPatch, fresh, Outbox.empty]
    rw [hids, hone, List.length_map, List.length_range', List.range'_eq_map_range, List.map_map]
    refine List.map_congr_left fun k _ => ?_
    show patchId (1 + k) = _
    rw [Nat.add_comm]
  · -- The outbox is open before each call, so all that the call can do is known.
    have hsound := sound_fresh.run (calls.take i)
    have hflag := isRendered_run sound_fresh (calls.take i)
    have hperformed := perform_performed hsound.isOpen call
    have hclear : ¬ fresh.outbox.isRendered = true := Bool.false_ne_true
    rw [or_iff_right hclear] at hflag
    dsimp only
    rw [run_take_succ fresh hcall, ← hflag]
    refine ⟨getElem?_record fresh hcall, hperformed.posted, hperformed.of_notice, ?_, ?_⟩
    · rintro payload rfl
      exact hperformed.of_render
    · rintro handle sink change buffers rfl known
      exact hperformed.of_send known

/-- Two handles of one sink share its numbers, and another sink has its own. -/
example (payload : RenderPayload) :
    let calls : List Call := [.makeSink, .send 0 .null [], .render payload, .copySink 0, .makeSink,
      .send 1 .null [], .send 2 .null [], .send 0 .null []]
    idsOf ⟨0⟩ fresh calls = ["patch-1", "patch-2"] ∧ idsOf ⟨1⟩ fresh calls = ["patch-1"] := by
  constructor <;> cbv

end Shared

end Outbox

end DocRelay
