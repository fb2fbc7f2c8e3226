import DocRelay.Proofs.Document.Discipline
import DocRelay.Proofs.Document.Wire

namespace DocRelay

/-!
# Watchers that tell what they do

A watcher tells what it does if it performs, in the name of the application, only operations that
are told by events.  Then the events of a cycle that are forwarded lead from the content before the
cycle to the content behind it.

* `Discipline.telling`, `LiveDocument.TellsAll` — watchers of this kind;
* `Scene.Told` — the events so far lead from one content to another;
  `Discipline.telling_carries` — operations and deliveries keep this;
* `Scene.cycle_told` — what is forwarded at the end of a cycle is what the watchers did.
-/

/-- Watchers of a linked document that tell what they do. -/
def Discipline.telling (keeps : Watcher → Prop) : Discipline :=
  ⟨true, fun op => op.origin = .runtime ∧ op.isTold = true, keeps⟩

/-- The watchers of a document tell what they do once it is linked, and so do all that they will
    set. -/
def LiveDocument.TellsAll (d : LiveDocument) : Prop :=
  ∃ keeps, (Discipline.telling keeps).IsBinding ∧ ∀ w ∈ d.watchers, keeps w

namespace Scene

/-- The events of the application in a queue. -/
def ownEvents (queue : Queue) : List Event := queue.flatMap own

/-- The events of the application, sent or queued, lead from a content to that of the document,
    with values in canonical form. -/
structure Told (base : Content) (sent : List Event) (d : Document) (queue : Queue) : Prop where
  followed : base.followAll (sent ++ ownEvents queue) = .ok d.content
  tidy : ∀ event ∈ sent ++ ownEvents queue, event.IsTidy

@[simp] theorem ownEvents_nil : ownEvents [] = [] := rfl

/-- Operations of the application are its own. -/
theorem ownEvents_runtime (told : List Event) :
    ownEvents (told.map fun event => (event, Origin.runtime)) = told := by
  induction told with
  | nil => rfl
  | cons event rest ih => exact congrArg (event :: ·) ih

/-- What the application does joins its events behind those in the queue. -/
theorem ownEvents_append_runtime (queue : Queue) (told : List Event) :
    ownEvents (queue ++ told.map fun event => (event, Origin.runtime)) = ownEvents queue ++ told := by
  rw [ownEvents, List.flatMap_append]
  exact congrArg (ownEvents queue ++ ·) (ownEvents_runtime told)

/-- What an operation of the application tells comes behind all that is sent or queued. -/
theorem ownEvents_perform {op : Operation} (h : op.origin = .runtime) (sent : List Event)
    (queue : Queue) (told : List Event) :
    sent ++ ownEvents (queue ++ told.map fun event => (event, op.origin))
      = (sent ++ ownEvents queue) ++ told := by
  rw [h, ownEvents_append_runtime, List.append_assoc]

/-- An event that is taken goes from the front of the queue to the end of those sent. -/
theorem ownEvents_take (sent : List Event) (event : Event × Origin) (rest : Queue) :
    (sent ++ own event) ++ ownEvents rest = sent ++ ownEvents (event :: rest) :=
  List.append_assoc _ _ _

/-- Operations of the host are not. -/
theorem ownEvents_host (told : List Event) :
    ownEvents (told.map fun event => (event, Origin.host)) = [] := by
  induction told with
  | nil => rfl
  | cons event rest ih => exact ih

/-- **Cycle.** Whatever watchers do, the events that are forwarded at the end of a cycle hold values
    in canonical form if those at its beginning do. -/
theorem cycleEvents_isTidy {s : Scene} (h : ∀ event ∈ ownEvents s.live.queue, event.IsTidy) :
    ∀ event ∈ s.cycleEvents, event.IsTidy := by
  have hcarries : (Discipline.free s.live.isLinked).Carries
      fun sent _ queue => ∀ event ∈ sent ++ queue.flatMap own, event.IsTidy := by
    refine ⟨fun {sent d queue op} _ h event he => ?_, fun {sent _ first rest} h event he => ?_⟩
    · rw [List.flatMap_append, ← List.append_assoc] at he
      rcases List.mem_append.mp he with he | he
      · exact h event he
      · -- An operation of the host tells nothing that is the application's own.
        obtain ⟨⟨made, origin⟩, hmade, he⟩ := List.mem_flatMap.mp he
        obtain ⟨other, hother, heq⟩ := List.mem_map.mp hmade
        obtain ⟨rfl, rfl⟩ := Prod.mk.inj heq
        cases hop : op.origin with
        | host =>
          rw [hop] at he
          cases he
        | runtime =>
          rw [hop] at he
          obtain rfl := List.mem_singleton.mp he
          exact d.perform_told_isTidy op event hother
    · exact h event (ownEvents_take sent first rest ▸ he)
  have hstart : s.Upholds (.free s.live.isLinked)
      fun _ queue => ∀ event ∈ [] ++ queue.flatMap own, event.IsTidy :=
    ⟨rfl, h, fun _ _ => trivial⟩
  have hend := (cycle_upholds (Discipline.isBinding_free _) hcarries [] hstart).matter
  exact fun event he => hend event (List.mem_append_left _ he)

/-- Behind a patch of the host all events that are forwarded hold values in canonical form. -/
theorem cycle_tidy {s : Scene} {told : List Event}
    (hq : s.live.queue = told.map fun event => (event, Origin.host)) :
    ∀ event ∈ s.cycleEvents, event.IsTidy := by
  refine cycleEvents_isTidy fun event he => ?_
  rw [hq, ownEvents_host] at he
  cases he

end Scene

/-- **Step.** What watchers do by operations that are told is told. -/
theorem Discipline.telling_carries (keeps : Watcher → Prop) (base : Content) :
    (telling keeps).Carries (Scene.Told base) := by
  refine ⟨?_, ?_⟩
  · -- The operation is one of the application, so its events join the end of those to send.
    rintro sent d queue op ⟨horigin, htold⟩ h
    have hown := Scene.ownEvents_perform horigin sent queue (d.perform op).2.2
    refine ⟨?_, fun event he => ?_⟩
    · rw [hown, Content.followAll_append h.followed]
      exact d.perform_followAll htold
    · rw [hown] at he
      rcases List.mem_append.mp he with he | he
      · exact h.tidy event he
      · exact d.perform_told_isTidy op event he
  · intro sent d event rest h
    have hown := Scene.ownEvents_take sent event rest
    refine ⟨?_, ?_⟩
    · rw [hown]
      exact h.followed
    · rw [hown]
      exact h.tidy

/-- **Cycle.** At the end of a cycle behind a patch of the host, the events that are forwarded lead
    to the content of the document, and its watchers still tell what they do. -/
theorem Scene.cycle_told {s : Scene} (hl : s.live.isLinked = true) (ht : s.live.TellsAll)
    {told : List Event} (hq : s.live.queue = told.map fun event => (event, Origin.host)) :
    s.live.document.content.followAll s.cycleEvents = .ok s.cycleEnd.live.document.content ∧
      (∀ event ∈ s.cycleEvents, event.IsTidy) ∧ s.cycleEnd.live.TellsAll := by
  obtain ⟨keeps, hbinding, hkeeps⟩ := ht
  -- The host knows its own changes: at the start there is nothing to send.
  have hnone : ([] : List Event) ++ ownEvents s.live.queue = [] := by
    rw [hq, ownEvents_host]
    rfl
  have hstart : s.Upholds (.telling keeps) (Told s.live.document.content []) := by
    refine ⟨hl, ⟨?_, ?_⟩, hkeeps⟩
    · rw [hnone]
      rfl
    · rw [hnone]
      exact fun event he => absurd he List.not_mem_nil
  obtain ⟨⟨hfollowed, htidy⟩, hbound⟩ :=
    cycle_forwarded hbinding (Discipline.telling_carries keeps _) hstart
  rw [ownEvents_nil, List.append_nil] at hfollowed htidy
  exact ⟨hfollowed, htidy, keeps, hbinding, hbound⟩

end DocRelay
