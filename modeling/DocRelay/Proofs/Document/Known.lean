import DocRelay.Proofs.Document.Telling

namespace DocRelay

/-!
# Models that are known

A host knows the models of a rendering, and from then on those that it was told of.  Who follows
the events of a document can ask of each whether the model that it names is known by then.  The
only models that are in a document and may not be known are those that were added without a word.

* `Event.known`, `Event.IsKnown`, `Event.AreKnown` — what is known behind an event, and events that
  name known models only; `Event.areKnown_iff` — the same, event by event;
* `Content.Unlisted`, `Content.IsKnown` — a model that is no root; all others are known;
* `Content.IsKnown.follow`, `Content.IsKnown.followAll` — an event, and a run of them;
* `Discipline.acting`, `LiveDocument.Acts` — watchers that act in the name of the application, and
  perhaps add models without a word;
* `Scene.cycle_acts` — what their operations keep holds of what is forwarded at the end of a cycle;
* `Scene.Heard`, `Scene.cycle_heard` — what is forwarded names known models.
-/

namespace Event

/-- What is known behind an event. -/
def known (models : List String) : Event → List String
  | .rootAdded m => m.id :: models
  | .rootRemoved id => models.filter (· ≠ id)
  | .modelChanged _ _ _ | .titleChanged _ => models

/-- The event changes a model that is known or spared, or removes one that is known. -/
def IsKnown (spared : String → Prop) (models : List String) : Event → Prop
  | .modelChanged id _ _ => id ∈ models ∨ spared id
  | .rootRemoved id => id ∈ models
  | .rootAdded _ | .titleChanged _ => True

/-- Each of the events does, by what is known behind those before it. -/
def AreKnown (spared : String → Prop) (models : List String) : List Event → Prop
  | [] => True
  | event :: rest => event.IsKnown spared models ∧ AreKnown spared (event.known models) rest

instance (spared : String → Prop) [DecidablePred spared] (models : List String) :
    DecidablePred (IsKnown spared models)
  | .modelChanged id _ _ => inferInstanceAs (Decidable (id ∈ models ∨ spared id))
  | .rootRemoved id => inferInstanceAs (Decidable (id ∈ models))
  | .rootAdded _ => inferInstanceAs (Decidable True)
  | .titleChanged _ => inferInstanceAs (Decidable True)

instance decidableAreKnown (spared : String → Prop) [DecidablePred spared] :
    ∀ (models : List String) (events : List Event), Decidable (AreKnown spared models events)
  | _, [] => inferInstanceAs (Decidable True)
  | models, event :: rest =>
    have := decidableAreKnown spared (event.known models) rest
    inferInstanceAs
      (Decidable (event.IsKnown spared models ∧ AreKnown spared (event.known models) rest))

variable {spared : String → Prop} {models : List String}

/-- More models can be spared. -/
theorem IsKnown.mono {other : String → Prop} (hs : ∀ id, spared id → other id) {event : Event}
    (h : event.IsKnown spared models) : event.IsKnown other models := by
  cases event with
  | modelChanged id attr value => exact h.imp_right (hs id)
  | rootRemoved id => exact h
  | _ => trivial

/-- More models can be spared all along. -/
theorem AreKnown.mono {other : String → Prop} (hs : ∀ id, spared id → other id)
    {events : List Event} (h : AreKnown spared models events) : AreKnown other models events := by
  induction events generalizing models with
  | nil => trivial
  | cons event rest ih => exact ⟨h.1.mono hs, ih h.2⟩

/-- **Events in two parts** are known part by part. -/
theorem areKnown_append {first second : List Event} :
    AreKnown spared models (first ++ second) ↔
      AreKnown spared models first ∧ AreKnown spared (first.foldl known models) second := by
  induction first generalizing models with
  | nil => exact (true_and _).symm.to_iff
  | cons event rest ih =>
    show event.IsKnown spared models ∧ AreKnown spared (event.known models) (rest ++ second) ↔ _
    rw [ih, ← and_assoc]
    rfl

/-- **Event by event.** Each names a model that is known behind those before it. -/
theorem areKnown_iff {events : List Event} :
    AreKnown spared models events ↔
      ∀ first event rest, events = first ++ event :: rest →
        event.IsKnown spared (first.foldl known models) := by
  refine ⟨?_, fun h => ?_⟩
  · rintro h first event rest rfl
    exact (areKnown_append.mp h).2.1
  · induction events generalizing models with
    | nil => trivial
    | cons event rest ih =>
      exact ⟨h [] event rest rfl, ih fun first next others hrest =>
        h (event :: first) next others (congrArg (event :: ·) hrest)⟩

end Event

namespace Content

/-- The model is there and is no root. -/
def Unlisted (c : Content) (id : String) : Prop := id ∈ c.models.keys ∧ id ∉ c.roots

/-- Every model is known, or else it is no root, and there may be hidden models. -/
def IsKnown (c : Content) (hidden : Prop) (models : List String) : Prop :=
  ∀ id ∈ c.models.keys, id ∈ models ∨ hidden ∧ id ∉ c.roots

variable {c after : Content} {hidden : Prop} {models : List String}

/-- A root is known. -/
theorem IsKnown.mem_of_root (h : c.IsKnown hidden models) (hs : c.Sound) {id : String}
    (hid : id ∈ c.roots) : id ∈ models :=
  (h id (hs.rooted id hid)).resolve_right fun hnot => hnot.2 hid

/-- A model that is no root stays so behind an event. -/
theorem Unlisted.follow {id : String} (h : c.Unlisted id) {event : Event}
    (hf : c.follow event = .ok after) : after.Unlisted id := by
  cases followed_of_follow hf with
  | kept => exact h
  | put => exact ⟨Table.mem_keys_insert.mpr (.inr h.1), h.2⟩
  | @pushed m fresh =>
    refine ⟨Table.mem_keys_insert.mpr (.inr h.1), fun hroot => ?_⟩
    rcases List.mem_append.mp hroot with hroot | hroot
    · exact h.2 hroot
    · -- A new root has an id of its own.
      exact fresh (List.mem_singleton.mp hroot ▸ h.1)
  | @dropped other root =>
    refine ⟨Table.mem_keys_erase.mpr ⟨?_, h.1⟩, fun hroot => h.2 (List.mem_filter.mp hroot).1⟩
    rintro rfl
    exact h.2 root
  | titled => exact h

/-- So it does behind several. -/
theorem Unlisted.followAll {id : String} (h : c.Unlisted id) {events : List Event}
    (hf : c.followAll events = .ok after) : after.Unlisted id :=
  followAll_induction (P := fun c => c.Unlisted id) (fun _ _ _ _ hc hf => hc.follow hf) h hf

/-- **Step.** An event that can be followed names a known model, and its own models are known
    behind it. -/
theorem IsKnown.follow (h : c.IsKnown hidden models) (hs : c.Sound) {event : Event}
    (hf : c.follow event = .ok after) :
    event.IsKnown (fun id => hidden ∧ c.Unlisted id) models ∧
      after.IsKnown hidden (event.known models) := by
  -- A model that is there to be changed is known, or hidden and no root.
  have hchanged : ∀ {id : String} {m : Model}, c.models.get? id = some m →
      id ∈ c.models.keys ∧ (id ∈ models ∨ hidden ∧ c.Unlisted id) := by
    intro id m found
    have hid : id ∈ c.models.keys :=
      Table.contains_iff_mem_keys.mp (by simp [Table.contains, found])
    exact ⟨hid, (h id hid).imp_right fun hnot => ⟨hnot.1, hid, hnot.2⟩⟩
  cases followed_of_follow hf with
  | kept found => exact ⟨(hchanged found).2, h⟩
  | @put id attr value m found =>
    refine ⟨(hchanged found).2, fun other hother => ?_⟩
    rcases Table.mem_keys_insert.mp hother with rfl | hother
    · exact h other (hchanged found).1
    · exact h other hother
  | @pushed m fresh =>
    -- From here on the new model is known, and no other one becomes a root.
    refine ⟨trivial, fun other hother => ?_⟩
    rcases Table.mem_keys_insert.mp hother with rfl | hother
    · exact .inl List.mem_cons_self
    · have hunlisted : other ∉ c.roots → other ∉ (c.push m).roots := fun hroot =>
        (Unlisted.follow ⟨hother, hroot⟩ hf).2
      exact (h other hother).imp (List.mem_cons_of_mem _) (And.imp_right hunlisted)
  | @dropped id root =>
    -- With the root its model goes, and so it need not be known any more.
    refine ⟨h.mem_of_root hs root, fun other hother => ?_⟩
    obtain ⟨hne, hother⟩ := Table.mem_keys_erase.mp hother
    have hunlisted : other ∉ c.roots → other ∉ (c.drop id).roots := fun hroot =>
      (Unlisted.follow ⟨hother, hroot⟩ hf).2
    refine (h other hother).imp (fun hk => ?_) (And.imp_right hunlisted)
    exact List.mem_filter.mpr ⟨hk, by simpa using hne⟩
  | titled => exact ⟨trivial, h⟩

/-- **Run.** Events that can be followed name known models, and their own models are known behind
    them. -/
theorem IsKnown.followAll (h : c.IsKnown hidden models) (hs : c.Sound) {events : List Event}
    (hf : c.followAll events = .ok after) :
    Event.AreKnown (fun id => hidden ∧ after.Unlisted id) models events ∧
      after.IsKnown hidden (events.foldl Event.known models) ∧
      ∀ id, c.Unlisted id → after.Unlisted id := by
  induction events generalizing c models with
  | nil =>
    obtain rfl := Except.ok.inj hf
    exact ⟨trivial, h, fun _ hid => hid⟩
  | cons event rest ih =>
    obtain ⟨mid, hone, hothers⟩ := exists_of_followAll_cons hf
    obtain ⟨hevent, hmid⟩ := h.follow hs hone
    obtain ⟨hrest, hafter, hunlisted⟩ := ih hmid (hs.follow hone) hothers
    -- What is spared at the event is still spared at the end.
    have hspared : ∀ id, c.Unlisted id → after.Unlisted id :=
      fun id hid => hunlisted id (hid.follow hone)
    exact ⟨⟨hevent.mono fun id hid => ⟨hid.1, hspared id hid.2⟩, hrest⟩, hafter, hspared⟩

end Content

/-! ### Watchers -/

/-- Watchers of a linked document that act in the name of the application, and add models without a
    word only if there may be hidden models. -/
def Discipline.acting (hidden : Prop) (keeps : Watcher → Prop) : Discipline :=
  ⟨true, fun op => op.origin = .runtime ∧ (op.isTold = true ∨ hidden), keeps⟩

/-- The watchers of a document do so once it is linked, and so do all that they will set. -/
def LiveDocument.Acts (hidden : Prop) (d : LiveDocument) : Prop :=
  ∃ keeps, (Discipline.acting hidden keeps).IsBinding ∧ ∀ w ∈ d.watchers, keeps w

namespace Document

/-- **Step.** An operation tells of known models only, and its own models are known behind it, but
    for one that is added without a word. -/
theorem perform_isKnown {d : Document} {hidden : Prop} {models : List String}
    (h : d.content.IsKnown hidden models) (hs : d.content.Sound) {op : Operation}
    (ho : op.isTold = true ∨ hidden) :
    let after := (d.perform op).2.1.content
    Event.AreKnown (fun id => hidden ∧ after.Unlisted id) models (d.perform op).2.2 ∧
      after.IsKnown hidden ((d.perform op).2.2.foldl Event.known models) ∧
      ∀ id, d.content.Unlisted id → after.Unlisted id := by
  cases d.performed op with
  | told followed => exact h.followAll hs followed
  | @added kind attributes silent stored =>
    have hh : hidden := ho.resolve_left Bool.false_ne_true
    rw [silent, stored]
    refine ⟨trivial, fun id hid => ?_, fun id hid => ?_⟩
    · rcases Table.mem_keys_insert.mp hid with rfl | hid
      · -- A root of that id would be a model of that id.
        exact .inr ⟨hh, fun hroot => d.newModel_fresh kind attributes (hs.rooted _ hroot)⟩
      · exact h id hid
    · exact ⟨Table.mem_keys_insert.mpr (.inr hid.1), hid.2⟩

end Document

namespace Scene

/-- **Cycle.** What every operation keeps that such watchers may perform, of the changes made so far
    and of the document, holds of what is forwarded at the end of a cycle behind a patch of the
    host. -/
theorem cycle_acts {hidden : Prop} {K : List Event → Document → Prop}
    (step : ∀ {events d op}, op.isTold = true ∨ hidden → K events d →
      K (events ++ (d.perform op).2.2) (d.perform op).2.1)
    {s : Scene} (hl : s.live.isLinked = true) (ha : s.live.Acts hidden) {told : List Event}
    (hq : s.live.queue = told.map fun event => (event, Origin.host))
    (h : K [] s.live.document) :
    K s.cycleEvents s.cycleEnd.live.document ∧ s.cycleEnd.live.Acts hidden := by
  obtain ⟨keeps, hbinding, hkeeps⟩ := ha
  -- What is sent and what is queued belong together: events go from the one to the other.
  have hcarries : (Discipline.acting hidden keeps).Carries
      fun sent d queue => K (sent ++ ownEvents queue) d := by
    refine ⟨fun {sent d queue op} hop h => ?_, fun {sent d event rest} h => ?_⟩
    · rw [ownEvents_perform hop.1]
      exact step hop.2 h
    · rw [ownEvents_take]
      exact h
  -- The host knows its own changes: at the start there is nothing to send.
  have hstart : s.Upholds (.acting hidden keeps) fun d queue => K ([] ++ ownEvents queue) d := by
    refine ⟨hl, ?_, hkeeps⟩
    rw [hq, ownEvents_host]
    exact h
  obtain ⟨hmatter, hbound⟩ := cycle_forwarded hbinding hcarries hstart
  rw [ownEvents_nil, List.append_nil] at hmatter
  exact ⟨hmatter, keeps, hbinding, hbound⟩

/-- The changes of the application name known models to those who knew `models` at a content, and
    behind them the models of the document are known. -/
structure Heard (hidden : Prop) (base : Content) (models : List String) (events : List Event)
    (d : Document) : Prop where
  sound : d.content.Sound
  areKnown : Event.AreKnown (fun id => hidden ∧ d.content.Unlisted id) models events
  known : d.content.IsKnown hidden (events.foldl Event.known models)
  unlisted : ∀ id, base.Unlisted id → d.content.Unlisted id

/-- **Step.** What watchers do in the name of the application names known models. -/
theorem Heard.perform {hidden : Prop} {base : Content} {models : List String} {events : List Event}
    {d : Document} (h : Heard hidden base models events d) {op : Operation}
    (hop : op.isTold = true ∨ hidden) :
    Heard hidden base models (events ++ (d.perform op).2.2) (d.perform op).2.1 := by
  obtain ⟨hevents, hknown, hspared⟩ := Document.perform_isKnown h.known h.sound hop
  refine ⟨Document.perform_sound h.sound op, ?_, ?_, fun id hid => hspared id (h.unlisted id hid)⟩
  · -- The events so far spare models that are still no roots.
    exact Event.areKnown_append.mpr
      ⟨h.areKnown.mono fun id hid => ⟨hid.1, hspared id hid.2⟩, hevents⟩
  · rw [List.foldl_append]
    exact hknown

/-- **Cycle.** The events that are forwarded at the end of a cycle behind a patch of the host name
    known models, and behind them the models of the document are known. -/
theorem cycle_heard {hidden : Prop} {models : List String} {s : Scene}
    (hl : s.live.isLinked = true) (ha : s.live.Acts hidden) {told : List Event}
    (hq : s.live.queue = told.map fun event => (event, Origin.host))
    (hs : s.live.document.content.Sound) (h : s.live.document.content.IsKnown hidden models) :
    Heard hidden s.live.document.content models s.cycleEvents s.cycleEnd.live.document ∧
      s.cycleEnd.live.Acts hidden :=
  cycle_acts (fun hop h => h.perform hop) hl ha hq ⟨hs, trivial, h, fun _ hid => hid⟩

end Scene

end DocRelay
