import DocRelay.Document.Script
import DocRelay.Proofs.Document.Effects
import DocRelay.Proofs.Document.Naming

namespace DocRelay

/-!
# Operations told by events

The events that tell of an operation do to the content what the operation did, so whoever follows
them has the same content.  Only a model that is added without being a root is told by nothing.

* `withContent` — a document with another content and all else the same;
* `Knows`, `firstFault?_cons` — the check of a patch in advance, one event at a time;
* `firstFault?_followAll`, `applyEvents_followAll` — the check as a whole and the changes made
  afterwards are the sequential meaning of the events;
* `applyPatch_refused`, `applyPatch_followed` — a patch is followed as a whole, or nothing is
  done;
* `Content.applied`, `applyPatch_of_error`, `applyPatch_of_ok` — the same, by what becomes of the
  content;
* `perform_followAll` — what an operation tells is what it did; `Performed`, `performed` — it does
  what it tells, or adds a model without a word; `perform_sound` — it keeps the content sound.
-/

namespace Document

/-- The document with another content and all else the same. -/
def withContent (d : Document) (c : Content) : Document :=
  { d with title := c.title, roots := c.roots, models := c.models }

@[simp] theorem content_withContent (d : Document) (c : Content) :
    (d.withContent c).content = c := rfl

@[simp] theorem withContent_content (d : Document) : d.withContent d.content = d := rfl

@[simp] theorem withContent_withContent (d : Document) (c e : Content) :
    (d.withContent c).withContent e = d.withContent e := rfl

/-! ### One event -/

/-- An attribute that has the value already is left alone. -/
theorem setAttr_kept {d : Document} {id attr : String} {value : Json} {m : Model}
    (hm : d.content.models.get? id = some m) (hh : holds m attr value = true) :
    d.setAttr id attr value = .ok (d, []) := by
  have hm' : d.model? id = some m := hm
  simp [setAttr, hm', hh]

/-- An attribute that has another value is set, and that is told. -/
theorem setAttr_put {d : Document} {id attr : String} {value : Json} {m : Model}
    (hm : d.content.models.get? id = some m) (hh : holds m attr value = false) :
    d.setAttr id attr value
      = .ok (d.withContent (d.content.put id attr value m), [.modelChanged id attr value]) := by
  have hm' : d.model? id = some m := hm
  simp [setAttr, hm', hh, withContent, content, Content.put]

/-- The attribute of an unknown model cannot be set. -/
theorem setAttr_unknown {d : Document} {id attr : String} {value : Json}
    (hm : d.content.models.get? id = none) :
    d.setAttr id attr value = .error (.unknownModel id) := by
  have hm' : d.model? id = none := hm
  simp [setAttr, hm']

/-- A root is removed with its model, and that is told. -/
theorem removeRoot_root {d : Document} {id : String} (h : id ∈ d.content.roots) :
    d.removeRoot id = .ok (d.withContent (d.content.drop id), [.rootRemoved id]) := by
  have h' : d.roots.contains id = true := List.contains_iff_mem.mpr h
  rw [removeRoot, if_pos h']
  rfl

/-- An event that is possible is followed, and is told if it is a change. -/
theorem applyEvent_follow {d : Document} {event : Event} {c : Content}
    (h : d.content.follow event = .ok c) :
    d.applyEvent event = .ok (d.withContent c, d.content.effect event) := by
  rw [Content.effect]
  -- Nothing is told where the document has the value or the title already.
  cases Content.followed_of_follow h with
  | kept hm hh =>
    rw [if_neg (by simp [Content.changes, hm, hh])]
    exact setAttr_kept hm hh
  | put hm hh =>
    rw [if_pos (by simp [Content.changes, hm, hh])]
    exact setAttr_put hm hh
  | pushed => rfl
  | dropped hid => exact removeRoot_root hid
  | @titled title =>
    by_cases ht : title = d.title
    · simp [applyEvent, setTitle, Content.changes, withContent, content, ht]
    · simp [applyEvent, setTitle, Content.changes, withContent, content, ht]

/-! ### Patches -/

/-- **Application of a checked patch.** Events that can be followed are all applied; those of them
    that are changes are told. -/
theorem applyEvents_followAll {d : Document} {events : List Event} {c : Content}
    (h : d.content.followAll events = .ok c) :
    d.applyEvents events = (d.withContent c, d.content.effects events, none) := by
  induction events generalizing d with
  | nil =>
    obtain rfl := Except.ok.inj h
    rfl
  | cons event rest ih =>
    obtain ⟨mid, hone, hothers⟩ := Content.exists_of_followAll_cons h
    have hrest := ih (d := d.withContent mid) hothers
    rw [applyEvents, applyEvent_follow hone, Content.effects_cons hone]
    simp [hrest]

/-- The ids that the check of a patch is given, in any order, are those of the models and of the
    roots. -/
structure Knows (known roots : List String) (c : Content) : Prop where
  models : ∀ id, id ∈ known ↔ id ∈ c.models.keys
  roots : ∀ id, id ∈ roots ↔ id ∈ c.roots

/-- **Step.** The check of an event finds its fault, or goes on with the ids that the event leads
    to. -/
theorem firstFault?_cons {known roots : List String} {c : Content} (h : Knows known roots c)
    (event : Event) (rest : List Event) :
    match c.follow event with
    | .ok after => ∃ models ids, Knows models ids after ∧
        firstFault? known roots (event :: rest) = firstFault? models ids rest
    | .error fault => firstFault? known roots (event :: rest) = some fault := by
  cases event with
  | modelChanged id attr value =>
    rw [firstFault?, Content.follow]
    cases hm : c.models.get? id with
    | none =>
      have hid : id ∉ known := fun hmem => Table.get?_eq_none_iff.mp hm ((h.models id).mp hmem)
      exact if_neg fun hmem => hid (List.contains_iff_mem.mp hmem)
    | some m =>
      have hid : id ∈ c.models.keys :=
        Table.contains_iff_mem_keys.mp (by simp [Table.contains, hm])
      rw [if_pos (List.contains_iff_mem.mpr ((h.models id).mpr hid))]
      dsimp only
      by_cases hh : holds m attr value = true
      · rw [if_pos hh]
        exact ⟨known, roots, h, rfl⟩
      · -- The model is stored again under its own id, which adds no key.
        rw [if_neg hh]
        refine ⟨known, roots, ⟨fun other => ?_, h.roots⟩, rfl⟩
        rw [h.models other]
        refine ⟨fun hmem => Table.mem_keys_insert.mpr (.inr hmem), fun hmem => ?_⟩
        rcases Table.mem_keys_insert.mp hmem with rfl | hmem
        · exact hid
        · exact hmem
  | rootAdded m =>
    rw [firstFault?, Content.follow]
    by_cases hid : m.id ∈ c.models.keys
    · rw [if_pos (List.contains_iff_mem.mpr ((h.models m.id).mpr hid)),
        if_pos (Table.contains_iff_mem_keys.mpr hid)]
    · rw [if_neg (fun hmem => hid ((h.models m.id).mp (List.contains_iff_mem.mp hmem))),
        if_neg (fun hmem => hid (Table.contains_iff_mem_keys.mp hmem))]
      -- The new id comes first in the one list of roots and last in the other.
      refine ⟨m.id :: known, m.id :: roots, ⟨fun other => ?_, fun other => ?_⟩, rfl⟩
      · simp only [Content.push, Table.mem_keys_insert, List.mem_cons, h.models]
      · simp only [Content.push, List.mem_append, List.mem_cons, List.not_mem_nil, or_false,
          h.roots]
        exact or_comm
  | rootRemoved id =>
    rw [firstFault?, Content.follow]
    by_cases hid : id ∈ c.roots
    · rw [if_pos (List.contains_iff_mem.mpr ((h.roots id).mpr hid)),
        if_pos (List.contains_iff_mem.mpr hid)]
      refine ⟨_, _, ⟨fun other => ?_, fun other => ?_⟩, rfl⟩
      · simp only [Content.drop, Table.mem_keys_erase, List.mem_filter, decide_eq_true_eq,
          h.models]
        exact and_comm
      · simp only [Content.drop, List.mem_filter, decide_eq_true_eq, h.roots]
    · rw [if_neg (fun hmem => hid ((h.roots id).mp (List.contains_iff_mem.mp hmem))),
        if_neg (fun hmem => hid (List.contains_iff_mem.mp hmem))]
  | titleChanged title =>
    rw [firstFault?, Content.follow]
    exact ⟨known, roots, ⟨h.models, h.roots⟩, rfl⟩

/-- **The check in advance.** It finds the fault that following the events in order ends with. -/
theorem firstFault?_followAll (events : List Event) {known roots : List String} {c : Content}
    (h : Knows known roots c) :
    match c.followAll events with
    | .ok _ => firstFault? known roots events = none
    | .error fault => firstFault? known roots events = some fault := by
  -- By induction on the events: the ids are kept in step with the content.
  induction events generalizing known roots c with
  | nil => simp [firstFault?]
  | cons event rest ih =>
    have hstep := firstFault?_cons h event rest
    rw [Content.followAll]
    cases hone : c.follow event with
    | error fault =>
      rw [hone] at hstep
      exact hstep
    | ok after =>
      rw [hone] at hstep
      obtain ⟨models, ids, hafter, hnext⟩ := hstep
      rw [hnext]
      exact ih hafter

/-- The check in advance of a patch to a document. -/
theorem firstFault?_content (d : Document) (events : List Event) :
    match d.content.followAll events with
    | .ok _ => firstFault? d.models.keys d.roots events = none
    | .error fault => firstFault? d.models.keys d.roots events = some fault :=
  firstFault?_followAll events ⟨fun _ => Iff.rfl, fun _ => Iff.rfl⟩

/-- **A patch that cannot be followed** changes nothing, and its fault is that of the first event
    that is not possible after those before it. -/
theorem applyPatch_refused {d : Document} {j : Json} {events : List Event} {fault : PatchFault}
    (hj : Patch.decode j = .ok events) (h : d.content.followAll events = .error fault) :
    d.applyPatch j = (d, [], some (.patch fault)) := by
  have hfault := firstFault?_content d events
  rw [h] at hfault
  simp [applyPatch, hj, hfault]

/-- **A patch that can be followed** is applied as a whole, and told by its changes. -/
theorem applyPatch_followed {d : Document} {j : Json} {events : List Event} {c : Content}
    (hj : Patch.decode j = .ok events) (h : d.content.followAll events = .ok c) :
    d.applyPatch j = (d.withContent c, d.content.effects events, none) := by
  have hfault := firstFault?_content d events
  rw [h] at hfault
  simp [applyPatch, hj, hfault, applyEvents_followAll h]

/-- A value that is no patch changes nothing. -/
theorem applyPatch_undecodable {d : Document} {j : Json} {cause : Json.Misfit}
    (hj : Patch.decode j = .error cause) :
    d.applyPatch j = (d, [], some (.badPatch (.misfit cause))) := by
  simp [applyPatch, hj]

end Document

/-- The content after a patch: all of its events are followed in order, or none. -/
def Content.applied (c : Content) (change : Json) : Except Fault Content :=
  match Patch.decode change with
  | .error cause => .error (.badPatch (.misfit cause))
  | .ok events =>
    match c.followAll events with
    | .error fault => .error (.patch fault)
    | .ok after => .ok after

/-- A patch that is applied has events, all of which are followed. -/
theorem Content.exists_of_applied {c after : Content} {change : Json}
    (h : c.applied change = .ok after) :
    ∃ events, Patch.decode change = .ok events ∧ c.followAll events = .ok after := by
  unfold applied at h
  cases hj : Patch.decode change with
  | error cause =>
    rw [hj] at h
    cases h
  | ok events =>
    cases hf : c.followAll events with
    | error cause =>
      simp only [hj, hf] at h
      cases h
    | ok last =>
      simp only [hj, hf] at h
      obtain rfl := Except.ok.inj h
      exact ⟨events, rfl, hf⟩

namespace Document

/-- A patch that is refused changes nothing and tells nothing. -/
theorem applyPatch_of_error {d : Document} {change : Json} {fault : Fault}
    (h : d.content.applied change = .error fault) : d.applyPatch change = (d, [], some fault) := by
  unfold Content.applied at h
  cases hj : Patch.decode change with
  | error cause =>
    rw [hj] at h
    cases h
    exact applyPatch_undecodable hj
  | ok events =>
    cases hf : d.content.followAll events with
    | error cause =>
      simp only [hj, hf] at h
      cases h
      exact applyPatch_refused hj hf
    | ok c =>
      simp only [hj, hf] at h
      cases h

/-- A patch that is taken changes the content as its events say, and tells what it did. -/
theorem applyPatch_of_ok {d : Document} {change : Json} {c : Content}
    (h : d.content.applied change = .ok c) :
    ∃ events told, Patch.decode change = .ok events ∧
      d.applyPatch change = (d.withContent c, told, none) ∧
      d.content.followAll told = .ok c ∧ ∀ event ∈ told, event ∈ events := by
  obtain ⟨events, hj, hf⟩ := Content.exists_of_applied h
  exact ⟨events, _, hj, applyPatch_followed hj hf, Content.followAll_effects hf,
    fun _ => Content.mem_of_mem_effects⟩

/-! ### Operations -/

/-- The model that an addition makes. -/
def newModel (d : Document) (kind : String) (attributes : Table Json) : Model :=
  ⟨modelId d.nextNumber, kind, Json.canonicalTable attributes⟩

/-- No model has the id of a new one. -/
theorem newModel_fresh (d : Document) (kind : String) (attributes : Table Json) :
    (d.newModel kind attributes).id ∉ d.content.models.keys := by
  intro h
  have hfree : d.content.models.contains (d.newModel kind attributes).id = false :=
    d.nextNumber_free
  rw [Table.contains_iff_mem_keys.mpr h] at hfree
  cases hfree

/-- A model that is added without being a root is told by nothing. -/
theorem perform_addModel (d : Document) (kind : String) (attributes : Table Json) :
    (d.perform (.addModel kind attributes)).2.2 = [] ∧
      (d.perform (.addModel kind attributes)).2.1.content
        = { d.content with
            models := d.models.insert (d.newModel kind attributes).id
              (d.newModel kind attributes) } :=
  ⟨rfl, rfl⟩

/-- **Inversion.** An attribute that is set belongs to a model, which has the value already, or is
    changed by one event. -/
theorem setAttr_cases {d after : Document} {id attr : String} {value : Json} {told : List Event}
    (h : d.setAttr id attr value = .ok (after, told)) :
    ∃ m, d.content.models.get? id = some m ∧
      ((holds m attr value = true ∧ after = d ∧ told = []) ∨
        (holds m attr value = false ∧ after = d.withContent (d.content.put id attr value m) ∧
          told = [.modelChanged id attr value])) := by
  cases hm : d.content.models.get? id with
  | none =>
    rw [setAttr_unknown hm] at h
    cases h
  | some m =>
    refine ⟨m, rfl, ?_⟩
    cases hh : holds m attr value with
    | true =>
      rw [setAttr_kept hm hh] at h
      cases h
      exact .inl ⟨rfl, rfl, rfl⟩
    | false =>
      rw [setAttr_put hm hh] at h
      cases h
      exact .inr ⟨rfl, rfl, rfl⟩

/-- Setting an attribute is told by what was done. -/
theorem setAttr_followAll {d after : Document} {id attr : String} {value : Json}
    {told : List Event} (h : d.setAttr id attr value = .ok (after, told)) :
    d.content.followAll told = .ok after.content := by
  obtain ⟨m, hm, ⟨-, rfl, rfl⟩ | ⟨hh, rfl, rfl⟩⟩ := setAttr_cases h
  · rfl
  · simp [Content.follow, hm, hh]

/-- Setting an attribute changes nothing but the content. -/
theorem setAttr_withContent {d after : Document} {id attr : String} {value : Json}
    {told : List Event} (h : d.setAttr id attr value = .ok (after, told)) :
    ∃ c, after = d.withContent c := by
  obtain ⟨m, hm, ⟨-, rfl, rfl⟩ | ⟨-, rfl, rfl⟩⟩ := setAttr_cases h
  · exact ⟨after.content, rfl⟩
  · exact ⟨_, rfl⟩

/-- The document with bytes stored in a new buffer. -/
def storeBuffer (d : Document) (data : Bytes) : Document :=
  { d with buffers := d.buffers.insert (bufferId d.nextId) data, nextId := d.nextId + 1 }

/-- Binary data for a known model is stored, and then an attribute is set. -/
theorem setBinary_known {d : Document} {id : String} (hm : ¬(d.model? id).isNone = true)
    (attr : String) (data : Bytes) :
    d.setBinary id attr data
      = ((d.storeBuffer data).setAttr id attr (Event.bufferReference (bufferId d.nextId))).map
        fun result => (bufferId d.nextId, result.1, result.2) := by
  rw [setBinary, if_neg hm]
  rfl

/-- Binary data is stored beside the content, which is then changed as by `setAttr`; or nothing
    is done. -/
theorem perform_setBinary (d : Document) (id attr : String) (data : Bytes) (origin : Origin) :
    (d.perform (.setBinary id attr data origin)).2 = (d, []) ∨
      ∃ after told,
        (d.storeBuffer data).setAttr id attr (Event.bufferReference (bufferId d.nextId))
          = .ok (after, told) ∧
        d.perform (.setBinary id attr data origin)
          = (.ok (.made (bufferId d.nextId)), after, told) := by
  by_cases hm : (d.model? id).isNone = true
  · left
    rw [perform, setBinary, if_pos hm]
  · rw [perform, setBinary_known hm]
    cases (d.storeBuffer data).setAttr id attr (Event.bufferReference (bufferId d.nextId)) with
    | error fault => exact .inl rfl
    | ok result => exact .inr ⟨result.1, result.2, rfl, rfl⟩

/-- A merge changes nothing but the location. -/
theorem mergeLocation_eq (d : Document) (update : Table Json) :
    ∃ reply l, d.mergeLocation update = (reply, { d with location := l }) := by
  unfold mergeLocation
  cases hl : d.location with
  | none =>
    refine ⟨.ok .noLocation, none, ?_⟩
    cases d
    cases hl
    rfl
  | some place =>
    dsimp only
    cases hm : place.merge update with
    | mk reply after =>
      cases reply with
      | ok keys => exact ⟨.ok (.merged keys), some after, rfl⟩
      | error fault => exact ⟨.error (.location fault), some after, rfl⟩

end Document

/-- The operation is told by the events of its changes. -/
def Operation.isTold : Operation → Bool
  | .addModel _ _ => false
  | _ => true

namespace Document

/-- **What an operation tells is what it did**: its events lead from the content before it to
    the content after it. -/
theorem perform_followAll (d : Document) {op : Operation} (hop : op.isTold = true) :
    d.content.followAll (d.perform op).2.2 = .ok (d.perform op).2.1.content := by
  cases op with
  | setTitle title =>
    by_cases ht : title = d.title
    · simp [perform, setTitle, ht]
    · simp [perform, setTitle, ht, Content.follow, content]
  | addModel => cases hop
  | addRoot kind attributes =>
    -- The host can follow the event because the id that the document has made is free.
    have hm := d.newModel_fresh kind attributes
    rw [← Table.contains_iff_mem_keys] at hm
    show d.content.followAll [.rootAdded (d.newModel kind attributes)] = _
    rw [Content.followAll_singleton, Content.follow, if_neg hm]
    rfl
  | removeRoot id =>
    rw [perform]
    by_cases hid : id ∈ d.content.roots
    · rw [removeRoot_root hid]
      simp [Content.follow, hid]
    · have hid' : ¬ d.roots.contains id = true := fun h => hid (List.contains_iff_mem.mp h)
      rw [removeRoot, if_neg hid']
      rfl
  | setAttr id attr value =>
    rw [perform]
    cases h : d.setAttr id attr value.canonical with
    | error fault => rfl
    | ok result => exact setAttr_followAll h
  | setBinary id attr data =>
    -- The buffers are no part of the content.
    rcases d.perform_setBinary id attr data _ with hrest | ⟨after, told, hset, hperform⟩
    · rw [hrest]
      rfl
    · have hstored := setAttr_followAll hset
      rw [hperform]
      exact hstored
  | applyPatch change =>
    rw [perform]
    cases hc : d.content.applied change with
    | error fault =>
      rw [applyPatch_of_error hc]
      rfl
    | ok c =>
      obtain ⟨events, told, -, happ, htold, -⟩ := applyPatch_of_ok hc
      rw [happ]
      exact htold
  | exposeLocation exposed => rfl
  | mergeLocation update =>
    obtain ⟨reply, l, hmerge⟩ := d.mergeLocation_eq update
    rw [perform, hmerge]
    rfl

/-- What an operation can do to the content of a document, and what it tells. -/
inductive Performed (d : Document) : Operation → Prop where
  | told {op : Operation}
    (followed : d.content.followAll (d.perform op).2.2 = .ok (d.perform op).2.1.content) :
    Performed d op
  /-- A model is added without a word. -/
  | added {kind : String} {attributes : Table Json}
    (silent : (d.perform (.addModel kind attributes)).2.2 = [])
    (stored : (d.perform (.addModel kind attributes)).2.1.content
      = { d.content with
          models := d.models.insert (d.newModel kind attributes).id
            (d.newModel kind attributes) }) :
    Performed d (.addModel kind attributes)

/-- **Inversion.** An operation does what it tells, or adds a model without a word. -/
theorem performed (d : Document) (op : Operation) : d.Performed op := by
  cases ht : op.isTold with
  | true => exact .told (d.perform_followAll ht)
  | false =>
    cases op with
    | addModel kind attributes =>
      obtain ⟨silent, stored⟩ := d.perform_addModel kind attributes
      exact .added silent stored
    | _ => cases ht

/-- **Step.** An operation keeps the content sound. -/
theorem perform_sound {d : Document} (h : d.content.Sound) (op : Operation) :
    (d.perform op).2.1.content.Sound := by
  cases d.performed op with
  | told followed => exact h.followAll followed
  | added _ stored =>
    rw [stored]
    exact h.store (d.newModel _ _)

end Document

end DocRelay
