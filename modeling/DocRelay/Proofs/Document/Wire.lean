import DocRelay.Engine
import DocRelay.Proofs.Document.Replay
import DocRelay.Proofs.Json.Decode

namespace DocRelay

/-!
# Documents and patches on the wire

What a worker sends of a document can be read back by the host as it was.

* `Event.decode_toJson`, `Patch.decode_toJson` — events and patches in canonical form are read back;
* `Patch.isCanonical_toJson` — what is written of a patch is in canonical form;
* `Patch.isTidy_of_decode` — a patch that is read holds values in canonical form;
* `Document.perform_tidy` — operations keep documents in canonical form, and tell of it so;
* `Content.ofPayload?`, `Content.ofPayload?_ofDocument` — the content that a host reads off the
  rendering is that of the document.
-/

/-! ### Events -/

namespace Event

/-- A reference to a buffer is in canonical form. -/
theorem isCanonical_bufferReference (id : String) : (bufferReference id).IsCanonical := rfl

/-- **Round trip of an event.** -/
theorem decode_toJson {event : Event} (h : event.IsTidy) : decode event.toJson = .ok event := by
  cases event with
  | modelChanged id attr value =>
    have hvalue : value.canonical = value := h
    show Except.ok (modelChanged id attr value.canonical) = _
    rw [hvalue]
  | rootAdded m =>
    show Except.ok (rootAdded ⟨m.id, m.kind, Json.canonicalTable m.attributes⟩) = _
    rw [Json.canonicalTable_eq_self h]
  | rootRemoved id => rfl
  | titleChanged title => rfl

/-- What is written of an event in canonical form is in canonical form. -/
theorem isCanonical_toJson {event : Event} (h : event.IsTidy) : event.toJson.IsCanonical := by
  -- The members of every object are written in key order.
  cases event with
  | modelChanged id attr value =>
    have hkeys : ["attr", "kind", "model", "new"].Pairwise (· < ·) := by decide
    refine Json.isCanonical_obj ⟨hkeys, ?_⟩
    simp only [List.forall_mem_cons]
    exact ⟨rfl, rfl, rfl, h, List.forall_mem_nil _⟩
  | rootAdded m =>
    have hmodel : m.toJson.IsCanonical := by
      have hkeys : ["attributes", "id", "type"].Pairwise (· < ·) := by decide
      refine Json.isCanonical_obj ⟨hkeys, ?_⟩
      simp only [List.forall_mem_cons]
      exact ⟨Json.isCanonical_obj h, rfl, rfl, List.forall_mem_nil _⟩
    have hkeys : ["kind", "model"].Pairwise (· < ·) := by decide
    refine Json.isCanonical_obj ⟨hkeys, ?_⟩
    simp only [List.forall_mem_cons]
    exact ⟨rfl, hmodel, List.forall_mem_nil _⟩
  | rootRemoved id =>
    have hkeys : ["kind", "model"].Pairwise (· < ·) := by decide
    refine Json.isCanonical_obj ⟨hkeys, ?_⟩
    simp only [List.forall_mem_cons]
    exact ⟨rfl, rfl, List.forall_mem_nil _⟩
  | titleChanged title =>
    have hkeys : ["kind", "title"].Pairwise (· < ·) := by decide
    refine Json.isCanonical_obj ⟨hkeys, ?_⟩
    simp only [List.forall_mem_cons]
    exact ⟨rfl, rfl, List.forall_mem_nil _⟩

end Event

/-- The attributes of a model that is read are in canonical form. -/
theorem Model.isCanonicalTable_of_decode {j : Json} {m : Model} (h : Model.decode j = .ok m) :
    Json.IsCanonicalTable m.attributes := by
  obtain ⟨slots, -, h⟩ := Json.Shape.exists_of_decode h
  obtain ⟨id, -, h⟩ := exists_of_bind_ok h
  obtain ⟨kind, -, h⟩ := exists_of_bind_ok h
  obtain ⟨attributes, hattrs, h⟩ := exists_of_bind_ok h
  obtain rfl := Except.ok.inj h
  rcases Json.Slots.exists_of_optional hattrs with ⟨-, rfl⟩ | ⟨j, -, hj⟩
  · exact ⟨List.Pairwise.nil, by simp⟩
  · cases j with
    | obj members =>
      obtain rfl := Except.ok.inj hj
      exact Json.isCanonicalTable_canonicalTable members
    | _ => cases hj

namespace Event

/-- The values of an event that is built from its members are in canonical form. -/
theorem isTidy_of_build {kind : String} {j : Json} {event : Event}
    (h : build kind j = .ok event) : event.IsTidy := by
  unfold build at h
  -- The four kinds of events; any other kind is refused.
  split at h
  · obtain ⟨slots, -, h⟩ := Json.Shape.exists_of_decode h
    obtain ⟨id, -, h⟩ := exists_of_bind_ok h
    obtain ⟨attr, -, h⟩ := exists_of_bind_ok h
    obtain ⟨value, hvalue, h⟩ := exists_of_bind_ok h
    obtain rfl := Except.ok.inj h
    obtain ⟨new, -, hnew⟩ := Json.Slots.exists_of_required hvalue
    obtain rfl := Except.ok.inj hnew
    exact Json.isCanonical_canonical new
  · obtain ⟨slots, -, h⟩ := Json.Shape.exists_of_decode h
    obtain ⟨m, hm, h⟩ := exists_of_bind_ok h
    obtain rfl := Except.ok.inj h
    obtain ⟨new, -, hnew⟩ := Json.Slots.exists_of_required hm
    exact Model.isCanonicalTable_of_decode hnew
  · obtain ⟨slots, -, h⟩ := Json.Shape.exists_of_decode h
    obtain ⟨id, -, h⟩ := exists_of_bind_ok h
    obtain rfl := Except.ok.inj h
    trivial
  · obtain ⟨slots, -, h⟩ := Json.Shape.exists_of_decode h
    obtain ⟨title, -, h⟩ := exists_of_bind_ok h
    obtain rfl := Except.ok.inj h
    trivial

/-- The values of an event that is read are in canonical form. -/
theorem isTidy_of_decode {j : Json} {event : Event} (h : decode j = .ok event) :
    event.IsTidy := by
  obtain ⟨⟨kind, content⟩, -, h⟩ := exists_of_bind_ok h
  exact isTidy_of_build h

end Event

/-! ### Patches -/

namespace Patch

/-- **Round trip of a patch.** -/
theorem decode_toJson {events : List Event} (h : ∀ event ∈ events, event.IsTidy) :
    decode (toJson events) = .ok events := by
  have hitems : Json.asList Event.decode (.arr (events.map Event.toJson)) = .ok events :=
    Json.eachItem_map fun event he => Event.decode_toJson (h event he)
  exact Json.Shape.decode_single hitems

/-- What is written of a patch in canonical form is in canonical form. -/
theorem isCanonical_toJson {events : List Event} (h : ∀ event ∈ events, event.IsTidy) :
    (toJson events).IsCanonical := by
  have hitems : ∀ item ∈ events.map Event.toJson, item.IsCanonical := by
    intro item hitem
    obtain ⟨event, he, rfl⟩ := List.mem_map.mp hitem
    exact Event.isCanonical_toJson (h event he)
  refine Json.isCanonical_obj ⟨List.pairwise_singleton _ _, fun pair hp => ?_⟩
  obtain rfl := List.mem_singleton.mp hp
  exact congrArg Json.arr (Json.canonicalItems_eq_self hitems)

/-- The values of a patch that is read are in canonical form. -/
theorem isTidy_of_decode {j : Json} {events : List Event} (h : decode j = .ok events) :
    ∀ event ∈ events, event.IsTidy := by
  intro event he
  obtain ⟨slots, -, h⟩ := Json.Shape.exists_of_decode h
  rcases Json.Slots.exists_of_optional h with ⟨-, rfl⟩ | ⟨list, -, hlist⟩
  · cases he
  · cases list with
    | arr items =>
      obtain ⟨item, hitem⟩ := Json.exists_of_mem_eachItem hlist he
      exact Event.isTidy_of_decode hitem
    | _ => cases hlist

end Patch

/-! ### Operations -/

namespace Document

/-- Setting an attribute is told by one event, or by nothing if there was nothing to change. -/
theorem setAttr_told {d after : Document} {id attr : String} {value : Json} {told : List Event}
    (h : d.setAttr id attr value = .ok (after, told)) :
    told = [] ∨ told = [.modelChanged id attr value] := by
  obtain ⟨m, -, ⟨-, -, rfl⟩ | ⟨-, -, rfl⟩⟩ := setAttr_cases h
  · exact .inl rfl
  · exact .inr rfl

/-- What is told of an attribute that is set has its value in canonical form. -/
theorem isTidy_of_setAttr {d after : Document} {id attr : String} {value : Json}
    {told : List Event} (hv : value.IsCanonical) (h : d.setAttr id attr value = .ok (after, told)) :
    ∀ event ∈ told, event.IsTidy := by
  intro event he
  rcases setAttr_told h with rfl | rfl
  · cases he
  · obtain rfl := List.mem_singleton.mp he
    exact hv

/-- An operation is told with values in canonical form. -/
theorem perform_told_isTidy (d : Document) (op : Operation) :
    ∀ event ∈ (d.perform op).2.2, event.IsTidy := by
  intro event he
  cases op with
  | setTitle title =>
    by_cases ht : title = d.title
    · simp [perform, setTitle, ht] at he
    · simp only [perform, setTitle, if_neg ht, List.mem_singleton] at he
      subst he
      trivial
  | addModel => cases he
  | addRoot kind attributes =>
    obtain rfl := List.mem_singleton.mp he
    exact Json.isCanonicalTable_canonicalTable attributes
  | removeRoot id =>
    -- An id is no value.
    rw [perform, removeRoot] at he
    split at he
    · rename_i after told h
      split at h
      · cases h
        obtain rfl := List.mem_singleton.mp he
        trivial
      · cases h
    · cases he
  | setAttr id attr value =>
    rw [perform] at he
    cases h : d.setAttr id attr value.canonical with
    | error fault =>
      rw [h] at he
      cases he
    | ok result =>
      rw [h] at he
      exact isTidy_of_setAttr (Json.isCanonical_canonical value) h event he
  | setBinary id attr data =>
    rcases d.perform_setBinary id attr data _ with hrest | ⟨after, told, hset, hperform⟩
    · rw [hrest] at he
      cases he
    · rw [hperform] at he
      exact isTidy_of_setAttr (Event.isCanonical_bufferReference _) hset event he
  | applyPatch change =>
    rw [perform] at he
    cases hc : d.content.applied change with
    | error fault =>
      rw [applyPatch_of_error hc] at he
      cases he
    | ok c =>
      obtain ⟨events, told, hj, happ, -, hmem⟩ := applyPatch_of_ok hc
      rw [happ] at he
      exact Patch.isTidy_of_decode hj event (hmem event he)
  | exposeLocation exposed => cases he
  | mergeLocation update =>
    rw [perform] at he
    cases he

/-- **Step.** An operation keeps the content tidy. -/
theorem perform_tidy {d : Document} (h : d.content.Tidy) (op : Operation) :
    (d.perform op).2.1.content.Tidy := by
  cases d.performed op with
  | told followed => exact h.followAll (d.perform_told_isTidy op) followed
  | @added kind attributes _ stored =>
    rw [stored]
    exact h.store (m := d.newModel kind attributes) _
      (Json.isCanonicalTable_canonicalTable attributes)

end Document

/-! ### The rendering -/

namespace Content

/-- The content that the value of a document shows. -/
def ofJson? (j : Json) : Option Content := do
  let title ← (← j.member? "title").text?
  let roots ← j.member? "roots"
  let ids ← (Json.asList Json.asText (← roots.member? "root_ids")).toOption
  let models ← (Json.asList Model.decode (← roots.member? "references")).toOption
  return ⟨title, ids, Table.ofPairs (models.map fun m => (m.id, m))⟩

/-- The content of the only document of a rendering. -/
def ofPayload? (payload : RenderPayload) : Option Content :=
  match payload.docsJson with
  | .obj [(_, document)] => ofJson? document
  | _ => none

/-- A sound table of models is the table of its models by their ids. -/
theorem ofPairs_values {c : Content} (hs : c.Sound) (ht : c.Tidy) :
    Table.ofPairs (c.models.values.map fun m : Model => (m.id, m)) = c.models := by
  have hpairs : c.models.values.map (fun m : Model => (m.id, m)) = c.models := by
    rw [Table.values, List.map_map]
    conv_rhs => rw [← List.map_id c.models]
    refine List.map_congr_left fun pair hp => ?_
    show (pair.2.id, pair.2) = pair
    rw [hs.keyed pair hp]
  rw [hpairs, Table.ofPairs_eq_self ht.sorted]

/-- **The rendering shows the content.** -/
theorem ofPayload?_ofDocument {d : Document} (hs : d.content.Sound) (ht : d.content.Tidy) :
    ofPayload? (.ofDocument d) = some d.content := by
  have hids : Json.asList Json.asText (.arr (d.roots.map .str)) = .ok d.roots :=
    Json.eachItem_map fun _ _ => rfl
  have hmodels : Json.asList Model.decode (.arr (d.models.values.map Model.toJson))
      = .ok d.models.values := by
    refine Json.eachItem_map fun m hm => ?_
    obtain ⟨pair, hp, rfl⟩ := List.mem_map.mp hm
    show Except.ok (⟨pair.2.id, pair.2.kind, Json.canonicalTable pair.2.attributes⟩ : Model) = _
    rw [Json.canonicalTable_eq_self (ht.attributes pair hp)]
  -- What the host reads, member by member.
  show (do
    let ids ← (Json.asList Json.asText (.arr (d.roots.map .str))).toOption
    let models ← (Json.asList Model.decode (.arr (d.models.values.map Model.toJson))).toOption
    return (⟨d.title, ids, Table.ofPairs (models.map fun m : Model => (m.id, m))⟩ : Content)) = _
  rw [hids, hmodels]
  exact congrArg (fun models => some (⟨d.title, d.roots, models⟩ : Content))
    (ofPairs_values hs ht)

end Content

end DocRelay
