import DocRelay.Proofs.Application.Building
import DocRelay.Proofs.Document.Roots

namespace DocRelay

/-!
# Renderings

A rendering says three times which roots there are, and once which models.  It is written in
several walks over the roots and the models, and they agree because the document keeps its
representation invariant whatever the application does with it.

* `elementId_injective` — different roots are painted at different places;
* `Document.references`, `Document.places` — the models in the order of their ids, and the places of
  the roots; `mem_references`, `pairwise_references`, `get?_places` — what is in them;
* `RenderPayload.Shows`, `RenderPayload.shows_ofDocument` — a rendering that shows a document
  consistently and completely;
* `Engine.execute_shows` — an application that is done is rendered so.
-/

/-- Different roots are painted at different places. -/
theorem elementId_injective {root other : String} (h : elementId root = elementId other) :
    root = other :=
  (String.append_right_inj "el-").mp h

namespace Document

/-- The models in the order in which they are written. -/
def references (d : Document) : List Model := d.models.values

/-- The places at which the roots are painted. -/
def places (d : Document) : Table Json :=
  .ofPairs (d.roots.map fun root => (root, .str (elementId root)))

variable {d : Document}

/-- All models are written. -/
theorem mem_references (ht : d.content.Tidy) (m : Model) :
    m ∈ d.references ↔ ∃ id, d.model? id = some m := by
  unfold references Table.values model?
  rw [List.mem_map]
  constructor
  · rintro ⟨⟨id, found⟩, hmem, rfl⟩
    exact ⟨id, ht.sorted.get?_eq_some_iff.mpr hmem⟩
  · rintro ⟨id, hm⟩
    exact ⟨(id, m), Table.mem_of_get? hm, rfl⟩

/-- The ids of the models that are written are their keys. -/
theorem ids_references (hs : d.content.Sound) : d.references.map Model.id = d.models.keys := by
  unfold references Table.values Table.keys
  rw [List.map_map]
  exact List.map_congr_left hs.keyed

/-- The models are written in strictly increasing order of their ids. -/
theorem pairwise_references (hs : d.content.Sound) (ht : d.content.Tidy) :
    d.references.Pairwise fun one other => one.id < other.id := by
  have hkeys : (d.references.map Model.id).Pairwise (· < ·) := by
    rw [ids_references hs]
    exact ht.sorted
  exact List.pairwise_map.mp hkeys

/-- Exactly the roots have places. -/
theorem get?_places (hs : d.content.Sound) (root : String) :
    d.places.get? root = if root ∈ d.roots then some (.str (elementId root)) else none := by
  have hkeys : (Table.keys (d.roots.map fun root => (root, Json.str (elementId root)))).Nodup := by
    rw [Table.keys, List.map_map]
    exact (List.map_id d.roots).symm ▸ hs.nodup
  rw [places, Table.get?_ofPairs hkeys]
  exact Table.get?_graph (fun root => Json.str (elementId root)) d.roots root

end Document

/-- A rendering that shows a document consistently and completely. -/
structure RenderPayload.Shows (payload : RenderPayload) (d : Document) : Prop where
  rootIds : payload.rootIds = .arr (d.roots.map .str)
  /-- There is one thing to render, which has the same roots. -/
  renderItems : payload.renderItems =
    .arr [.obj [("docid", .str d.id), ("root_ids", payload.rootIds), ("roots", .obj d.places)]]
  /-- There is one document, which has the same id and the same roots. -/
  docsJson : payload.docsJson =
    .obj [(d.id, .obj [
      ("roots", .obj [("references", .arr (d.references.map Model.toJson)),
        ("root_ids", payload.rootIds)]),
      ("title", .str d.title)])]
  /-- No root is told twice. -/
  nodup : d.roots.Nodup
  /-- All models are told, and nothing else. -/
  listed : ∀ m, m ∈ d.references ↔ ∃ id, d.model? id = some m
  /-- No model is told twice, as their ids increase. -/
  ordered : d.references.Pairwise fun one other => one.id < other.id
  /-- Every root is among the models. -/
  rooted : ∀ root ∈ d.roots, ∃ m ∈ d.references, m.id = root
  /-- Exactly the roots have places. -/
  placed : ∀ root,
    d.places.get? root = if root ∈ d.roots then some (.str (elementId root)) else none
  /-- No two roots have the same place. -/
  apart : ∀ root ∈ d.roots, ∀ other ∈ d.roots, d.places.get? root = d.places.get? other →
    root = other
  /-- The title, the roots and the models can be read off. -/
  recovered : Content.ofPayload? payload = some d.content

/-- **A document whose content is sound and tidy** is shown by its rendering. -/
theorem RenderPayload.shows_ofDocument {d : Document} (hs : d.content.Sound)
    (ht : d.content.Tidy) : (RenderPayload.ofDocument d).Shows d where
  rootIds := rfl
  renderItems := rfl
  docsJson := rfl
  nodup := hs.nodup
  listed := Document.mem_references ht
  ordered := Document.pairwise_references hs ht
  rooted := by
    intro root hroot
    have hkey := hs.rooted root hroot
    rw [← List.mem_map, Document.ids_references hs]
    exact hkey
  placed := Document.get?_places hs
  apart := by
    intro root hroot other hother heq
    rw [Document.get?_places hs, Document.get?_places hs, if_pos hroot, if_pos hother] at heq
    exact elementId_injective (Json.str.inj (Option.some.inj heq))
  recovered := Content.ofPayload?_ofDocument hs ht

namespace Engine

variable {e after : Engine} {app : ApplicationDescriptor} {s around : Surroundings}
  {payload : RenderPayload}

/-- An application is run only once. -/
theorem document_of_execute (h : e.execute app s = (.ok payload, after, around)) :
    e.document = none := by
  cases hd : e.document with
  | none => rfl
  | some live =>
    unfold execute select at h
    rw [hd, Option.isSome_some, if_pos rfl] at h
    cases h

/-- An application that is done leaves a document that comes about from an empty one, and the
    rendering is that of this document. -/
theorem exists_of_execute (h : e.execute app s = (.ok payload, after, around)) :
    ∃ live, after.document = some live ∧ payload = .ofDocument live.document ∧
      live.Reachable := by
  rcases execute_building (document_of_execute h) app s with
    ⟨fault, last, -, heq, -⟩ | ⟨live, last, hbuilding, heq, -⟩
  · rw [h] at heq
    cases heq
  · rw [h] at heq
    obtain ⟨hpayload, hafter, -⟩ := by simpa using heq
    subst hpayload hafter
    refine ⟨live, rfl, rfl, ?_⟩
    cases hbuilding with
    | @done found _ _ _ built =>
      have hreachable := (found.built_reachable ⟨app, e.environment⟩ (s.documents + 1)).1
      rw [built] at hreachable
      exact hreachable

/-- **Rendering.** Whatever an application does, if it is done, its rendering shows the document
    that it leaves: three times the same roots, each once and in the order in which they were
    added, each with a place of its own, and all models in the order of their ids. -/
theorem execute_shows (h : e.execute app s = (.ok payload, after, around)) :
    ∃ live, after.document = some live ∧ payload.Shows live.document ∧
      ∃ calls, LiveDocument.Recorded calls live ∧
        live.document.roots = Event.standing (calls.flatMap Call.told) := by
  obtain ⟨live, hdoc, rfl, hreachable⟩ := exists_of_execute h
  have hobservable : live.Observable := .atRest hreachable
  obtain ⟨calls, hcalls⟩ := LiveDocument.reachable_iff.mp hreachable
  exact ⟨live, hdoc, RenderPayload.shows_ofDocument hobservable.sound hobservable.tidy, calls,
    hcalls, hcalls.run.roots⟩

end Engine

/-! ### A gallery -/

/-- The host's way of adding a root with an id that comes before all others. -/
def Patch.hanging : Json :=
  toJson [.rootAdded ⟨"a", "Frame", []⟩]

/-- An application that hangs up three pictures, takes one down, has something in store, and puts
    a frame beside the pictures. -/
def Application.gallery : Application :=
  ⟨fun _ =>
    .perform (.setTitle "Gallery" .runtime) fun _ =>
    .perform (.addRoot "Picture" [] .runtime) fun _ =>
    .perform (.addRoot "Picture" [] .runtime) fun _ =>
    .perform (.addRoot "Picture" [("of", .str "m1")] .runtime) fun _ =>
    .perform (.removeRoot "m2" .runtime) fun _ =>
    .perform (.addModel "Lamp" []) fun _ =>
    .perform (.applyPatch Patch.hanging .runtime) fun _ => .finish .done .null⟩

/-- An engine that can open the gallery. -/
def Engine.gallery : Engine :=
  ⟨(MemorySource.ofPairs []).toSource, .ofPairs [("gallery", .gallery)], .empty, none, ⟨0⟩⟩

/-- The opening of the gallery. -/
def Engine.opening : Except Fault RenderPayload × Engine × Surroundings :=
  Engine.gallery.execute ⟨"gallery", [], false, []⟩ .empty

/-- The gallery is shown: the roots in the order of their additions, the models in that of their
    ids. -/
theorem Engine.execute_shows_gallery :
    ∃ payload live, opening.1 = .ok payload ∧ opening.2.1.document = some live ∧
      live.document.roots = ["m1", "m3", "a"] ∧
      live.document.references.map Model.id = ["a", "m1", "m3", "m4"] ∧
      payload.Shows live.document ∧
      ∃ calls, LiveDocument.Recorded calls live ∧
        live.document.roots = Event.standing (calls.flatMap Call.told) := by
  have hopen : opening.1.toOption.isSome = true := by decide +kernel
  have hroots : opening.2.1.document.map (fun live => live.document.roots)
      = some ["m1", "m3", "a"] := by decide +kernel
  have hmodels : opening.2.1.document.map (fun live => live.document.references.map Model.id)
      = some ["a", "m1", "m3", "m4"] := by decide +kernel
  cases hreply : opening.1 with
  | error fault =>
    rw [hreply] at hopen
    cases hopen
  | ok payload =>
    have hexecute : Engine.gallery.execute ⟨"gallery", [], false, []⟩ .empty
        = (.ok payload, opening.2.1, opening.2.2) := Prod.ext hreply rfl
    obtain ⟨live, hdoc, hshows, hcalls⟩ := execute_shows hexecute
    rw [hdoc] at hroots hmodels
    exact ⟨payload, live, rfl, hdoc, Option.some.inj hroots, Option.some.inj hmodels, hshows,
      hcalls⟩

end DocRelay
