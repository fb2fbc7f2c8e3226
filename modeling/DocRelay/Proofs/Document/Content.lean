import DocRelay.Document.Basic
import DocRelay.Proofs.Json.Canonical

namespace DocRelay

/-!
# The content of a document

What a host shows of a document is its content: the title, the roots in their order, and the
models.  Events tell of changes of the content, one at a time.

* `Content`, `Document.content` — the content;
* `Content.follow`, `Content.followAll` — the content after an event, and after several in order;
  the sequential meaning of a patch;
* `Content.Sound` — the representation invariant: roots without duplicates, all of them models,
  and every model under its own id; `Content.Sound.followAll` — events keep it;
* `Content.Tidy` — tables in key order with values in canonical form; `Content.Tidy.followAll`.
-/

/-- What a host shows of a document. -/
structure Content where
  title : String
  roots : List String
  models : Table Model

/-- The content of a document. -/
def Document.content (d : Document) : Content := ⟨d.title, d.roots, d.models⟩

namespace Content

/-! ### Events -/

/-- The content without a root and its model. -/
def drop (c : Content) (id : String) : Content :=
  { c with roots := c.roots.filter (· ≠ id), models := c.models.erase id }

/-- The content with one more root. -/
def push (c : Content) (m : Model) : Content :=
  { c with roots := c.roots ++ [m.id], models := c.models.insert m.id m }

/-- The content with an attribute of a model set. -/
def put (c : Content) (id attr : String) (value : Json) (m : Model) : Content :=
  { c with models := c.models.insert id { m with attributes := m.attributes.insert attr value } }

/-- The content after an event: a model must be there to be changed, must not be there to be
    added, and must be a root to be removed. -/
def follow (c : Content) : Event → Except PatchFault Content
  | .modelChanged id attr value =>
    match c.models.get? id with
    | none => .error (.unknownModel id)
    -- A value that is there already is not put again, so that its form stays.
    | some m => .ok (if Document.holds m attr value then c else c.put id attr value m)
  | .rootAdded m => if c.models.contains m.id then .error (.modelExists m.id) else .ok (c.push m)
  | .rootRemoved id => if c.roots.contains id then .ok (c.drop id) else .error (.unknownRoot id)
  | .titleChanged title => .ok { c with title := title }

/-- The content after events in order, up to the first that is not possible. -/
def followAll (c : Content) : List Event → Except PatchFault Content
  | [] => .ok c
  | event :: rest =>
    match c.follow event with
    | .error fault => .error fault
    | .ok after => after.followAll rest

@[simp] theorem followAll_nil (c : Content) : c.followAll [] = .ok c := rfl

@[simp] theorem followAll_singleton (c : Content) (event : Event) :
    c.followAll [event] = c.follow event := by
  rw [followAll]
  cases c.follow event <;> rfl

/-- The other events are followed where the first one leads to. -/
theorem followAll_cons {c mid : Content} {event : Event} (h : c.follow event = .ok mid)
    (rest : List Event) : c.followAll (event :: rest) = mid.followAll rest := by
  rw [followAll, h]

/-- Events that can be followed can be followed one by one. -/
theorem exists_of_followAll_cons {c after : Content} {event : Event} {rest : List Event}
    (h : c.followAll (event :: rest) = .ok after) :
    ∃ mid, c.follow event = .ok mid ∧ mid.followAll rest = .ok after := by
  rw [followAll] at h
  cases hf : c.follow event with
  | error fault => simp [hf] at h
  | ok mid =>
    rw [hf] at h
    exact ⟨mid, rfl, h⟩

/-- **Events in two parts** are followed part by part. -/
theorem followAll_append {c mid : Content} {first : List Event} (h : c.followAll first = .ok mid)
    (second : List Event) : c.followAll (first ++ second) = mid.followAll second := by
  induction first generalizing c with
  | nil =>
    obtain rfl : c = mid := Except.ok.inj h
    rfl
  | cons event rest ih =>
    obtain ⟨after, hone, hrest⟩ := exists_of_followAll_cons h
    rw [List.cons_append, followAll_cons hone]
    exact ih hrest

/-- Events in two parts that can be followed can be followed part by part. -/
theorem exists_of_followAll_append {c after : Content} {first second : List Event}
    (h : c.followAll (first ++ second) = .ok after) :
    ∃ mid, c.followAll first = .ok mid ∧ mid.followAll second = .ok after := by
  induction first generalizing c with
  | nil => exact ⟨c, rfl, h⟩
  | cons event rest ih =>
    obtain ⟨next, hone, hrest⟩ := exists_of_followAll_cons h
    rw [followAll_cons hone]
    exact ih hrest

/-- **Run.** What each of the events keeps, all of them together keep. -/
theorem followAll_induction {P : Content → Prop} {events : List Event} {c after : Content}
    (step : ∀ event ∈ events, ∀ before next : Content, P before →
      before.follow event = .ok next → P next)
    (h : P c) (hf : c.followAll events = .ok after) : P after := by
  induction events generalizing c with
  | nil =>
    obtain rfl := Except.ok.inj hf
    exact h
  | cons event rest ih =>
    obtain ⟨mid, hone, hrest⟩ := exists_of_followAll_cons hf
    exact ih (fun e he => step e (List.mem_cons_of_mem _ he))
      (step event List.mem_cons_self c mid h hone) hrest

/-- What an event can do to a content. -/
inductive Followed (c : Content) : Event → Content → Prop where
  /-- The attribute has the value already. -/
  | kept {id attr : String} {value : Json} {m : Model} (found : c.models.get? id = some m)
    (same : Document.holds m attr value = true) : Followed c (.modelChanged id attr value) c
  | put {id attr : String} {value : Json} {m : Model} (found : c.models.get? id = some m)
    (other : Document.holds m attr value = false) :
    Followed c (.modelChanged id attr value) (c.put id attr value m)
  | pushed {m : Model} (fresh : m.id ∉ c.models.keys) : Followed c (.rootAdded m) (c.push m)
  | dropped {id : String} (root : id ∈ c.roots) : Followed c (.rootRemoved id) (c.drop id)
  | titled {title : String} : Followed c (.titleChanged title) { c with title := title }

/-- **Inversion.** An event that is followed does one of these things. -/
theorem followed_of_follow {c after : Content} {event : Event} (h : c.follow event = .ok after) :
    c.Followed event after := by
  -- The guard that an event has passed is what its case here says of the content.
  cases event with
  | modelChanged id attr value =>
    rw [follow] at h
    split at h
    · cases h
    · rename_i m hm
      obtain rfl := Except.ok.inj h
      cases hh : Document.holds m attr value with
      | true => exact .kept hm hh
      | false => exact .put hm hh
  | rootAdded m =>
    rw [follow] at h
    split at h
    · cases h
    · rename_i hm
      obtain rfl := Except.ok.inj h
      exact .pushed fun hk => hm (Table.contains_iff_mem_keys.mpr hk)
  | rootRemoved id =>
    rw [follow] at h
    split at h
    · rename_i hid
      obtain rfl := Except.ok.inj h
      exact .dropped (List.contains_iff_mem.mp hid)
    · cases h
  | titleChanged title =>
    obtain rfl := Except.ok.inj h
    exact .titled

/-! ### The representation invariant -/

/-- The representation invariant. -/
structure Sound (c : Content) : Prop where
  /-- No root is listed twice. -/
  nodup : c.roots.Nodup
  /-- Every root is a model. -/
  rooted : ∀ id ∈ c.roots, id ∈ c.models.keys
  /-- Every model is stored under its own id. -/
  keyed : ∀ pair ∈ c.models, pair.2.id = pair.1

/-- A model that is found has the id that it is found under. -/
theorem Sound.id_of_get? {c : Content} (h : c.Sound) {id : String} {m : Model}
    (hm : c.models.get? id = some m) : m.id = id :=
  h.keyed _ (Table.mem_of_get? hm)

/-- A new model that is no root keeps the content sound. -/
theorem Sound.store {c : Content} (h : c.Sound) (m : Model) :
    Sound { c with models := c.models.insert m.id m } := by
  refine ⟨h.nodup, fun id hid => ?_, fun pair hp => ?_⟩
  · exact Table.mem_keys_insert.mpr (.inr (h.rooted id hid))
  · rcases Table.mem_insert hp with rfl | hp
    · rfl
    · exact h.keyed pair hp

/-- A new root keeps the content sound, if there is no model of its id. -/
theorem Sound.push {c : Content} (h : c.Sound) {m : Model} (hm : m.id ∉ c.models.keys) :
    (c.push m).Sound := by
  -- A root of that id would be a model of that id.
  have hroots : m.id ∉ c.roots := fun hid => hm (h.rooted _ hid)
  have hstored := h.store m
  refine ⟨?_, fun id hid => ?_, hstored.keyed⟩
  · refine List.nodup_append.mpr ⟨h.nodup, by simp, fun a ha b hb => ?_⟩
    obtain rfl := List.mem_singleton.mp hb
    exact fun he => hroots (he ▸ ha)
  · rcases List.mem_append.mp hid with hid | hid
    · exact hstored.rooted id hid
    · exact Table.mem_keys_insert.mpr (.inl (List.mem_singleton.mp hid))

/-- Removing a root keeps the content sound. -/
theorem Sound.drop {c : Content} (h : c.Sound) (id : String) : (c.drop id).Sound := by
  refine ⟨h.nodup.filter _, fun other hid => ?_, fun pair hp => ?_⟩
  · obtain ⟨hmem, hne⟩ := List.mem_filter.mp hid
    exact Table.mem_keys_erase.mpr ⟨by simpa using hne, h.rooted other hmem⟩
  · exact h.keyed pair (Table.mem_of_mem_erase hp)

/-- Setting an attribute keeps the content sound. -/
theorem Sound.put {c : Content} (h : c.Sound) {id : String} {m : Model}
    (hm : c.models.get? id = some m) (attr : String) (value : Json) :
    (c.put id attr value m).Sound := by
  refine ⟨h.nodup, fun other hid => ?_, fun pair hp => ?_⟩
  · exact Table.mem_keys_insert.mpr (.inr (h.rooted other hid))
  · rcases Table.mem_insert hp with rfl | hp
    · show m.id = id
      exact h.id_of_get? hm
    · exact h.keyed pair hp

/-- **Step.** An event keeps the content sound. -/
theorem Sound.follow {c after : Content} (h : c.Sound) {event : Event}
    (hf : c.follow event = .ok after) : after.Sound := by
  cases followed_of_follow hf with
  | kept => exact h
  | put hm => exact h.put hm _ _
  | pushed hm => exact h.push hm
  | dropped => exact h.drop _
  | titled => exact ⟨h.nodup, h.rooted, h.keyed⟩

/-- **Run.** Events in order keep the content sound. -/
theorem Sound.followAll {c after : Content} (h : c.Sound) {events : List Event}
    (hf : c.followAll events = .ok after) : after.Sound :=
  followAll_induction (fun _ _ _ _ hc hf => hc.follow hf) h hf

/-! ### Tables in order -/

/-- The tables are in key order, and the values in canonical form. -/
structure Tidy (c : Content) : Prop where
  sorted : c.models.Sorted
  attributes : ∀ pair ∈ c.models, Json.IsCanonicalTable pair.2.attributes

end Content

/-- The values in the event are in canonical form. -/
def Event.IsTidy : Event → Prop
  | .modelChanged _ _ value => value.IsCanonical
  | .rootAdded m => Json.IsCanonicalTable m.attributes
  | .rootRemoved _ | .titleChanged _ => True

namespace Content

/-- A model in canonical form keeps the tables tidy. -/
theorem Tidy.store {c : Content} (h : c.Tidy) (key : String) {m : Model}
    (hm : Json.IsCanonicalTable m.attributes) :
    Tidy { c with models := c.models.insert key m } := by
  refine ⟨h.sorted.insert key m, fun pair hp => ?_⟩
  rcases Table.mem_insert hp with rfl | hp
  · exact hm
  · exact h.attributes pair hp

/-- **Step.** An event in canonical form keeps the tables tidy. -/
theorem Tidy.follow {c after : Content} (h : c.Tidy) {event : Event} (he : event.IsTidy)
    (hf : c.follow event = .ok after) : after.Tidy := by
  cases followed_of_follow hf with
  | kept => exact h
  | @put id attr value m hm =>
    have hattrs := h.attributes _ (Table.mem_of_get? hm)
    exact h.store id (m := { m with attributes := m.attributes.insert attr value })
      (hattrs.insert attr he)
  | @pushed m => exact ⟨(h.store m.id he).sorted, (h.store m.id he).attributes⟩
  | @dropped id =>
    exact ⟨h.sorted.erase id, fun pair hp => h.attributes pair (Table.mem_of_mem_erase hp)⟩
  | titled => exact ⟨h.sorted, h.attributes⟩

/-- **Run.** Events in canonical form keep the tables tidy. -/
theorem Tidy.followAll {c after : Content} (h : c.Tidy) {events : List Event}
    (he : ∀ event ∈ events, event.IsTidy) (hf : c.followAll events = .ok after) :
    after.Tidy :=
  followAll_induction (fun event hmem _ _ hc hf => hc.follow (he event hmem) hf) h hf

end Content

end DocRelay
