import DocRelay.Proofs.Document.Content

namespace DocRelay

/-!
# Changes that are really changes

An event that is followed may leave the content as it was: the attribute has the value already, or
the title is the same.  Such an event is no change, and nobody needs to be told of it.

* `Content.changes` — the event is a change; `Content.changes_iff` — a change is what makes the
  content another one;
* `Content.effects` — the events that are changes when they are followed in order;
* `Content.effects_append` — the changes of events in two parts;
* `Content.followAll_effects` — the changes alone lead to the same content.
-/

namespace Content

/-- The event changes the content, if it can be followed. -/
def changes (c : Content) : Event → Bool
  | .modelChanged id attr value =>
    match c.models.get? id with
    | none => false
    | some m => !Document.holds m attr value
  | .rootAdded _ | .rootRemoved _ => true
  | .titleChanged title => title ≠ c.title

/-- The event, if it is a change. -/
def effect (c : Content) (event : Event) : List Event :=
  if c.changes event then [event] else []

/-- The events that are changes, each of the content that those before it lead to; up to the first
    that is not possible. -/
def effects (c : Content) : List Event → List Event
  | [] => []
  | event :: rest =>
    match c.follow event with
    | .error _ => []
    | .ok after => c.effect event ++ after.effects rest

/-! ### One event -/

/-- An attribute that was set has the new value, as far as values can be told apart. -/
theorem put_ne {c : Content} {id attr : String} {value : Json} {m : Model}
    (hm : c.models.get? id = some m) (hv : value.IsCanonical)
    (other : Document.holds m attr value = false) : c.put id attr value m ≠ c := by
  intro heq
  have hput : (c.put id attr value m).models.get? id
      = some { m with attributes := m.attributes.insert attr value } :=
    (Table.get?_insert ..).trans (if_pos rfl)
  rw [heq, hm] at hput
  have hattrs : m.attributes = m.attributes.insert attr value :=
    congrArg Model.attributes (Option.some.inj hput)
  -- If nothing had been set, the value would have been there before.
  have hthere : m.attributes.get? attr = some value := by
    rw [hattrs]
    exact (Table.get?_insert ..).trans (if_pos rfl)
  simp [Document.holds, hthere, hv.same_self] at other

/-- **A change** is an event that makes the content another one. -/
theorem changes_iff {c after : Content} {event : Event} (he : event.IsTidy)
    (h : c.follow event = .ok after) : c.changes event = true ↔ after ≠ c := by
  -- Only a value that is kept leaves every field as it was.
  cases followed_of_follow h with
  | kept hm same => simp [changes, hm, same]
  | put hm other =>
    have hne := put_ne hm he other
    simp [changes, hm, other, hne]
  | @pushed m =>
    have hne : c.push m ≠ c := fun heq => by
      have hlength := congrArg (fun c : Content => c.roots.length) heq
      simp [push] at hlength
    simp [changes, hne]
  | @dropped id root =>
    have hne : c.drop id ≠ c := fun heq => by
      have hroots : id ∈ (c.drop id).roots := heq.symm ▸ root
      simp [drop] at hroots
    simp [changes, hne]
  | @titled title =>
    have hne : { c with title := title } ≠ c ↔ title ≠ c.title :=
      ⟨fun hne ht => hne (ht ▸ rfl), fun hne heq => hne (congrArg Content.title heq)⟩
    simp [changes, hne]

/-- What is no change leaves the content alone; what is one is followed as it is. -/
theorem followAll_effect {c after : Content} {event : Event} (h : c.follow event = .ok after) :
    c.followAll (c.effect event) = .ok after := by
  have hone : c.followAll [event] = .ok after := by rw [followAll_singleton, h]
  rw [effect]
  cases followed_of_follow h with
  | kept hm same => simp [changes, hm, same]
  | put hm other => rw [if_pos (by simp [changes, hm, other]), hone]
  | pushed => exact hone
  | dropped => exact hone
  | @titled title =>
    by_cases ht : title = c.title
    · rw [if_neg (by simp [changes, ht])]
      subst ht
      rfl
    · rw [if_pos (by simp [changes, ht]), hone]

/-! ### Events in order -/

/-- The changes of one event and of those behind it. -/
theorem effects_cons {c mid : Content} {event : Event} (h : c.follow event = .ok mid)
    (rest : List Event) : c.effects (event :: rest) = c.effect event ++ mid.effects rest := by
  rw [effects, h]

/-- The changes of one event that can be followed. -/
theorem effects_singleton {c after : Content} {event : Event} (h : c.follow event = .ok after) :
    c.effects [event] = c.effect event := by
  rw [effects_cons h, effects, List.append_nil]

/-- **Events in two parts** have the changes of the one part and of the other. -/
theorem effects_append {c mid : Content} {first : List Event} (h : c.followAll first = .ok mid)
    (second : List Event) :
    c.effects (first ++ second) = c.effects first ++ mid.effects second := by
  induction first generalizing c with
  | nil =>
    obtain rfl : c = mid := Except.ok.inj h
    rfl
  | cons event rest ih =>
    obtain ⟨after, hone, hrest⟩ := exists_of_followAll_cons h
    rw [List.cons_append, effects_cons hone, effects_cons hone, ih hrest, List.append_assoc]

/-- **The changes alone** lead to the same content. -/
theorem followAll_effects {c after : Content} {events : List Event}
    (h : c.followAll events = .ok after) : c.followAll (c.effects events) = .ok after := by
  induction events generalizing c with
  | nil => exact h
  | cons event rest ih =>
    obtain ⟨mid, hone, hrest⟩ := exists_of_followAll_cons h
    rw [effects_cons hone, followAll_append (followAll_effect hone)]
    exact ih hrest

/-- A change among events is one where those before it lead to. -/
theorem exists_of_mem_effects {c : Content} {events : List Event} {event : Event}
    (h : event ∈ c.effects events) :
    ∃ before rest mid, events = before ++ event :: rest ∧ c.followAll before = .ok mid ∧
      mid.changes event = true := by
  induction events generalizing c with
  | nil => cases h
  | cons first rest ih =>
    cases hf : c.follow first with
    | error fault => simp [effects, hf] at h
    | ok mid =>
      rw [effects_cons hf] at h
      rcases List.mem_append.mp h with h | h
      · rw [effect] at h
        split at h
        · rename_i hreal
          obtain rfl := List.mem_singleton.mp h
          exact ⟨[], rest, c, rfl, rfl, hreal⟩
        · cases h
      · obtain ⟨before, others, last, rfl, hled, hreal⟩ := ih h
        exact ⟨first :: before, others, last, rfl, (followAll_cons hf before).trans hled, hreal⟩

/-- The changes are among the events. -/
theorem mem_of_mem_effects {c : Content} {events : List Event} {event : Event}
    (h : event ∈ c.effects events) : event ∈ events := by
  obtain ⟨before, rest, mid, rfl, -, -⟩ := exists_of_mem_effects h
  exact List.mem_append_right before List.mem_cons_self

end Content

end DocRelay
