import DocRelay.Proofs.Document.History

namespace DocRelay

/-!
# The order of the roots

The roots of a document stand in the order in which they were added.  Which were added and removed
is read off the events that tell of the operations, without regard to what a document keeps.

* `Event.spared`, `Event.standing` — the ids that events do not remove, and those that they add and
  do not remove later, in the order of the events;
* `Event.standing_append` — the same of events in two parts;
* `Content.followAll_roots` — the roots of a content that has followed events;
* `Call.told`, `Document.Run.roots` — the roots of a document are those that are standing after all
  that was told of its calls.
-/

namespace Event

/-- The event removes a root of this id. -/
def removes (id : String) : Event → Bool
  | .rootRemoved other => other == id
  | _ => false

/-- The ids of which no root is removed. -/
def spared (events : List Event) (ids : List String) : List String :=
  ids.filter fun id => !events.any (removes id)

/-- The ids of the roots that events add and do not remove later, in the order of the events. -/
def standing : List Event → List String
  | [] => []
  | .rootAdded m :: rest => spared rest [m.id] ++ standing rest
  | _ :: rest => standing rest

@[simp] theorem spared_nil (ids : List String) : spared [] ids = ids :=
  List.filter_eq_self.mpr fun _ _ => rfl

theorem spared_append (events : List Event) (ids others : List String) :
    spared events (ids ++ others) = spared events ids ++ spared events others :=
  List.filter_append ..

theorem append_spared (first second : List Event) (ids : List String) :
    spared (first ++ second) ids = spared second (spared first ids) := by
  rw [spared, spared, spared, List.filter_filter]
  refine List.filter_congr fun id _ => ?_
  rw [List.any_append, Bool.not_or, Bool.and_comm]

/-- Only a removal removes ids. -/
theorem spared_singleton {event : Event} (h : ∀ id, event.removes id = false)
    (ids : List String) : spared [event] ids = ids :=
  List.filter_eq_self.mpr fun id _ => by simp [h id]

/-- Later events remove what earlier ones have left standing, and add to it. -/
theorem standing_append (first second : List Event) :
    standing (first ++ second) = spared second (standing first) ++ standing second := by
  induction first with
  | nil => rfl
  | cons event rest ih =>
    cases event with
    | rootAdded m =>
      rw [List.cons_append, standing, standing, append_spared, ih, spared_append,
        List.append_assoc]
    | modelChanged => exact ih
    | rootRemoved => exact ih
    | titleChanged => exact ih

end Event

namespace Content

/-- **One event** adds a root behind the others, removes one, or leaves the roots alone. -/
theorem follow_roots {c after : Content} {event : Event} (h : c.follow event = .ok after) :
    after.roots = Event.spared [event] c.roots ++ Event.standing [event] := by
  cases followed_of_follow h with
  | @pushed m =>
    rw [Event.spared_singleton fun _ => rfl]
    simp [Event.standing, push]
  | @dropped id =>
    refine Eq.trans ?_ (List.append_nil _).symm
    refine List.filter_congr fun other _ => ?_
    simp [Event.removes, Bool.beq_eq_decide_eq, eq_comm]
  | kept | put | titled =>
    rw [Event.spared_singleton fun _ => rfl]
    exact (List.append_nil _).symm

/-- **Events in order.** The roots behind them are those from before that they do not remove, and
    then those that they have left standing. -/
theorem followAll_roots {c after : Content} {events : List Event}
    (h : c.followAll events = .ok after) :
    after.roots = Event.spared events c.roots ++ Event.standing events := by
  induction events generalizing c with
  | nil =>
    obtain rfl := Except.ok.inj h
    simp [Event.standing]
  | cons event rest ih =>
    obtain ⟨mid, hone, hrest⟩ := exists_of_followAll_cons h
    have hsplit : event :: rest = [event] ++ rest := rfl
    rw [ih hrest, follow_roots hone, hsplit, Event.standing_append, Event.append_spared,
      Event.spared_append, List.append_assoc]

end Content

/-- The events that tell of the operation. -/
def Call.told (c : Call) : List Event := (c.before.perform c.op).2.2

/-- A call changes the roots as it is told. -/
theorem Call.roots (c : Call) :
    c.after.roots = Event.spared c.told c.before.roots ++ Event.standing c.told := by
  obtain ⟨before, op⟩ := c
  cases before.performed op with
  | told followed => exact Content.followAll_roots followed
  | added =>
    -- A model that is no root is told by nothing.
    show before.roots = Event.spared [] before.roots ++ []
    rw [Event.spared_nil, List.append_nil]

/-- **Run.** The roots of a document stand in the order in which its calls have added them. -/
theorem Document.Run.roots {calls : List Call} {d : Document} (h : Run calls d) :
    d.roots = Event.standing (calls.flatMap Call.told) := by
  induction h with
  | new id => rfl
  | @perform calls d op h ih =>
    have hcall := Call.roots ⟨d, op⟩
    rw [List.flatMap_append, Event.standing_append, ← ih, List.flatMap_singleton]
    exact hcall
  | relocate l h ih => exact ih

end DocRelay
