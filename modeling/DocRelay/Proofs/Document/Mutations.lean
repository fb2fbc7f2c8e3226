import DocRelay.Proofs.Document.Replay

namespace DocRelay.Document

/-!
# The mutations of an operation

Which changes an operation makes can be said without performing it: it asks for events, and makes
those of them that are really changes, or nothing if one of them is not possible.

* `asked` — the events that an operation asks for;
* `mutations` — the changes that it makes;
* `perform_mutations` — these are what it tells.
-/

/-- The events that an operation asks for. -/
def asked (d : Document) : Operation → List Event
  | .setTitle title _ => [.titleChanged title]
  | .addRoot kind attributes _ => [.rootAdded (d.newModel kind attributes)]
  | .removeRoot id _ => [.rootRemoved id]
  | .setAttr id attr value _ => [.modelChanged id attr value.canonical]
  | .setBinary id attr _ _ => [.modelChanged id attr (Event.bufferReference (bufferId d.nextId))]
  | .applyPatch change _ =>
    match Patch.decode change with
    | .ok events => events
    | .error _ => []
  | .addModel _ _ | .exposeLocation _ | .mergeLocation _ => []

/-- The changes of the title, the roots and the attributes that an operation makes. -/
def mutations (d : Document) (op : Operation) : List Event :=
  match d.content.followAll (d.asked op) with
  | .ok _ => d.content.effects (d.asked op)
  | .error _ => []

/-- An operation whose events can be followed makes those that are changes. -/
theorem mutations_of_ok {d : Document} {op : Operation} {c : Content}
    (h : d.content.followAll (d.asked op) = .ok c) :
    d.mutations op = d.content.effects (d.asked op) := by
  rw [mutations, h]

/-- An operation that asks for what is not possible changes nothing. -/
theorem mutations_of_error {d : Document} {op : Operation} {fault : PatchFault}
    (h : d.content.followAll (d.asked op) = .error fault) : d.mutations op = [] := by
  rw [mutations, h]

/-- A patch that can be followed makes those of its events that are changes. -/
theorem mutations_applyPatch {d : Document} {change : Json} {events : List Event} {c : Content}
    (hj : Patch.decode change = .ok events) (h : d.content.followAll events = .ok c)
    (origin : Origin) : d.mutations (.applyPatch change origin) = d.content.effects events := by
  have hasked : d.asked (.applyPatch change origin) = events := by rw [asked, hj]
  rw [mutations_of_ok (c := c) (by rw [hasked, h]), hasked]

/-- An operation that asks for one event makes it if it is possible and a change. -/
theorem mutations_single {d : Document} {op : Operation} (event : Event)
    (h : d.asked op = [event]) :
    d.mutations op =
      match d.content.follow event with
      | .ok _ => d.content.effect event
      | .error _ => [] := by
  cases hf : d.content.follow event with
  | ok c => rw [mutations_of_ok (c := c) (by rw [h, Content.followAll_singleton, hf]), h,
      Content.effects_singleton hf]
  | error fault =>
    have herror : d.content.followAll (d.asked op) = .error fault := by
      rw [h, Content.followAll_singleton, hf]
    rw [mutations_of_error herror]

/-- Setting an attribute is told if it is possible and a change. -/
theorem setAttr_effect (d : Document) (id attr : String) (value : Json) :
    (match d.setAttr id attr value with
      | .ok result => result.2
      | .error _ => []) =
    match d.content.follow (.modelChanged id attr value) with
      | .ok _ => d.content.effect (.modelChanged id attr value)
      | .error _ => [] := by
  cases hm : d.content.models.get? id with
  | none => simp [setAttr_unknown hm, Content.follow, hm]
  | some m =>
    cases hh : holds m attr value with
    | true => simp [setAttr_kept hm hh, Content.follow, Content.effect, Content.changes, hm, hh]
    | false => simp [setAttr_put hm hh, Content.follow, Content.effect, Content.changes, hm, hh]

/-- **What an operation tells are the changes that it makes.** -/
theorem perform_mutations (d : Document) (op : Operation) :
    (d.perform op).2.2 = d.mutations op := by
  cases op with
  | setTitle title origin =>
    rw [mutations_single (.titleChanged title) rfl, perform]
    by_cases ht : title = d.title
    · simp [setTitle, Content.follow, Content.effect, Content.changes, content, ht]
    · simp [setTitle, Content.follow, Content.effect, Content.changes, content, ht]
  | addRoot kind attributes origin =>
    have hm := d.newModel_fresh kind attributes
    rw [← Table.contains_iff_mem_keys] at hm
    rw [mutations_single (.rootAdded (d.newModel kind attributes)) rfl, Content.follow,
      if_neg hm]
    rfl
  | removeRoot id origin =>
    rw [mutations_single (.rootRemoved id) rfl, perform, removeRoot, Content.follow]
    by_cases hid : d.roots.contains id = true
    · rw [if_pos hid, if_pos (c := d.content.roots.contains id = true) hid]
      rfl
    · rw [if_neg hid, if_neg (c := d.content.roots.contains id = true) hid]
  | setAttr id attr value origin =>
    rw [mutations_single (.modelChanged id attr value.canonical) rfl, ← setAttr_effect,
      perform]
    cases d.setAttr id attr value.canonical <;> rfl
  | setBinary id attr data origin =>
    rw [mutations_single (.modelChanged id attr _) rfl, perform]
    by_cases hm : (d.model? id).isNone = true
    · have hunknown : d.content.models.get? id = none := Option.isNone_iff_eq_none.mp hm
      rw [setBinary, if_pos hm, Content.follow, hunknown]
    · -- The buffers are no part of the content.
      rw [setBinary_known hm]
      refine Eq.trans ?_ ((d.storeBuffer data).setAttr_effect id attr _)
      cases (d.storeBuffer data).setAttr id attr (Event.bufferReference (bufferId d.nextId)) <;> rfl
  | applyPatch change origin =>
    rw [perform]
    cases hj : Patch.decode change with
    | error cause =>
      have hasked : d.asked (.applyPatch change origin) = [] := by rw [asked, hj]
      rw [applyPatch_undecodable hj, mutations_of_ok (c := d.content) (by rw [hasked]; rfl), hasked]
      rfl
    | ok events =>
      cases hf : d.content.followAll events with
      | error fault =>
        have herror : d.content.followAll (d.asked (.applyPatch change origin)) = .error fault := by
          rw [asked, hj, hf]
        rw [applyPatch_refused hj hf, mutations_of_error herror]
      | ok c => rw [applyPatch_followed hj hf, mutations_applyPatch hj hf]
  | addModel kind attributes => rfl
  | exposeLocation exposed => rfl
  | mergeLocation update => rfl

end DocRelay.Document
