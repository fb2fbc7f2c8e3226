import DocRelay.Proofs.Document.Calls
import DocRelay.Proofs.Document.Telling

namespace DocRelay

/-!
# Binary data in a document

A buffer gets its bytes when it is made and keeps them, and its name is never given twice.  So the
bytes that a watcher sets are there when the cycle ends, and travel with the reference to them.

* `Operation.makes`, `Document.perform_frame` — operations that make nothing new;
* `Document.perform_buffers` — what an operation can do to the buffers;
* `Document.Stores`, `Document.Stores.perform` — buffers keep their bytes;
* `Document.setBinary_told` — what is stored and told of binary data that is set;
* `Document.mem_referencedBuffers` — the bytes travel with the reference;
* `Scene.CycleCalls.setBinary_carried` — binary data that a watcher sets, at the end of a cycle.
-/

/-- The operation makes a model or a buffer. -/
def Operation.makes : Operation → Bool
  | .addModel _ _ | .addRoot _ _ _ | .setBinary _ _ _ _ => true
  | _ => false

namespace Document

/-- The buffer that was made with a number holds the bytes. -/
structure Stores (d : Document) (n : Nat) (data : Bytes) : Prop where
  found : d.buffer? (bufferId n) = some data
  /-- The number is used up. -/
  used : n < d.nextId

/-- **Frame.** An operation that makes nothing new leaves the buffers and the counter alone. -/
theorem perform_frame (d : Document) {op : Operation} (h : op.makes = false) :
    (d.perform op).2.1.buffers = d.buffers ∧ (d.perform op).2.1.nextId = d.nextId := by
  -- What is left are the operations that change only the content or the place.
  cases op with
  | setTitle title =>
    by_cases ht : title = d.title
    · simp [perform, setTitle, ht]
    · simp [perform, setTitle, ht]
  | removeRoot id =>
    rw [perform, removeRoot]
    split
    · rename_i h
      split at h
      · cases h
        exact ⟨rfl, rfl⟩
      · cases h
    · exact ⟨rfl, rfl⟩
  | setAttr id attr value =>
    rw [perform]
    cases h : d.setAttr id attr value.canonical with
    | error fault => exact ⟨rfl, rfl⟩
    | ok result =>
      obtain ⟨c, hc⟩ := setAttr_withContent h
      dsimp only
      rw [hc]
      exact ⟨rfl, rfl⟩
  | applyPatch change =>
    rw [perform]
    cases hc : d.content.applied change with
    | error fault =>
      rw [applyPatch_of_error hc]
      exact ⟨rfl, rfl⟩
    | ok c =>
      obtain ⟨events, told, -, happ, -, -⟩ := applyPatch_of_ok hc
      rw [happ]
      exact ⟨rfl, rfl⟩
  | exposeLocation exposed => exact ⟨rfl, rfl⟩
  | mergeLocation update =>
    obtain ⟨reply, l, hmerge⟩ := d.mergeLocation_eq update
    rw [perform, hmerge]
    exact ⟨rfl, rfl⟩
  | _ => cases h

/-- **Step.** Binary data is stored in a new buffer with the next number, or nothing is done. -/
theorem perform_setBinary_cases (d : Document) (id attr : String) (data : Bytes)
    (origin : Origin) :
    let result := d.perform (.setBinary id attr data origin)
    (result.2.1 = d ∧ ∃ fault, result.1 = .error fault) ∨
      result.1 = .ok (.made (bufferId d.nextId)) ∧
        result.2.1.buffers = d.buffers.insert (bufferId d.nextId) data ∧
        result.2.1.nextId = d.nextId + 1 := by
  intro result
  have hresult : result = d.perform (.setBinary id attr data origin) := rfl
  by_cases hm : (d.model? id).isNone = true
  · rw [perform, setBinary, if_pos hm] at hresult
    rw [hresult]
    exact .inl ⟨rfl, _, rfl⟩
  · rw [perform, setBinary_known hm] at hresult
    cases hset : (d.storeBuffer data).setAttr id attr
        (Event.bufferReference (bufferId d.nextId)) with
    | error fault =>
      rw [hset] at hresult
      rw [hresult]
      exact .inl ⟨rfl, _, rfl⟩
    | ok pair =>
      -- The bytes are stored, and then the attribute is set.
      obtain ⟨after, told⟩ := pair
      obtain ⟨c, rfl⟩ := setAttr_withContent hset
      rw [hset] at hresult
      rw [hresult]
      exact .inr ⟨rfl, rfl, rfl⟩

/-- **Step.** An operation leaves the buffers alone, or makes a new one with the next number. -/
theorem perform_buffers (d : Document) (op : Operation) :
    let after := (d.perform op).2.1
    (after.buffers = d.buffers ∧ d.nextId ≤ after.nextId) ∨
      ∃ data, after.buffers = d.buffers.insert (bufferId d.nextId) data ∧
        after.nextId = d.nextId + 1 := by
  cases hop : op.makes with
  | false =>
    obtain ⟨hbuffers, hnext⟩ := d.perform_frame hop
    exact .inl ⟨hbuffers, Nat.le_of_eq hnext.symm⟩
  | true =>
    cases op with
    | addModel kind attributes => exact .inl ⟨rfl, Nat.le_succ_of_le d.nextId_le_nextNumber⟩
    | addRoot kind attributes => exact .inl ⟨rfl, Nat.le_succ_of_le d.nextId_le_nextNumber⟩
    | setBinary id attr data origin =>
      rcases d.perform_setBinary_cases id attr data origin with ⟨hsame, -⟩ | ⟨-, hstored⟩
      · dsimp only
        rw [hsame]
        exact .inl ⟨rfl, Nat.le_refl _⟩
      · exact .inr ⟨data, hstored⟩
    | _ => cases hop

/-- **Step.** Buffers keep their bytes. -/
theorem Stores.perform {d : Document} {n : Nat} {data : Bytes} (h : d.Stores n data)
    (op : Operation) : (d.perform op).2.1.Stores n data := by
  rcases d.perform_buffers op with ⟨hbuffers, hnext⟩ | ⟨other, hbuffers, hnext⟩
  · refine ⟨?_, Nat.lt_of_lt_of_le h.used hnext⟩
    rw [buffer?, hbuffers]
    exact h.found
  · refine ⟨?_, hnext ▸ Nat.lt_succ_of_lt h.used⟩
    -- A new buffer has a name of its own.
    have hne : bufferId d.nextId ≠ bufferId n := fun heq =>
      Nat.ne_of_gt h.used (bufferId_injective heq)
    rw [buffer?, hbuffers, Table.get?_insert, if_neg hne]
    exact h.found

/-- Binary data that changes an attribute is stored, and told by a reference to its buffer. -/
theorem setBinary_told {d : Document} {id attr : String} {data : Bytes} {origin : Origin}
    (h : (d.perform (.setBinary id attr data origin)).2.2 ≠ []) :
    let r := d.perform (.setBinary id attr data origin)
    let name := bufferId d.nextId
    r.1 = .ok (.made name) ∧ r.2.1.Stores d.nextId data ∧
      r.2.2 = [.modelChanged id attr (Event.bufferReference name)] := by
  rcases d.perform_setBinary id attr data origin with hnone | ⟨after, told, hset, hperform⟩
  · rw [hnone] at h
    exact absurd rfl h
  · rw [hperform] at h ⊢
    obtain ⟨c, rfl⟩ := setAttr_withContent hset
    refine ⟨rfl, ⟨?_, Nat.lt_succ_self _⟩, (setAttr_told hset).resolve_left h⟩
    show (d.buffers.insert (bufferId d.nextId) data).get? (bufferId d.nextId) = some data
    rw [Table.get?_insert, if_pos rfl]

/-- The bytes of a buffer that an event refers to are among those that travel with it. -/
theorem mem_referencedBuffers {d : Document} {events : List Event} {id attr name : String}
    {data : Bytes} (he : .modelChanged id attr (Event.bufferReference name) ∈ events)
    (hd : d.buffer? name = some data) : data ∈ d.referencedBuffers events := by
  refine List.mem_filterMap.mpr ⟨name, List.mem_eraseDups.mpr ?_, hd⟩
  exact List.mem_filterMap.mpr ⟨_, he, rfl⟩

end Document

/-! ### A cycle -/

/-- The event is among those of the application, and the buffer with the number holds the bytes. -/
structure Scene.Carried (event : Event) (n : Nat) (data : Bytes) (sent : List Event) (d : Document)
    (queue : Queue) : Prop where
  mem : event ∈ sent ++ ownEvents queue
  stores : d.Stores n data

/-- **Step.** Every operation and every delivery keeps this. -/
theorem Scene.carried_carries (linked : Bool) (event : Event) (n : Nat) (data : Bytes) :
    (Discipline.free linked).Carries (Carried event n data) := by
  refine ⟨fun {sent d queue op} _ h => ⟨?_, h.stores.perform op⟩, fun {sent d first rest} h => ?_⟩
  · -- What an operation tells joins the end of the queue.
    have hmem := h.mem
    rw [ownEvents, List.flatMap_append, ← List.append_assoc]
    exact List.mem_append_left _ hmem
  · exact ⟨ownEvents_take sent first rest ▸ h.mem, h.stores⟩

/-- **Cycle.** If a watcher sets binary data in the name of the application, and that changes the
    attribute, then the cycle sends the reference, and the buffer holds the bytes at its end. -/
theorem Scene.CycleCalls.setBinary_carried {s t : Scene} {id attr : String} {data : Bytes}
    (h : CycleCalls cycleLimit s.begin (.setBinary id attr data .runtime) t)
    (changed : (t.live.document.perform (.setBinary id attr data .runtime)).2.2 ≠ []) :
    ∃ name, (t.live.document.perform (.setBinary id attr data .runtime)).1 = .ok (.made name) ∧
      .modelChanged id attr (Event.bufferReference name) ∈ s.cycleEvents ∧
      s.cycleEnd.live.document.buffer? name = some data := by
  obtain ⟨hreply, hstores, htold⟩ := Document.setBinary_told changed
  have hqueue : (t.enqueue (.setBinary id attr data .runtime)).2.live.queue
      = t.live.queue ++ (t.live.document.perform (.setBinary id attr data .runtime)).2.2.map
          fun event => (event, Origin.runtime) := rfl
  -- Behind the call the event is queued and the bytes are stored, which no later call undoes.
  have hcall : (t.enqueue (.setBinary id attr data .runtime)).2.Upholds
      (.free t.live.isLinked)
      (Carried (.modelChanged id attr
        (Event.bufferReference (Document.bufferId t.live.document.nextId)))
        t.live.document.nextId data []) := by
    refine ⟨rfl, ⟨?_, hstores⟩, fun _ _ => trivial⟩
    rw [hqueue, ownEvents_append_runtime, htold]
    exact List.mem_append_right _ (List.mem_append_right _ (List.mem_singleton_self _))
  obtain ⟨earlier, later, hsent, hend⟩ := h.cycle_upholds (carried_carries _ _ _ _) hcall
  obtain ⟨hmem, hlast⟩ := hend.matter
  refine ⟨_, hreply, ?_, hlast.found⟩
  -- Nothing is queued at the end of the cycle, so the event has been sent.
  rw [cycleEnd_queue] at hmem
  rw [hsent]
  refine List.mem_append_right _ ?_
  simpa [ownEvents] using hmem

end DocRelay
