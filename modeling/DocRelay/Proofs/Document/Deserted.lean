import DocRelay.Proofs.Document.AtRest
import DocRelay.Proofs.Document.Past

namespace DocRelay

/-!
# Documents without a host

When the host has left, nothing can be posted any more, but a document is worked on as before: the
same changes are made, the same watchers run, and they note the same.

* `Surroundings.deserted` — the host has left; `Surroundings.isAside_deserted` — no watcher finds
  out;
* `Surroundings.Remains` — what is left alone by attempts to send; `Scene.forward_remains`;
* `Scene.perform_isOpen`, `Scene.perform_deserted` — an operation with all that follows from it.
-/

namespace Outbox

/-- A closed outbox takes no message. -/
theorem post_of_not_isOpen {o : Outbox} (h : o.isOpen = false) (m : OutboundMessage) :
    o.post m = (.error (closedFault m.kind), o) := by
  simp [post, h]

/-- An outbox is as open as it was after a post. -/
theorem post_isOpen (o : Outbox) (m : OutboundMessage) : (o.post m).2.isOpen = o.isOpen := by
  cases h : o.isOpen with
  | true =>
    rw [post_of_isOpen h]
    exact h
  | false =>
    rw [post_of_not_isOpen h]
    exact h

/-- An outbox is as open as it was after a patch, and a closed one has taken nothing. -/
theorem send_remains (o : Outbox) (sink : Sink) (change : Json) (buffers : List Bytes) :
    (o.send sink change buffers).2.isOpen = o.isOpen ∧
      (o.isOpen = false → (o.send sink change buffers).2.posted = o.posted) := by
  cases hr : o.isRendered with
  | false =>
    rw [send_of_not_isRendered hr]
    exact ⟨rfl, fun _ => rfl⟩
  | true =>
    rw [send_of_isRendered hr]
    refine ⟨post_isOpen (o.numbered sink) _, fun hclosed => ?_⟩
    have hnumbered : (o.numbered sink).isOpen = false := hclosed
    dsimp only
    rw [post_of_not_isOpen hnumbered]
    rfl

end Outbox

namespace Surroundings

/-- The surroundings when the host has left. -/
def deserted (s : Surroundings) : Surroundings := { s with outbox := s.outbox.close }

theorem isAside_deserted : IsAside deserted := ⟨fun _ _ => rfl, fun _ _ => rfl⟩

/-- What is left alone by attempts to send: the notes, whether the host listens, and what was posted
    if it does not. -/
structure Remains (s t : Surroundings) : Prop where
  notes : t.notes = s.notes
  isOpen : t.outbox.isOpen = s.outbox.isOpen
  posted : s.outbox.isOpen = false → t.outbox.posted = s.outbox.posted

theorem Remains.refl (s : Surroundings) : s.Remains s := ⟨rfl, rfl, fun _ => rfl⟩

/-- Sending a patch leaves it alone. -/
theorem send_remains (s : Surroundings) (sink : Sink) (change : Json) (buffers : List Bytes) :
    s.Remains (s.send sink change buffers).2 := by
  obtain ⟨hopen, hposted⟩ := s.outbox.send_remains sink change buffers
  rw [send]
  generalize s.outbox.send sink change buffers = sent at hopen hposted
  -- A patch that is dropped is told, which is no note.
  obtain ⟨fault | _ | id, after⟩ := sent
  all_goals exact ⟨rfl, hopen, hposted⟩

end Surroundings

namespace Scene

/-- Forwarding changes leaves it alone. -/
theorem forward_remains (s : Scene) (events : List Event) :
    s.around.Remains (s.forward events).around := by
  unfold forward
  split
  · exact .refl _
  · exact .refl _
  · have hsent := s.around.send_remains
    split
    · rename_i hsend
      have h := hsend ▸ hsent _ _ _
      exact h
    · rename_i hsend
      have h := hsend ▸ hsent _ _ _
      exact ⟨h.notes, h.isOpen, h.posted⟩

/-- The host listens behind an operation if it did before. -/
theorem perform_isOpen (s : Scene) (op : Operation) :
    (s.perform op).2.around.outbox.isOpen = s.around.outbox.isOpen := by
  show (s.enqueue op).2.settle.around.outbox.isOpen = s.around.outbox.isOpen
  rw [settle]
  split
  · rfl
  · rw [dispatch_eq, (forward_remains _ _).isOpen, cycleEnd_outbox]
    rfl

/-- The cycle behind an operation is noted as it is otherwise, and nothing is posted. -/
theorem settle_deserted (s : Scene) :
    let alone := (s.altered Surroundings.deserted).settle
    alone.around.notes = s.settle.around.notes ∧ alone.around.outbox.isOpen = false ∧
      alone.around.outbox.posted = [] := by
  dsimp only
  rw [settle, settle, show (s.altered Surroundings.deserted).live = s.live from rfl]
  split
  · exact ⟨rfl, rfl, rfl⟩
  · -- Up to the end of the cycle nobody finds out, and what is sent then is lost.
    obtain ⟨hend, hevents⟩ := cycleEnd_altered Surroundings.isAside_deserted s
    rw [dispatch_eq, dispatch_eq, hend, hevents]
    have hopen := forward_remains s.cycleEnd s.cycleEvents
    have halone := forward_remains (s.cycleEnd.altered Surroundings.deserted) s.cycleEvents
    exact ⟨halone.notes.trans hopen.notes.symm, halone.isOpen, halone.posted rfl⟩

/-- **An operation on a document without a host** is answered and changes the document as it does
    otherwise.  The watchers note the same, and nothing is posted. -/
theorem perform_deserted (s : Scene) (op : Operation) :
    let alone := (s.altered Surroundings.deserted).perform op
    alone.1 = (s.perform op).1 ∧ alone.2.live = (s.perform op).2.live ∧
      alone.2.around.notes = (s.perform op).2.around.notes ∧
      alone.2.around.outbox.isOpen = false ∧ alone.2.around.outbox.posted = [] := by
  obtain ⟨hreply, hlive⟩ := perform_isLocal op (s := s.altered Surroundings.deserted) (t := s) rfl
  exact ⟨hreply, hlive, settle_deserted (s.enqueue op).2⟩

end Scene

end DocRelay
