import DocRelay.Proofs.Document.Given
import DocRelay.Proofs.Document.Loop
import DocRelay.Proofs.Document.Past
import Mathlib.Data.List.Forall2

namespace DocRelay

/-!
# The buffers of a patch

A patch that is forwarded carries the bytes of the buffers that it refers to, without their names.
A host that counts the references finds them in the order in which it meets their names.

* `Event.RefersTo`, `Event.buffer?_eq_some_iff` — the new value of an attribute refers to a buffer;
* `Document.FirstReferences` — the names of buffers in the order of their first references;
  `Document.exists_firstReferences` — the bytes that are sent are those under these names;
* `Scene.forward_posts` — forwarding posts nothing but one patch;
* `LiveDocument.Recorded.buffers_enclosed` — the bytes in a patch are those that the operations that
  made its buffers were given.
-/

/-! ### References -/

/-- The event changes an attribute to an object that refers to the buffer. -/
def Event.RefersTo (name : String) : Event → Prop
  | .modelChanged _ _ (.obj members) => Table.get? members "__buffer__" = some (.str name)
  | _ => False

/-- A text is the text of a string, and of no other value. -/
theorem Json.text?_eq_some_iff {j : Json} {text : String} :
    j.text? = some text ↔ j = .str text := by
  cases j <;> simp [text?]

/-- The buffer of an event is the one that it refers to. -/
theorem Event.buffer?_eq_some_iff {event : Event} {name : String} :
    event.buffer? = some name ↔ event.RefersTo name := by
  cases event with
  | modelChanged id attr value =>
    cases value with
    | obj members =>
      show (Table.get? members bufferKey).bind Json.text? = some name ↔ _
      rw [Option.bind_eq_some_iff]
      simp only [Json.text?_eq_some_iff, exists_eq_right]
      rfl
    | _ => simp [buffer?, RefersTo, Json.member?]
  | _ => simp [buffer?, RefersTo]

/-- **The first occurrences** of the elements of a list keep its order: of two of them, the one is
    met while the other is not. -/
theorem eraseDups_pairwise {α : Type} [BEq α] [LawfulBEq α] (l : List α) :
    l.eraseDups.Pairwise fun a b => ∃ front rest, l = front ++ rest ∧ a ∈ front ∧ b ∉ front := by
  -- By induction on the length, as the duplicates of the first element are all left out at once.
  induction hn : l.length using Nat.strongRecOn generalizing l with
  | ind n ih =>
    cases l with
    | nil => exact List.Pairwise.nil
    | cons x t =>
      have hshort : (t.filter fun b => !b == x).length < n := by
        have hle := List.length_filter_le (fun b => !b == x) t
        rw [List.length_cons] at hn
        omega
      rw [List.eraseDups_cons]
      refine List.pairwise_cons.mpr ⟨fun b hb => ?_, (ih _ hshort _ rfl).imp_of_mem ?_⟩
      · have hne : b ≠ x := by simpa using (List.mem_filter.mp (List.mem_eraseDups.mp hb)).2
        exact ⟨[x], t, rfl, List.mem_singleton_self x, by simpa using hne⟩
      · rintro a b - hb ⟨front, rest, hsplit, ha, hnot⟩
        obtain ⟨before, behind, rfl, rfl, rfl⟩ := List.filter_eq_append_iff.mp hsplit
        have hkept := (List.mem_filter.mp (List.mem_eraseDups.mp hb)).2
        have hne : b ≠ x := by simpa using hkept
        refine ⟨x :: before, behind, rfl, List.mem_cons_of_mem _ (List.mem_filter.mp ha).1, ?_⟩
        rintro hmem
        rcases List.mem_cons.mp hmem with heq | hmem
        · exact hne heq
        · exact hnot (List.mem_filter.mpr ⟨hmem, hkept⟩)

/-- What is found for the elements of a list, one by one. -/
theorem forall₂_filterMap {α β : Type} (f : α → Option β) (l : List α) :
    List.Forall₂ (fun a b => f a = some b) (l.filter fun a => (f a).isSome) (l.filterMap f) := by
  induction l with
  | nil => exact .nil
  | cons a rest ih =>
    cases ha : f a with
    | none => simpa [ha] using ih
    | some b => simpa [ha] using ih

namespace Document

/-- The names of the buffers of a document that events refer to, in the order of the first
    references. -/
structure FirstReferences (d : Document) (events : List Event) (names : List String) : Prop where
  mem_iff : ∀ name, name ∈ names ↔
    (∃ data, d.buffer? name = some data) ∧ ∃ event ∈ events, event.RefersTo name
  nodup : names.Nodup
  /-- Of two of the names, the one is referred to while the other is not. -/
  ordered : names.Pairwise fun a b => ∃ front rest, events = front ++ rest ∧
    (∃ event ∈ front, event.RefersTo a) ∧ ∀ event ∈ front, ¬event.RefersTo b

/-- **The bytes that travel** with events are those of the buffers that they refer to, each once and
    in the order of the first references. -/
theorem exists_firstReferences (d : Document) (events : List Event) :
    ∃ names, d.FirstReferences events names ∧
      List.Forall₂ (fun name data => d.buffer? name = some data) names
        (d.referencedBuffers events) := by
  have hmem : ∀ name, name ∈ (events.filterMap Event.buffer?).eraseDups ↔
      ∃ event ∈ events, event.RefersTo name := fun name => by
    simp only [List.mem_eraseDups, List.mem_filterMap, Event.buffer?_eq_some_iff]
  have hordered : (events.filterMap Event.buffer?).eraseDups.Pairwise fun a b =>
      ∃ front rest, events = front ++ rest ∧ (∃ event ∈ front, event.RefersTo a) ∧
        ∀ event ∈ front, ¬event.RefersTo b := by
    -- A part of the references comes from a part of the events.
    refine (eraseDups_pairwise _).imp ?_
    rintro a b ⟨front, rest, hsplit, ha, hb⟩
    obtain ⟨before, behind, rfl, rfl, rfl⟩ := List.filterMap_eq_append_iff.mp hsplit
    obtain ⟨event, hevent, ha⟩ := List.mem_filterMap.mp ha
    refine ⟨before, behind, rfl, ⟨event, hevent, Event.buffer?_eq_some_iff.mp ha⟩,
      fun other hother href => hb ?_⟩
    exact List.mem_filterMap.mpr ⟨other, hother, Event.buffer?_eq_some_iff.mpr href⟩
  have hnodup : (events.filterMap Event.buffer?).eraseDups.Nodup :=
    (eraseDups_pairwise _).imp fun ⟨_, _, _, ha, hb⟩ heq => hb (heq ▸ ha)
  refine ⟨_, ⟨fun name => ?_, hnodup.filter _, hordered.filter _⟩, forall₂_filterMap _ _⟩
  rw [List.mem_filter, hmem, Option.isSome_iff_exists, and_comm]

end Document

/-! ### Forwarding -/

/-- Sending posts the patch, or nothing. -/
theorem Outbox.send_posts (o : Outbox) (sink : Sink) (change : Json) (buffers : List Bytes) :
    ∃ own, (o.send sink change buffers).2.posted = o.posted ++ own ∧
      ∀ m ∈ own, ∃ id, m = .patch change buffers id := by
  have hnone : ∃ own, o.posted = o.posted ++ own ∧
      ∀ m ∈ own, ∃ id, m = .patch change buffers id :=
    ⟨[], (List.append_nil _).symm, fun m hm => absurd hm List.not_mem_nil⟩
  cases hr : o.isRendered with
  | false =>
    rw [send_of_not_isRendered hr]
    exact hnone
  | true =>
    rw [send_of_isRendered hr]
    dsimp only
    rw [post]
    split
    · exact ⟨_, rfl, fun m hm => ⟨_, List.mem_singleton.mp hm⟩⟩
    · exact hnone

namespace Scene

/-- Forwarding posts nothing but a patch of the events, with the buffers that they refer to. -/
theorem forward_posts (s : Scene) (events : List Event) :
    ∃ own, (s.forward events).around.outbox.posted = s.around.outbox.posted ++ own ∧
      ∀ m ∈ own, ∃ id,
        m = .patch (Patch.toJson events) (s.live.document.referencedBuffers events) id := by
  have hnone : ∃ own, s.around.outbox.posted = s.around.outbox.posted ++ own ∧
      ∀ m ∈ own, ∃ id,
        m = .patch (Patch.toJson events) (s.live.document.referencedBuffers events) id :=
    ⟨[], (List.append_nil _).symm, fun m hm => absurd hm List.not_mem_nil⟩
  cases hlink : s.live.link with
  | none =>
    have hsame : s.forward events = s := by
      unfold forward
      rw [hlink]
    rw [hsame]
    exact hnone
  | some sink =>
    cases events with
    | nil =>
      rw [forward_nil]
      exact hnone
    | cons event rest =>
      -- What is told beside the outbox does not matter.
      have hbox : (s.forward (event :: rest)).around.outbox
          = (s.around.outbox.send sink (Patch.toJson (event :: rest))
              (s.live.document.referencedBuffers (event :: rest))).2 := by
        unfold forward Surroundings.send
        rw [hlink]
        dsimp only
        generalize s.around.outbox.send _ _ _ = sent
        obtain ⟨⟨⟩ | ⟨_ | _⟩, after⟩ := sent <;> rfl
      rw [hbox]
      exact Outbox.send_posts _ _ _ _

end Scene

namespace LiveDocument

/-- **Enclosures.** In the history of a document, a patch that is forwarded behind an operation can be
    read, and it carries as many pieces of bytes as it refers to buffers of the document.  In the
    order in which the buffers are first referred to, each piece is what the operation that has made
    the buffer was given, and no other operation has made a buffer of that name. -/
theorem Recorded.buffers_enclosed {calls : List Call} {s : Scene} (h : s.live.Recorded calls)
    (op : Operation) :
    let after := (s.perform op).2
    ∃ own, after.around.outbox.posted = s.around.outbox.posted ++ own ∧
      ∀ change buffers id, .patch change buffers id ∈ own → ∃ events names,
        Patch.decode change = .ok events ∧
        after.live.document.FirstReferences events names ∧
        List.Forall₂ (fun name data =>
          (∃ c ∈ calls ++ s.calls op, c.buffer? = some (name, data)) ∧
          ∀ c ∈ calls ++ s.calls op, ∀ other, c.buffer? = some (name, other) → other = data)
          names buffers := by
  intro after
  have hafter : after = (s.enqueue op).2.cycleEnd.forward (s.enqueue op).2.cycleEvents := by
    rw [← Scene.dispatch_eq]
    exact congrArg Prod.snd (Scene.perform_atRest h.reachable op)
  have hdocument : (s.enqueue op).2.cycleEnd.live.document = after.live.document := by
    rw [hafter, Scene.forward_live]
  have htidy : ∀ event ∈ (s.enqueue op).2.cycleEvents, event.IsTidy :=
    Scene.cycleEvents_isTidy (Scene.enqueue_isTidy h.reachable.atRest.1 op)
  obtain ⟨own, hposted, hown⟩ :=
    (s.enqueue op).2.cycleEnd.forward_posts (s.enqueue op).2.cycleEvents
  refine ⟨own, ?_, fun change buffers id hmem => ?_⟩
  · rw [hafter, hposted, Scene.cycleEnd_outbox]
    rfl
  · obtain ⟨number, hpatch⟩ := hown _ hmem
    obtain ⟨rfl, rfl, rfl⟩ := OutboundMessage.patch.inj hpatch
    obtain ⟨names, hnames, hbytes⟩ :=
      after.live.document.exists_firstReferences (s.enqueue op).2.cycleEvents
    refine ⟨_, names, Patch.decode_toJson htidy, hnames, ?_⟩
    rw [hdocument]
    refine hbytes.imp fun name data hdata => ?_
    -- The buffers at the end are those that the calls have made.
    have hbuffers := (h.perform op).run.accounts.buffers
    have hmade := (hbuffers name data).mp hdata
    obtain ⟨c, hc, hgiven⟩ := List.mem_filterMap.mp hmade
    refine ⟨⟨c, hc, hgiven⟩, fun c hc other hother => ?_⟩
    have hfound := (hbuffers name other).mpr (List.mem_filterMap.mpr ⟨c, hc, hother⟩)
    exact Option.some.inj (hfound.symm.trans hdata)

/-- A watcher that sets two pictures when the value changes, and refers to the first of them again. -/
def stamping : Watcher :=
  ⟨"m1", "value", .null, fun _ _ =>
    .perform (.setBinary "m1" "stamp" [4, 5] .runtime) fun _ =>
      .perform (.setBinary "m1" "seal" [6] .runtime) fun _ =>
        .perform (.setAttr "m1" "copy" (Event.bufferReference "buf-2") .runtime) fun _ =>
          .finish .done .null⟩

/-- A document with one root, which is watched and linked to a host that has seen the rendering. -/
def stamped : Scene :=
  let made := (Scene.perform ⟨.ofDocument (.empty "doc-1"), .empty⟩ (.addRoot "Slider" [] .runtime)).2
  ⟨(made.live.addWatcher stamping).linkTo ⟨0⟩,
    { Surroundings.empty with outbox := ⟨true, true, [], [1]⟩ }⟩

/-- The bytes that a patch carries, and its id. -/
def enclosed : OutboundMessage → Option (List Bytes × String)
  | .patch _ buffers id => some (buffers, id)
  | _ => none

/-- The host sets the value: three attributes refer to two buffers, whose bytes are sent once each. -/
theorem Recorded.buffers_enclosed_stamped :
    let start : Scene := ⟨.ofDocument (.empty "doc-1"), .empty⟩
    let calls := start.calls (.addRoot "Slider" [] .runtime)
    let op := Operation.setAttr "m1" "value" (.int 5) .host
    stamped.live.Recorded calls ∧ ∃ change events names,
      (stamped.perform op).2.around.outbox.posted = [.patch change [[4, 5], [6]] "patch-1"] ∧
      Patch.decode change = .ok events ∧
      (stamped.perform op).2.live.document.FirstReferences events names ∧
      List.Forall₂ (fun name data =>
        (∃ c ∈ calls ++ stamped.calls op, c.buffer? = some (name, data)) ∧
        ∀ c ∈ calls ++ stamped.calls op, ∀ other, c.buffer? = some (name, other) → other = data)
        names [[4, 5], [6]] := by
  intro start calls op
  have h : stamped.live.Recorded calls :=
    .link ⟨0⟩ (.watch stamping (.perform (s := start) _ (.new "doc-1")))
  obtain ⟨own, hposted, hown⟩ := h.buffers_enclosed op
  -- The one message that is posted, as far as its buffers and its id go.
  have hparts : (stamped.perform op).2.around.outbox.posted.map enclosed
      = [some ([[4, 5], [6]], "patch-1")] := by
    decide +kernel
  obtain ⟨m, hsent, hm⟩ := List.map_eq_singleton_iff.mp hparts
  obtain ⟨change, rfl⟩ : ∃ change, m = .patch change [[4, 5], [6]] "patch-1" := by
    cases m with
    | patch change buffers id =>
      obtain ⟨rfl, rfl⟩ := Prod.mk.inj (Option.some.inj hm)
      exact ⟨change, rfl⟩
    | _ => cases hm
  have hmem : .patch change [[4, 5], [6]] "patch-1" ∈ own := by
    have hnone : stamped.around.outbox.posted = [] := rfl
    rw [hnone, List.nil_append] at hposted
    rw [← hposted, hsent]
    exact List.mem_singleton_self _
  obtain ⟨events, names, hread, hnames, hbytes⟩ := hown _ _ _ hmem
  exact ⟨h, change, events, names, hsent, hread, hnames, hbytes⟩

end LiveDocument

end DocRelay
