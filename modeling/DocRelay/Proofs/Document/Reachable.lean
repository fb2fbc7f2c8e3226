import DocRelay.Proofs.Document.Discipline
import DocRelay.Proofs.Document.Wire

namespace DocRelay

/-!
# Reachable documents

The documents that come about from an empty one, at rest and in the middle of a cycle.

* `LiveDocument.Reachable` — documents at rest after any operations, watchers and links;
* `LiveDocument.Observable` — these, and all that a watcher can find while a cycle is under way;
* `LiveDocument.Reachable.atRest` — between operations no event is left over and no cycle is
  under way;
* `LiveDocument.Observable.holds` — what every operation keeps holds of all observable documents;
* `LiveDocument.Observable.represented` — the representation invariant;
* `LiveDocument.Observable.tidy` — tables and values are in canonical form.
-/

namespace LiveDocument

/-- A document that comes about from an empty one by operations, one after the other. -/
inductive Reachable : LiveDocument → Prop where
  | new (id : String) : Reachable (.ofDocument (.empty id))
  /-- An operation in any surroundings, with everything that follows from it. -/
  | perform {s : Scene} (op : Operation) (h : Reachable s.live) :
    Reachable (s.perform op).2.live
  | watch {d : LiveDocument} (w : Watcher) (h : Reachable d) : Reachable (d.addWatcher w)
  | link {d : LiveDocument} (sink : Sink) (h : Reachable d) : Reachable (d.linkTo sink)
  /-- The location is another one, or none. -/
  | relocate {d : LiveDocument} (l : Option Location) (h : Reachable d) :
    Reachable { d with document := { d.document with location := l } }

/-- A document that somebody can find: at rest, or in a scene that an operation passes, which may
    be in the middle of a watcher's script, or behind one that failed or broke off. -/
inductive Observable : LiveDocument → Prop where
  | atRest {d : LiveDocument} (h : d.Reachable) : Observable d
  | during {s t : Scene} {op : Operation} (h : s.live.Reachable) (passed : s.PerformPasses op t) :
    Observable t.live

/-- Between operations no event is left over and no cycle is under way. -/
theorem Reachable.atRest {d : LiveDocument} (h : d.Reachable) :
    d.queue = [] ∧ d.dispatching = false := by
  induction h with
  | new id => exact ⟨rfl, rfl⟩
  | @perform s op h ih =>
    -- No cycle was under way, so the operation has one of its own, which empties the queue.
    have hrest : (s.enqueue op).2.live.dispatching = false := ih.2
    show (s.enqueue op).2.settle.live.queue = [] ∧ (s.enqueue op).2.settle.live.dispatching = false
    rw [Scene.settle, if_neg (by simp [hrest])]
    exact ⟨Scene.dispatch_queue _, Scene.dispatch_dispatching _⟩
  | watch w h ih => exact ih
  | link sink h ih => exact ih
  | relocate l h ih => exact ih

end LiveDocument

namespace Scene

/-- An operation on a document at rest is followed by a cycle. -/
theorem perform_atRest {s : Scene} (h : s.live.Reachable) (op : Operation) :
    s.perform op = ((s.enqueue op).1, (s.enqueue op).2.dispatch) := by
  have hrest : (s.enqueue op).2.live.dispatching = false := h.atRest.2
  show ((s.enqueue op).1, (s.enqueue op).2.settle) = _
  rw [settle, if_neg (by simp [hrest])]

end Scene

/-! ### What operations keep -/

/-- What every operation keeps is a statement that the free discipline carries. -/
theorem Discipline.free_carries {P : Document → Prop}
    (hop : ∀ d op, P d → P (d.perform op).2.1) (linked : Bool) :
    (free linked).Carries fun _ d _ => P d :=
  ⟨fun _ h => hop _ _ h, fun h => h⟩

namespace LiveDocument

variable {P : Document → Prop}

/-- **Run.** What an empty document has and every operation keeps holds of reachable documents. -/
theorem Reachable.holds (hnew : ∀ id, P (.empty id)) (hop : ∀ d op, P d → P (d.perform op).2.1)
    (hplace : ∀ d l, P d → P { d with location := l }) {d : LiveDocument} (h : d.Reachable) :
    P d.document := by
  induction h with
  | new id => exact hnew id
  | @perform s op h ih =>
    -- What is forwarded does not matter to the document: the cycle before it does.
    rw [Scene.perform_atRest h, Scene.dispatch_eq, Scene.forward_live]
    have hmade : (s.enqueue op).2.Upholds (.free s.live.isLinked) fun d _ => P d :=
      ⟨rfl, hop _ op ih, fun _ _ => trivial⟩
    exact (Scene.cycle_upholds (Discipline.isBinding_free _) (Discipline.free_carries hop _) []
      hmade).matter
  | watch w h ih => exact ih
  | link sink h ih => exact ih
  | relocate l h ih => exact hplace _ l ih

/-- **Invariant.** What an empty document has and every operation keeps holds of every document
    that can be observed. -/
theorem Observable.holds (hnew : ∀ id, P (.empty id)) (hop : ∀ d op, P d → P (d.perform op).2.1)
    (hplace : ∀ d l, P d → P { d with location := l }) {d : LiveDocument} (h : d.Observable) :
    P d.document := by
  cases h with
  | atRest h => exact h.holds hnew hop hplace
  | @during s t op h passed =>
    -- The watchers need no discipline here, as every operation keeps the statement.
    have hmade : (s.enqueue op).2.Upholds (.free s.live.isLinked) fun d _ => P d :=
      ⟨rfl, hop _ op (h.holds hnew hop hplace), fun _ _ => trivial⟩
    cases passed with
    | made => exact hmade.matter
    | cycle hpassed =>
      have hbegin : (s.enqueue op).2.begin.Upholds (.free s.live.isLinked) fun d _ => P d :=
        ⟨rfl, hmade.matter, fun _ _ => trivial⟩
      obtain ⟨_, ht⟩ := Scene.cyclePasses_upholds (Discipline.isBinding_free _)
        (Discipline.free_carries hop _) [] hpassed hbegin
      exact ht.matter
    | done => exact (h.perform op).holds hnew hop hplace

/-- An empty content is sound. -/
theorem sound_empty (id : String) : (Document.empty id).content.Sound :=
  ⟨List.Pairwise.nil, fun _ h => absurd h List.not_mem_nil, fun _ h => absurd h List.not_mem_nil⟩

/-- The content of an observable document is sound. -/
theorem Observable.sound {d : LiveDocument} (h : d.Observable) : d.document.content.Sound :=
  h.holds (P := fun d => d.content.Sound) sound_empty (fun _ op hd => Document.perform_sound hd op)
    fun _ _ hd => hd

/-- An empty content is tidy. -/
theorem tidy_empty (id : String) : (Document.empty id).content.Tidy :=
  ⟨List.Pairwise.nil, fun _ h => absurd h List.not_mem_nil⟩

/-- The content of an observable document is tidy. -/
theorem Observable.tidy {d : LiveDocument} (h : d.Observable) : d.document.content.Tidy :=
  h.holds (P := fun d => d.content.Tidy) tidy_empty (fun _ op hd => Document.perform_tidy hd op)
    fun _ _ hd => hd

/-- **Representation invariant.** In every document that can be observed the roots are listed
    once each, they are models, and every model is stored under its own id. -/
theorem Observable.represented {d : LiveDocument} (h : d.Observable) :
    d.document.roots.Nodup ∧ (∀ id ∈ d.document.roots, d.document.models.contains id = true) ∧
      ∀ entry ∈ d.document.models, entry.2.id = entry.1 :=
  ⟨h.sound.nodup, fun id hid => Table.contains_iff_mem_keys.mpr (h.sound.rooted id hid),
    h.sound.keyed⟩

/-! ### A watcher that breaks off -/

/-- A watcher that puts another root in the place of its model, and then breaks off. -/
def replacing : Watcher :=
  ⟨"m1", "value", .null, fun _ _ =>
    .perform (.addRoot "Div" [] .runtime) fun _ =>
      .perform (.removeRoot "m1" .runtime) fun _ => .finish (.panicked none) .null⟩

/-- A document with one root, which is watched. -/
def watched : Scene :=
  (Scene.perform ⟨.ofDocument (.empty "doc-1"), .empty⟩
    (.addRoot "Slider" [] .runtime)).2.addWatcher replacing

/-- The watched document comes about by adding a root and setting the watcher. -/
theorem watched_reachable : watched.live.Reachable :=
  .watch replacing (.perform (s := ⟨.ofDocument (.empty "doc-1"), .empty⟩) _ (.new "doc-1"))

/-- The host changes the watched attribute. -/
def noticed : Scene :=
  (watched.enqueue (.setAttr "m1" "value" (.int 5) .host)).2.begin

/-- The watcher breaks off. -/
def brokenOff : Scene :=
  let started := (noticed.take []).withWatchers []
  ((started.enqueue (.addRoot "Div" [] .runtime)).2.enqueue (.removeRoot "m1" .runtime)).2

/-- The invariant holds where the watcher breaks off. -/
theorem represented_brokenOff :
    brokenOff.live.Observable ∧ brokenOff.live.dispatching = true ∧
      brokenOff.live.document.roots = ["m2"] ∧
      (brokenOff.live.document.roots.Nodup ∧
        (∀ id ∈ brokenOff.live.document.roots,
          brokenOff.live.document.models.contains id = true) ∧
        ∀ entry ∈ brokenOff.live.document.models, entry.2.id = entry.1) := by
  have hwatched : watched.live.Reachable :=
    .watch replacing (.perform (s := ⟨.ofDocument (.empty "doc-1"), .empty⟩) _ (.new "doc-1"))
  have hqueue : noticed.live.queue = [(.modelChanged "m1" "value" (.int 5), .host)] := by rfl
  have h : brokenOff.live.Observable :=
    .during hwatched
      (.cycle (.inside hqueue (.inside ⟨rfl, rfl⟩ (.perform (.perform .here)))))
  exact ⟨h, by decide +kernel, by decide +kernel, h.represented⟩

end LiveDocument

end DocRelay
