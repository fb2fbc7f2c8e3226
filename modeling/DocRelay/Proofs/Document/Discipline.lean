import DocRelay.Proofs.Document.Course

namespace DocRelay

/-!
# Invariants along a cycle

What every operation of the watchers keeps holds in every scene that a cycle passes.  Watchers may
be bound to a discipline, which says what they may do; the free discipline allows everything.

* `Discipline`, `Script.Obeys`, `Discipline.IsBinding` — what watchers may do, from now on;
* `Discipline.Carries` — a statement on the events taken so far, the document and the queue that
  every allowed operation keeps, and every event that is taken;
* `Scene.Upholds` — a scene in which the statement holds and all watchers are bound;
* `Scene.passes_upholds`, `Scene.cyclePasses_upholds` — the statement holds in every scene passed;
* `Scene.deliver_upholds`, `Scene.cycle_upholds`, `Scene.cycle_forwarded` — and at the end of a
  cycle.
-/

/-- What watchers are bound to, while their changes are or are not sent to a host. -/
structure Discipline where
  linked : Bool
  /-- The operations that they may perform. -/
  allowed : Operation → Prop
  /-- The watchers, with what they remember, that are bound. -/
  keeps : Watcher → Prop

/-- The script performs allowed operations only, whatever is answered and whatever it sees, sets
    bound watchers only, and remembers what it should. -/
def Script.Obeys (D : Discipline) (remembers : Json → Prop) : Script → Prop
  | .finish _ memory => remembers memory
  | .perform op next => D.allowed op ∧ ∀ reply, (next reply).Obeys D remembers
  | .look next => ∀ d, (next d D.linked).Obeys D remembers
  | .note _ next => next.Obeys D remembers
  | .watch id attr memory body next =>
    D.keeps ⟨id, attr, memory, body⟩ ∧ next.Obeys D remembers

namespace Discipline

/-- The script of every bound watcher obeys, and leaves the watcher bound. -/
def IsBinding (D : Discipline) : Prop :=
  ∀ w, D.keeps w → ∀ value,
    (w.body w.memory value).Obeys D fun memory => D.keeps { w with memory := memory }

/-- Everything is allowed. -/
def free (linked : Bool) : Discipline := ⟨linked, fun _ => True, fun _ => True⟩

/-- Every script obeys the free discipline. -/
theorem obeys_free (linked : Bool) (script : Script) :
    script.Obeys (free linked) fun _ => True := by
  induction script with
  | finish outcome memory => trivial
  | perform op next ih => exact ⟨trivial, ih⟩
  | look next ih => exact fun d => ih d linked
  | note entry next ih => exact ih
  | watch id attr memory body next _ ih => exact ⟨trivial, ih⟩

/-- The free discipline binds. -/
theorem isBinding_free (linked : Bool) : (free linked).IsBinding :=
  fun _ _ _ => obeys_free linked _

/-- A statement on the events of the application that were taken so far, the document and the
    queue, which every allowed operation keeps, and every event that is taken. -/
structure Carries (D : Discipline) (J : List Event → Document → Queue → Prop) : Prop where
  perform : ∀ {sent d queue op}, D.allowed op → J sent d queue →
    J sent (d.perform op).2.1
      (queue ++ (d.perform op).2.2.map fun event => (event, op.origin))
  take : ∀ {sent d event rest}, J sent d (event :: rest) → J (sent ++ Scene.own event) d rest

end Discipline

namespace Scene

variable {D : Discipline} {J : List Event → Document → Queue → Prop}

/-- The statement holds in the scene, and all watchers are bound. -/
structure Upholds (D : Discipline) (J : Document → Queue → Prop) (s : Scene) : Prop where
  linked : s.live.isLinked = D.linked
  matter : J s.live.document s.live.queue
  bound : ∀ w ∈ s.live.watchers, D.keeps w

/-- The scene after an allowed operation. -/
theorem Upholds.enqueue (hJ : D.Carries J) {sent : List Event} {s : Scene}
    (h : s.Upholds D (J sent)) {op : Operation} (hop : D.allowed op) :
    (s.enqueue op).2.Upholds D (J sent) :=
  ⟨h.linked, hJ.perform hop h.matter, h.bound⟩

/-- The scene with one more bound watcher. -/
theorem Upholds.addWatcher {sent : List Event} {s : Scene} (h : s.Upholds D (J sent))
    {w : Watcher} (hw : D.keeps w) : (s.addWatcher w).Upholds D (J sent) := by
  refine ⟨h.linked, h.matter, fun v hv => ?_⟩
  rcases List.mem_append.mp hv with hv | hv
  · exact h.bound v hv
  · exact List.mem_singleton.mp hv ▸ hw

/-- The scene with other bound watchers. -/
theorem Upholds.withWatchers {sent : List Event} {s : Scene} (h : s.Upholds D (J sent))
    {watchers : List Watcher} (hw : ∀ w ∈ watchers, D.keeps w) :
    (s.withWatchers watchers).Upholds D (J sent) :=
  ⟨h.linked, h.matter, hw⟩

/-- The scene with an event taken from the queue. -/
theorem Upholds.take (hJ : D.Carries J) {sent : List Event} {s : Scene}
    (h : s.Upholds D (J sent)) {event : Event × Origin} {rest : Queue}
    (hq : s.live.queue = event :: rest) : (s.take rest).Upholds D (J (sent ++ own event)) := by
  have hmatter := h.matter
  rw [hq] at hmatter
  exact ⟨h.linked, hJ.take hmatter, h.bound⟩

/-- A scene with the same data, and what is told beside it. -/
theorem Upholds.of_live {sent : List Event} {s t : Scene} (h : s.Upholds D (J sent))
    (hl : t.live = s.live) : t.Upholds D (J sent) := by
  refine ⟨?_, ?_, ?_⟩
  · rw [hl]
    exact h.linked
  · rw [hl]
    exact h.matter
  · rw [hl]
    exact h.bound

/-! ### One script -/

/-- **Step.** The statement holds wherever an obedient script passes. -/
theorem passes_upholds (hJ : D.Carries J) {sent : List Event} {remembers : Json → Prop}
    {script : Script} {s t : Scene} (ho : script.Obeys D remembers)
    (h : s.Upholds D (J sent)) (hp : script.Passes (fun op s => s.enqueue op) s t) :
    t.Upholds D (J sent) := by
  -- By induction on the way the script has come; what is left of it obeys, too.
  induction hp with
  | here => exact h
  | perform _ ih => exact ih (ho.2 _) (h.enqueue hJ ho.1)
  | look _ ih =>
    -- Whether the document is linked is all that a script sees beside the document.
    refine ih ?_ h
    rw [h.linked]
    exact ho _
  | note _ ih => exact ih ho (h.of_live rfl)
  | watch _ ih => exact ih ho.2 (h.addWatcher ho.1)

/-- An obedient script remembers what it should. -/
theorem run_remembers {remembers : Json → Prop} {script : Script} {s : Scene}
    (ho : script.Obeys D remembers) (hl : s.live.isLinked = D.linked) :
    remembers (script.run (fun op s => s.enqueue op) s).1.2 := by
  induction script generalizing s with
  | finish outcome memory => exact ho
  | perform op next ih => exact ih _ (ho.2 _) hl
  | look next ih =>
    refine ih _ _ ?_ hl
    rw [hl]
    exact ho _
  | note entry next ih => exact ih ho hl
  | watch id attr memory body next _ ih => exact ih ho.2 hl

/-! ### The watchers of an event -/

/-- A bound watcher keeps the statement and stays bound. -/
theorem runWatcher_upholds (hD : D.IsBinding) (hJ : D.Carries J) {sent : List Event} {s : Scene}
    (h : s.Upholds D (J sent)) (id attr : String) (value : Json) {w : Watcher}
    (hw : D.keeps w) :
    (s.runWatcher id attr value w).2.Upholds D (J sent) ∧
      D.keeps (s.runWatcher id attr value w).1 := by
  by_cases hit : w.id = id ∧ w.attr = attr
  · rw [runWatcher_hit hit]
    have ho := hD w hw value
    have hrun := passes_upholds hJ ho h (Script.passes_run _ _ s)
    exact ⟨hrun.of_live (told_live _ _ _ _), run_remembers ho h.linked⟩
  · rw [runWatcher_miss hit]
    exact ⟨h, hw⟩

/-- Bound watchers keep the statement and stay bound. -/
theorem runEach_upholds (hD : D.IsBinding) (hJ : D.Carries J) {sent : List Event} {s : Scene}
    (h : s.Upholds D (J sent)) (id attr : String) (value : Json) {watchers : List Watcher}
    (hw : ∀ w ∈ watchers, D.keeps w) :
    (s.runEach id attr value watchers).2.Upholds D (J sent) ∧
      ∀ w ∈ (s.runEach id attr value watchers).1, D.keeps w := by
  induction watchers generalizing s with
  | nil => exact ⟨h, fun w hw => absurd hw (List.not_mem_nil)⟩
  | cons w rest ih =>
    obtain ⟨hone, hkept⟩ := runWatcher_upholds hD hJ h id attr value (hw w List.mem_cons_self)
    obtain ⟨hlast, hothers⟩ := ih hone fun v hv => hw v (List.mem_cons_of_mem _ hv)
    refine ⟨hlast, fun v hv => ?_⟩
    rcases List.mem_cons.mp hv with rfl | hv
    · exact hkept
    · exact hothers v hv

/-- The statement holds wherever the watchers of an event pass. -/
theorem watchersPass_upholds (hD : D.IsBinding) (hJ : D.Carries J) {sent : List Event}
    {s t : Scene} {id attr : String} {value : Json} {watchers : List Watcher}
    (hp : WatchersPass id attr value watchers s t) (h : s.Upholds D (J sent))
    (hw : ∀ w ∈ watchers, D.keeps w) : t.Upholds D (J sent) := by
  induction hp with
  | here => exact h
  | inside _ hpassed =>
    exact passes_upholds hJ (hD _ (hw _ List.mem_cons_self) value) h hpassed
  | later _ ih =>
    -- The watchers before those that are passed have run as a whole.
    exact ih (runWatcher_upholds hD hJ h id attr value (hw _ List.mem_cons_self)).1
      fun v hv => hw v (List.mem_cons_of_mem _ hv)

/-- The watchers of an event keep the statement. -/
theorem react_upholds (hD : D.IsBinding) (hJ : D.Carries J) {sent : List Event} {s : Scene}
    (h : s.Upholds D (J sent)) (event : Event) : (s.react event).Upholds D (J sent) := by
  cases event with
  | modelChanged id attr value =>
    rw [react, runWatchers_eq]
    have hbare : (s.withWatchers []).Upholds D (J sent) := h.withWatchers (by simp)
    obtain ⟨hlast, hkept⟩ := runEach_upholds hD hJ hbare id attr value h.bound
    -- The watchers afterwards are those that ran and those that they have set.
    refine hlast.withWatchers fun w hw => ?_
    rcases List.mem_append.mp hw with hw | hw
    · exact hkept w hw
    · exact hlast.bound w hw
  | _ => exact h

/-! ### A cycle -/

/-- **Run.** The statement holds wherever a cycle passes. -/
theorem cyclePasses_upholds (hD : D.IsBinding) (hJ : D.Carries J) (sent : List Event)
    {budget : Nat} {s t : Scene} (hp : CyclePasses budget s t) (h : s.Upholds D (J sent)) :
    ∃ later, t.Upholds D (J later) := by
  induction hp generalizing sent with
  | here => exact ⟨sent, h⟩
  | inside hq hpassed =>
    -- In the middle of a script the event counts as taken.
    have htaken := h.take hJ hq
    exact ⟨_, watchersPass_upholds hD hJ hpassed (htaken.withWatchers (by simp)) htaken.bound⟩
  | later hq _ ih => exact ih _ (react_upholds hD hJ (h.take hJ hq) _)

/-- **Run.** The statement holds behind the last event at which watchers run. -/
theorem deliver_upholds (hD : D.IsBinding) (hJ : D.Carries J) (budget : Nat) {s : Scene}
    {sent : List Event} (h : s.Upholds D (J sent)) :
    (deliver budget s).2.Upholds D (J (sent ++ (deliver budget s).1)) := by
  induction budget generalizing s sent with
  | zero => simpa [deliver] using h
  | succ budget ih =>
    rw [deliver]
    split
    · simpa using h
    · rename_i first rest hq
      -- The event is sent before what is sent later, so it moves to the events so far.
      have hlast := ih (react_upholds hD hJ (h.take hJ hq) first.1)
      rw [List.append_assoc] at hlast
      exact hlast

/-- Events at which no watcher runs are taken all the same. -/
theorem carries_flush (hJ : D.Carries J) {sent : List Event} {d : Document} {queue : Queue}
    (h : J sent d queue) : J (sent ++ queue.flatMap own) d [] := by
  induction queue generalizing sent with
  | nil => simpa using h
  | cons event rest ih =>
    have hrest := ih (hJ.take h)
    rw [List.append_assoc] at hrest
    simpa using hrest

/-- The statement holds at the end of a cycle if it holds behind the last event at which watchers
    run. -/
theorem cycleEnd_upholds (hJ : D.Carries J) {sent : List Event} {s : Scene}
    (h : s.cycleLast.Upholds D (J sent)) :
    s.cycleEnd.Upholds D (J (sent ++ s.cycleLast.live.queue.flatMap own)) := by
  refine ⟨?_, ?_, ?_⟩
  · rw [cycleEnd_live]
    exact h.linked
  · -- The queue may hold events at which no watcher has run: the limit was reached.
    rw [cycleEnd_live]
    exact carries_flush hJ h.matter
  · rw [cycleEnd_live]
    exact h.bound

/-- **Cycle.** At the end of a cycle the statement holds of all events of the application and an
    empty queue. -/
theorem cycle_upholds (hD : D.IsBinding) (hJ : D.Carries J) (sent : List Event) {s : Scene}
    (h : s.Upholds D (J sent)) : s.cycleEnd.Upholds D (J (sent ++ s.cycleEvents)) := by
  have hlast : s.cycleLast.Upholds D (J (sent ++ (deliver cycleLimit s.begin).1)) :=
    deliver_upholds hD hJ cycleLimit (s := s.begin) ⟨h.linked, h.matter, h.bound⟩
  have hend := cycleEnd_upholds hJ hlast
  rw [List.append_assoc] at hend
  exact hend

/-- **Cycle.** From the start, the statement comes to hold of the events that are forwarded, and the
    watchers at the end are bound. -/
theorem cycle_forwarded (hD : D.IsBinding) (hJ : D.Carries J) {s : Scene}
    (h : s.Upholds D (J [])) :
    J s.cycleEvents s.cycleEnd.live.document [] ∧ ∀ w ∈ s.cycleEnd.live.watchers, D.keeps w := by
  have hend := cycle_upholds hD hJ [] h
  have hmatter := hend.matter
  rw [cycleEnd_queue] at hmatter
  exact ⟨hmatter, hend.bound⟩

end Scene

end DocRelay
