import DocRelay.Proofs.Document.Course

namespace DocRelay

/-!
# Changes aside

Watchers and cycles look at nothing around a document: they only add notes and notices.  A change
of the surroundings that does not touch what is added can as well be made afterwards.

* `Surroundings.IsAside` — such a change; `Scene.altered` — a scene whose surroundings are changed;
* `Script.run_altered` — a script, if the operations allow for it;
* `Scene.react_altered`, `Scene.deliver_altered`, `Scene.cycleEnd_altered` — the watchers of an
  event, and cycles up to the point at which changes are sent.
-/

/-- The change leaves the ends of the lists of notes and notices alone. -/
structure Surroundings.IsAside (f : Surroundings → Surroundings) : Prop where
  notify : ∀ s n, (f s).notify n = f (s.notify n)
  note : ∀ s entry, (f s).note entry = f (s.note entry)

/-- The scene with its surroundings changed. -/
def Scene.altered (s : Scene) (f : Surroundings → Surroundings) : Scene :=
  { s with around := f s.around }

variable {f : Surroundings → Surroundings}

/-- A script does the same after a change aside, if the operations do. -/
theorem Script.run_altered (hf : Surroundings.IsAside f)
    (perform : Operation → Scene → Except Fault Reply × Scene)
    (h : ∀ op s, perform op (s.altered f) = ((perform op s).1, (perform op s).2.altered f))
    (script : Script) (s : Scene) :
    script.run perform (s.altered f)
      = ((script.run perform s).1, (script.run perform s).2.altered f) := by
  induction script generalizing s with
  | finish outcome memory => rfl
  | perform op next ih =>
    rw [run, h]
    exact ih _ _
  | look next ih => exact ih _ _ s
  | note entry next ih =>
    have hnote : (s.altered f).note entry = (s.note entry).altered f :=
      congrArg (Scene.mk s.live) (hf.note s.around entry)
    rw [run, hnote]
    exact ih (s.note entry)
  | watch id attr memory body next _ ih => exact ih (s.addWatcher ⟨id, attr, memory, body⟩)

namespace Scene

theorem notify_altered (hf : Surroundings.IsAside f) (s : Scene) (n : Notice) :
    (s.altered f).notify n = (s.notify n).altered f :=
  congrArg (Scene.mk s.live) (hf.notify s.around n)

theorem told_altered (hf : Surroundings.IsAside f) (s : Scene) (id attr : String)
    (outcome : Outcome) :
    (s.altered f).told id attr outcome = (s.told id attr outcome).altered f := by
  cases outcome with
  | done => rfl
  | failed fault => exact notify_altered hf s _
  | panicked text => exact notify_altered hf s _

theorem runWatcher_altered (hf : Surroundings.IsAside f) (s : Scene) (id attr : String)
    (value : Json) (w : Watcher) :
    (s.altered f).runWatcher id attr value w
      = ((s.runWatcher id attr value w).1, (s.runWatcher id attr value w).2.altered f) := by
  by_cases hit : w.id = id ∧ w.attr = attr
  · rw [runWatcher_hit hit, runWatcher_hit hit]
    dsimp only
    rw [Script.run_altered hf (fun op s => s.enqueue op) (fun _ _ => rfl), told_altered hf]
  · rw [runWatcher_miss hit, runWatcher_miss hit]

theorem runEach_altered (hf : Surroundings.IsAside f) (s : Scene) (id attr : String)
    (value : Json) (watchers : List Watcher) :
    (s.altered f).runEach id attr value watchers
      = ((s.runEach id attr value watchers).1,
          (s.runEach id attr value watchers).2.altered f) := by
  induction watchers generalizing s with
  | nil => rfl
  | cons w rest ih =>
    rw [runEach, runWatcher_altered hf]
    dsimp only
    rw [ih]
    rfl

/-- The watchers of an event do the same after a change aside. -/
theorem react_altered (hf : Surroundings.IsAside f) (s : Scene) (event : Event) :
    (s.altered f).react event = (s.react event).altered f := by
  cases event with
  | modelChanged id attr value =>
    have hbare : (s.altered f).withWatchers [] = (s.withWatchers []).altered f := rfl
    have hlive : (s.altered f).live = s.live := rfl
    rw [react, react, runWatchers_eq, runWatchers_eq, hbare, hlive, runEach_altered hf]
    rfl
  | rootAdded added => rfl
  | rootRemoved id => rfl
  | titleChanged title => rfl

/-- The same events are delivered after a change aside. -/
theorem deliver_altered (hf : Surroundings.IsAside f) (budget : Nat) (s : Scene) :
    deliver budget (s.altered f) = ((deliver budget s).1, (deliver budget s).2.altered f) := by
  induction budget generalizing s with
  | zero => rfl
  | succ budget ih =>
    have hlive : (s.altered f).live = s.live := rfl
    rw [deliver, deliver, hlive]
    cases hq : s.live.queue with
    | nil => rfl
    | cons first rest =>
      have htaken : Scene.mk { s.live with queue := rest } (s.altered f).around
          = (s.take rest).altered f := rfl
      dsimp only
      rw [htaken, react_altered hf, ih]
      rfl

/-- **A cycle** has the same end after a change aside, and the same changes are to be sent. -/
theorem cycleEnd_altered (hf : Surroundings.IsAside f) (s : Scene) :
    (s.altered f).cycleEnd = s.cycleEnd.altered f ∧
      (s.altered f).cycleEvents = s.cycleEvents := by
  have hlast := deliver_altered hf cycleLimit s.begin
  have hbegin : (s.altered f).begin = s.begin.altered f := rfl
  unfold cycleEnd cycleEvents cycleLast
  rw [hbegin, hlast]
  generalize deliver cycleLimit s.begin = delivered
  refine ⟨?_, rfl⟩
  dsimp only
  rw [show (delivered.2.altered f).live = delivered.2.live from rfl]
  split
  · rfl
  · rw [notify_altered hf]
    rfl

end Scene

end DocRelay
