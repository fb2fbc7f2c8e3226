import DocRelay.Document.Dispatch

namespace DocRelay

/-!
# The course of a cycle

While a cycle is under way, the watchers perform operations on the document.  This module says
which scenes they pass through, and what no script can reach.

* `Script.Passes`, `Scene.WatchersPass`, `Scene.CyclePasses`, `Scene.PerformPasses` — the scenes
  passed by a script, by the watchers of an event, by a cycle, and by an operation at rest;
* `Script.passes_run` — a script ends in a scene that it passes;
* `Scene.SameSetting` — the link, the outbox and the flag of the cycle are as they were;
  `Scene.deliver_sameSetting` — watchers leave them alone;
* `Scene.cycleEvents`, `Scene.cycleEnd`, `Scene.dispatch_eq` — a cycle is its events, its end, and
  one forwarding.
-/

/-- Events that are not yet dealt with, with those who made the changes. -/
abbrev Queue := List (Event × Origin)

/-! ### Scenes that are passed -/

/-- The scenes that a script passes through, given how operations are performed. -/
inductive Script.Passes (perform : Operation → Scene → Except Fault Reply × Scene) :
    Script → Scene → Scene → Prop where
  /-- The scene in which it starts, or goes on. -/
  | here {script : Script} {s : Scene} : Passes perform script s s
  | perform {op : Operation} {next : Except Fault Reply → Script} {s t : Scene}
    (later : Passes perform (next (perform op s).1) (perform op s).2 t) :
    Passes perform (.perform op next) s t
  | look {next : Document → Bool → Script} {s t : Scene}
    (later : Passes perform (next s.live.document s.live.isLinked) s t) :
    Passes perform (.look next) s t
  | note {entry : Json} {next : Script} {s t : Scene}
    (later : Passes perform next (s.note entry) t) : Passes perform (.note entry next) s t
  | watch {id attr : String} {memory : Json} {body : Json → Json → Script} {next : Script}
    {s t : Scene} (later : Passes perform next (s.addWatcher ⟨id, attr, memory, body⟩) t) :
    Passes perform (.watch id attr memory body next) s t

/-- A script ends in a scene that it passes. -/
theorem Script.passes_run (perform : Operation → Scene → Except Fault Reply × Scene)
    (script : Script) (s : Scene) : script.Passes perform s (script.run perform s).2 := by
  induction script generalizing s with
  | finish outcome memory => exact .here
  | perform op next ih => exact .perform (ih _ _)
  | look next ih => exact .look (ih _ _ _)
  | note entry next ih => exact .note (ih _)
  | watch id attr memory body next _ ih => exact .watch (ih _)

namespace Scene

/-- The scene with the first event taken from the queue. -/
def take (s : Scene) (rest : Queue) : Scene :=
  { s with live := { s.live with queue := rest } }

/-- The scene with other watchers. -/
def withWatchers (s : Scene) (watchers : List Watcher) : Scene :=
  { s with live := { s.live with watchers := watchers } }

/-- The scene with a cycle under way. -/
def begin (s : Scene) : Scene :=
  { s with live := { s.live with dispatching := true } }

/-- The scenes that watchers pass through when an attribute has a new value: those of the scripts
    that wait for it, each starting where the one before it ended. -/
inductive WatchersPass (id attr : String) (value : Json) : List Watcher → Scene → Scene → Prop where
  | here {watchers : List Watcher} {s : Scene} : WatchersPass id attr value watchers s s
  | inside {w : Watcher} {rest : List Watcher} {s t : Scene} (hit : w.id = id ∧ w.attr = attr)
    (passed : (w.body w.memory value).Passes (fun op s => s.enqueue op) s t) :
    WatchersPass id attr value (w :: rest) s t
  | later {w : Watcher} {rest : List Watcher} {s t : Scene}
    (later : WatchersPass id attr value rest (s.runWatcher id attr value w).2 t) :
    WatchersPass id attr value (w :: rest) s t

/-- The scenes that a cycle passes through while it runs watchers, for up to `budget` events. -/
inductive CyclePasses : Nat → Scene → Scene → Prop where
  | here {budget : Nat} {s : Scene} : CyclePasses budget s s
  | inside {budget : Nat} {id attr : String} {value : Json} {origin : Origin} {rest : Queue}
    {s t : Scene} (first : s.live.queue = (.modelChanged id attr value, origin) :: rest)
    (passed : WatchersPass id attr value s.live.watchers ((s.take rest).withWatchers []) t) :
    CyclePasses (budget + 1) s t
  | later {budget : Nat} {event : Event × Origin} {rest : Queue} {s t : Scene}
    (first : s.live.queue = event :: rest)
    (later : CyclePasses budget ((s.take rest).react event.1) t) : CyclePasses (budget + 1) s t

/-- The scenes that an operation on a document at rest passes through. -/
inductive PerformPasses (s : Scene) (op : Operation) : Scene → Prop where
  /-- The change is made, and is not dealt with yet. -/
  | made : PerformPasses s op (s.enqueue op).2
  | cycle {t : Scene} (passed : CyclePasses cycleLimit (s.enqueue op).2.begin t) :
    PerformPasses s op t
  /-- Everything that follows from the change is done. -/
  | done : PerformPasses s op (s.perform op).2

end Scene

/-! ### What watchers leave alone -/

/-- The link, the flag of the cycle, the outbox and the number of documents are as they were. -/
structure Scene.SameSetting (s t : Scene) : Prop where
  link : t.live.link = s.live.link
  dispatching : t.live.dispatching = s.live.dispatching
  outbox : t.around.outbox = s.around.outbox
  documents : t.around.documents = s.around.documents

namespace Scene

theorem SameSetting.refl (s : Scene) : s.SameSetting s := ⟨rfl, rfl, rfl, rfl⟩

theorem SameSetting.trans {s t u : Scene} (hst : s.SameSetting t) (htu : t.SameSetting u) :
    s.SameSetting u :=
  ⟨htu.link.trans hst.link, htu.dispatching.trans hst.dispatching, htu.outbox.trans hst.outbox,
    htu.documents.trans hst.documents⟩

theorem enqueue_sameSetting (s : Scene) (op : Operation) : s.SameSetting (s.enqueue op).2 :=
  ⟨rfl, rfl, rfl, rfl⟩

theorem note_sameSetting (s : Scene) (entry : Json) : s.SameSetting (s.note entry) :=
  ⟨rfl, rfl, rfl, rfl⟩

theorem notify_sameSetting (s : Scene) (n : Notice) : s.SameSetting (s.notify n) :=
  ⟨rfl, rfl, rfl, rfl⟩

theorem addWatcher_sameSetting (s : Scene) (w : Watcher) : s.SameSetting (s.addWatcher w) :=
  ⟨rfl, rfl, rfl, rfl⟩

theorem take_sameSetting (s : Scene) (rest : Queue) : s.SameSetting (s.take rest) :=
  ⟨rfl, rfl, rfl, rfl⟩

theorem withWatchers_sameSetting (s : Scene) (watchers : List Watcher) :
    s.SameSetting (s.withWatchers watchers) :=
  ⟨rfl, rfl, rfl, rfl⟩

/-- The script of a watcher leaves the setting alone, wherever it passes. -/
theorem passes_sameSetting {script : Script} {s t : Scene}
    (h : script.Passes (fun op s => s.enqueue op) s t) : s.SameSetting t := by
  induction h with
  | here => exact .refl _
  | perform _ ih => exact (enqueue_sameSetting _ _).trans ih
  | look _ ih => exact ih
  | note _ ih => exact (note_sameSetting _ _).trans ih
  | watch _ ih => exact (addWatcher_sameSetting _ _).trans ih

/-- What is told of how a watcher's script ended. -/
def told (s : Scene) (id attr : String) : Outcome → Scene
  | .done => s
  | .failed fault => s.notify (.watcherFailed id attr fault)
  | .panicked text => s.notify (.watcherPanicked id attr text)

@[simp] theorem told_live (s : Scene) (id attr : String) (outcome : Outcome) :
    (s.told id attr outcome).live = s.live := by
  cases outcome <;> rfl

theorem told_sameSetting (s : Scene) (id attr : String) (outcome : Outcome) :
    s.SameSetting (s.told id attr outcome) := by
  cases outcome
  · exact .refl s
  · exact notify_sameSetting _ _
  · exact notify_sameSetting _ _

/-- A watcher that waits for the attribute runs its script and keeps what the script remembers. -/
theorem runWatcher_hit {w : Watcher} {id attr : String} (hit : w.id = id ∧ w.attr = attr)
    (s : Scene) (value : Json) :
    s.runWatcher id attr value w =
      let r := (w.body w.memory value).run (fun op s => s.enqueue op) s
      ({ w with memory := r.1.2 }, r.2.told id attr r.1.1) := by
  rw [runWatcher, if_pos (by simpa using hit)]
  dsimp only
  -- A script that is done, failed or broke off: its memory is kept all the same.
  split <;> rename_i heq <;> rw [heq] <;> rfl

/-- A watcher of something else is passed over. -/
theorem runWatcher_miss {w : Watcher} {id attr : String} (miss : ¬(w.id = id ∧ w.attr = attr))
    (s : Scene) (value : Json) : s.runWatcher id attr value w = (w, s) := by
  rw [runWatcher, if_neg (by simpa using miss)]

theorem runWatcher_sameSetting (s : Scene) (id attr : String) (value : Json) (w : Watcher) :
    s.SameSetting (s.runWatcher id attr value w).2 := by
  by_cases hit : w.id = id ∧ w.attr = attr
  · rw [runWatcher_hit hit]
    exact (passes_sameSetting (Script.passes_run _ _ s)).trans (told_sameSetting _ _ _ _)
  · rw [runWatcher_miss hit]
    exact .refl s

theorem runEach_sameSetting (s : Scene) (id attr : String) (value : Json)
    (watchers : List Watcher) : s.SameSetting (s.runEach id attr value watchers).2 := by
  induction watchers generalizing s with
  | nil => exact .refl s
  | cons w rest ih => exact (runWatcher_sameSetting s id attr value w).trans (ih _)

/-- Running the watchers of an attribute: each in turn, and then those that were set meanwhile
    behind them. -/
theorem runWatchers_eq (s : Scene) (id attr : String) (value : Json) :
    s.runWatchers id attr value =
      let r := (s.withWatchers []).runEach id attr value s.live.watchers
      r.2.withWatchers (r.1 ++ r.2.live.watchers) := rfl

theorem react_sameSetting (s : Scene) (event : Event) : s.SameSetting (s.react event) := by
  cases event with
  | modelChanged id attr value =>
    -- The watchers are taken away, run one by one, and put back.
    rw [react, runWatchers_eq]
    exact ((withWatchers_sameSetting s []).trans (runEach_sameSetting _ _ _ _ _)).trans
      (withWatchers_sameSetting _ _)
  | _ => exact .refl s

/-- Watchers leave the setting alone, wherever they pass. -/
theorem watchersPass_sameSetting {id attr : String} {value : Json} {watchers : List Watcher}
    {s t : Scene} (h : WatchersPass id attr value watchers s t) : s.SameSetting t := by
  induction h with
  | here => exact .refl _
  | inside _ passed => exact passes_sameSetting passed
  | later _ ih => exact (runWatcher_sameSetting _ _ _ _ _).trans ih

/-- A cycle that is under way stays so, and leaves the link and the outbox alone. -/
theorem cyclePasses_sameSetting {budget : Nat} {s t : Scene} (h : CyclePasses budget s t) :
    s.SameSetting t := by
  induction h with
  | here => exact .refl _
  | inside _ passed =>
    exact ((take_sameSetting _ _).trans (withWatchers_sameSetting _ _)).trans
      (watchersPass_sameSetting passed)
  | later _ _ ih => exact ((take_sameSetting _ _).trans (react_sameSetting _ _)).trans ih

/-- **Frame.** While a cycle deals with events, the link, its flag and the outbox stay. -/
theorem deliver_sameSetting (budget : Nat) (s : Scene) : s.SameSetting (deliver budget s).2 := by
  induction budget generalizing s with
  | zero => exact .refl s
  | succ budget ih =>
    rw [deliver]
    split
    · exact .refl s
    · rename_i first rest hq
      exact ((take_sameSetting s rest).trans (react_sameSetting _ _)).trans (ih _)

/-! ### A cycle as a whole -/

/-- The scene behind the last event at which watchers run. -/
def cycleLast (s : Scene) : Scene :=
  (deliver cycleLimit s.begin).2

/-- The changes of the application in a cycle, in order. -/
def cycleEvents (s : Scene) : List Event :=
  -- What is left in the queue when the limit is reached is sent too, though no watcher has run.
  (deliver cycleLimit s.begin).1 ++ s.cycleLast.live.queue.flatMap own

/-- The end of a cycle, before its changes are sent. -/
def cycleEnd (s : Scene) : Scene :=
  let last := s.cycleLast
  let told :=
    if (skipped last.live.queue).isEmpty then last
    else last.notify (.cascade (skipped last.live.queue))
  { told with live := { told.live with queue := [], dispatching := false } }

/-- **A cycle** deals with all events and then sends those of the application. -/
theorem dispatch_eq (s : Scene) : s.dispatch = s.cycleEnd.forward s.cycleEvents := by
  unfold dispatch cycleEnd cycleEvents cycleLast begin
  -- The events that were dealt with are of no concern here, and there may be many.
  generalize deliver cycleLimit _ = delivered
  rfl

/-- At its end a cycle has left the data as it was behind the last event at which watchers ran. -/
theorem cycleEnd_live (s : Scene) :
    s.cycleEnd.live = { s.cycleLast.live with queue := [], dispatching := false } := by
  rw [cycleEnd]
  generalize s.cycleLast = last
  dsimp only
  split <;> rfl

/-- At its end a cycle has dealt with the queue. -/
theorem cycleEnd_queue (s : Scene) : s.cycleEnd.live.queue = [] := by
  rw [cycleEnd_live]

/-- Nothing is posted before a cycle ends. -/
theorem cycleEnd_outbox (s : Scene) : s.cycleEnd.around.outbox = s.around.outbox := by
  have h : s.cycleEnd.around.outbox = s.cycleLast.around.outbox := by
    rw [cycleEnd]
    generalize s.cycleLast = last
    dsimp only
    split <;> rfl
  rw [h]
  exact (deliver_sameSetting cycleLimit s.begin).outbox

/-- A cycle does not change where changes are sent. -/
theorem cycleEnd_link (s : Scene) : s.cycleEnd.live.link = s.live.link := by
  rw [cycleEnd_live]
  -- Watchers cannot link the document, and emptying the queue does not either.
  exact (deliver_sameSetting cycleLimit s.begin).link

end Scene

end DocRelay
