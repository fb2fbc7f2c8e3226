import DocRelay.Proofs.Document.AtRest
import DocRelay.Proofs.Document.Log
import DocRelay.Proofs.Document.Telling
import Mathlib.Data.List.Forall2

namespace DocRelay

/-!
# The loop of a cycle

A cycle is a loop: as long as there are events in the queue it takes the first, runs the watchers
that wait for it, and goes on.  Watchers lengthen the queue, but past `cycleLimit` events none is
run, so the loop ends.

* `Cycle`, `Cycle.next?`, `Cycle.after` — the loop, event by event, with the log of what is done;
  `Cycle.finish` — what is done behind the last event;
* `Cycle.Sound`, `Cycle.Sound.after` — the events taken and those in the queue are the changes that
  were made, and the watchers are those that were set;
* `Cycle.exists_last` — the loop ends, and `Cycle.perform_eq_finish` — an operation does what it
  does;
* `Cycle.Treats` — what is done at one event;
* `Scene.perform_delivers` — every event is taken once, in order, and delivered once to each of the
  watchers that wait for it, unless it comes past the limit; then the document is at rest;
* `Scene.perform_forwards` — what is sent behind it are the changes of the application.
-/

/-- A cycle in its course. -/
structure Cycle where
  /-- The events that were taken from the queue, in order. -/
  taken : Queue
  /-- What was done since the cycle was called for. -/
  log : List LogEntry
  scene : Scene

namespace Cycle

/-- The cycle that an operation calls for. -/
def start (s : Scene) (op : Operation) : Cycle :=
  ⟨[], s.directLog op, (s.enqueue op).2.begin⟩

/-- Takes the next event, if there is one, and runs its watchers, unless the limit is reached. -/
def next? (c : Cycle) : Option Cycle :=
  match c.scene.live.queue with
  | [] => none
  | first :: rest =>
    let scene := c.scene.take rest
    if c.taken.length < cycleLimit then
      some ⟨c.taken ++ [first], c.log ++ scene.reactLog first.1, scene.react first.1⟩
    else some ⟨c.taken ++ [first], c.log, scene⟩

/-- The cycle after a number of events, if there are so many. -/
def after (c : Cycle) : Nat → Option Cycle
  | 0 => some c
  | n + 1 => c.next?.bind fun d => d.after n

/-- The scene behind the last event: the cycle is over, and it is told which events came past the
    limit. -/
def closed (c : Cycle) : Scene :=
  let late := Scene.skipped (c.taken.drop cycleLimit)
  let told := if late.isEmpty then c.scene else c.scene.notify (.cascade late)
  { told with live := { told.live with dispatching := false } }

/-- The end of a cycle: the changes of the application are sent. -/
def finish (c : Cycle) : Scene :=
  c.closed.forward (Scene.ownEvents c.taken)

/-- What is told at the end does not matter to the document. -/
theorem closed_live (c : Cycle) : c.closed.live = { c.scene.live with dispatching := false } := by
  rw [closed]
  dsimp only
  split <;> rfl

/-- Nothing is posted before the changes are sent. -/
theorem closed_outbox (c : Cycle) : c.closed.around.outbox = c.scene.around.outbox := by
  rw [closed]
  dsimp only
  split <;> rfl

/-! ### One event -/

/-- The loop ends where the queue is empty. -/
theorem next?_eq_none_iff {c : Cycle} : c.next? = none ↔ c.scene.live.queue = [] := by
  rw [next?]
  cases c.scene.live.queue with
  | nil => simp
  | cons first rest =>
    dsimp only
    split <;> simp

/-- **Inversion.** An event is taken before the limit, and its watchers run, or past it. -/
theorem next?_cases {c d : Cycle} (h : c.next? = some d) :
    ∃ first rest, c.scene.live.queue = first :: rest ∧
      ((c.taken.length < cycleLimit ∧
        d = ⟨c.taken ++ [first], c.log ++ (c.scene.take rest).reactLog first.1,
          (c.scene.take rest).react first.1⟩) ∨
      (cycleLimit ≤ c.taken.length ∧ d = ⟨c.taken ++ [first], c.log, c.scene.take rest⟩)) := by
  rw [next?] at h
  cases hq : c.scene.live.queue with
  | nil => simp [hq] at h
  | cons first rest =>
    rw [hq] at h
    dsimp only at h
    refine ⟨first, rest, rfl, ?_⟩
    split at h
    · rename_i hlt
      exact .inl ⟨hlt, (Option.some.inj h).symm⟩
    · rename_i hge
      exact .inr ⟨Nat.le_of_not_lt hge, (Option.some.inj h).symm⟩

/-- Behind one event comes the next. -/
theorem after_succ {c d : Cycle} (h : c.next? = some d) (n : Nat) :
    c.after (n + 1) = d.after n := by
  rw [after, h]
  rfl

/-- Events in two parts are taken part by part. -/
theorem after_add {c mid : Cycle} {m : Nat} (h : c.after m = some mid) (n : Nat) :
    c.after (m + n) = mid.after n := by
  induction m generalizing c with
  | zero =>
    obtain rfl : c = mid := Option.some.inj h
    rw [Nat.zero_add]
  | succ m ih =>
    rw [after] at h
    cases hn : c.next? with
    | none => simp [hn] at h
    | some d =>
      rw [hn] at h
      rw [Nat.succ_add, after_succ hn]
      exact ih h

/-! ### Invariant -/

/-- The events that were taken, and those in the queue, are the changes that were made; the watchers
    are those of the beginning and those that were set; and the setting is the same. -/
structure Sound (s : Scene) (c : Cycle) : Prop where
  events : c.taken ++ c.scene.live.queue = LogEntry.changes c.log
  roles : c.scene.live.watchers.map Watcher.role
    = s.live.watchers.map Watcher.role ++ (LogEntry.watchers c.log).map Watcher.role
  setting : s.begin.SameSetting c.scene

/-- A cycle that starts at rest is sound. -/
theorem Sound.start {s : Scene} (h : s.live.Reachable) (op : Operation) : Sound s (start s op) := by
  have hleads := s.enqueue_leads op
  refine ⟨?_, hleads.roles, ⟨rfl, rfl, rfl, rfl⟩⟩
  -- At rest no event is left over, so the queue holds the changes of the operation alone.
  show [] ++ (s.enqueue op).2.live.queue = _
  rw [hleads.queue, h.atRest.1]
  rfl

/-- **Step.** An event that is taken leaves the cycle sound. -/
theorem Sound.next {s : Scene} {c d : Cycle} (hc : c.Sound s) (h : c.next? = some d) :
    d.Sound s := by
  obtain ⟨first, rest, hq, ⟨-, rfl⟩ | ⟨-, rfl⟩⟩ := next?_cases h
  · have hleads := (c.scene.take rest).react_leads first.1
    refine ⟨?_, ?_, ?_⟩
    · dsimp only
      rw [hleads.queue, LogEntry.changes_append, ← hc.events, hq]
      simp [Scene.take]
    · dsimp only
      rw [hleads.roles, LogEntry.watchers_append, List.map_append, ← List.append_assoc, ← hc.roles]
      rfl
    · exact (hc.setting.trans (Scene.take_sameSetting _ rest)).trans (Scene.react_sameSetting _ _)
  · refine ⟨?_, hc.roles, hc.setting.trans (Scene.take_sameSetting _ rest)⟩
    rw [← hc.events, hq]
    exact List.append_assoc _ _ _

/-- **Run.** However many events are taken, the cycle is sound, and their number is right. -/
theorem Sound.after {s : Scene} {c d : Cycle} {n : Nat} (hc : c.Sound s)
    (h : c.after n = some d) : d.Sound s ∧ d.taken.length = c.taken.length + n := by
  induction n generalizing c with
  | zero =>
    obtain rfl : c = d := Option.some.inj h
    exact ⟨hc, rfl⟩
  | succ n ih =>
    rw [Cycle.after] at h
    cases hn : c.next? with
    | none => simp [hn] at h
    | some mid =>
      rw [hn] at h
      obtain ⟨hd, hlength⟩ := ih (hc.next hn) h
      refine ⟨hd, ?_⟩
      have hone : mid.taken.length = c.taken.length + 1 := by
        obtain ⟨first, rest, -, ⟨-, rfl⟩ | ⟨-, rfl⟩⟩ := next?_cases hn <;> simp
      omega

/-! ### The end of the loop -/

/-- Past the limit the queue is emptied, and nothing else is done. -/
theorem after_limit {queue : Queue} {c : Cycle} (hq : c.scene.live.queue = queue)
    (hlimit : cycleLimit ≤ c.taken.length) :
    c.after queue.length = some ⟨c.taken ++ queue, c.log, c.scene.take []⟩ := by
  induction queue generalizing c with
  | nil =>
    obtain ⟨taken, log, ⟨⟨d, watchers, link, queue, dispatching⟩, around⟩⟩ := c
    cases hq
    simp [after, Scene.take]
  | cons first rest ih =>
    have hnext : c.next? = some ⟨c.taken ++ [first], c.log, c.scene.take rest⟩ := by
      rw [next?, hq]
      exact if_neg (Nat.not_lt.mpr hlimit)
    rw [List.length_cons, after_succ hnext, ih rfl (by simp; omega)]
    simp [Scene.take]

/-- Up to the limit the loop does what `Scene.deliver` does. -/
theorem after_deliver {budget : Nat} {c : Cycle} (hc : c.taken.length + budget = cycleLimit) :
    ∃ n mid, c.after n = some mid ∧ mid.scene = (Scene.deliver budget c.scene).2 ∧
      mid.log = c.log ++ c.scene.cycleLog budget ∧
      Scene.ownEvents mid.taken
        = Scene.ownEvents c.taken ++ (Scene.deliver budget c.scene).1 ∧
      mid.taken.length ≤ cycleLimit ∧
      (mid.scene.live.queue = [] ∨ mid.taken.length = cycleLimit) := by
  induction budget generalizing c with
  | zero =>
    exact ⟨0, c, rfl, rfl, (List.append_nil _).symm, (List.append_nil _).symm, by omega,
      .inr (by omega)⟩
  | succ budget ih =>
    rw [Scene.deliver, Scene.cycleLog]
    cases hq : c.scene.live.queue with
    | nil =>
      exact ⟨0, c, rfl, rfl, (List.append_nil _).symm, (List.append_nil _).symm, by omega,
        .inl hq⟩
    | cons first rest =>
      -- The event uses up one step of the loop and one of the budget.
      have hnext : c.next? = some ⟨c.taken ++ [first],
          c.log ++ (c.scene.take rest).reactLog first.1,
          (c.scene.take rest).react first.1⟩ := by
        rw [next?, hq]
        exact if_pos (by omega)
      obtain ⟨n, mid, hmid, hscene, hlog, hown, hle, hend⟩ :=
        ih (c := ⟨c.taken ++ [first], c.log ++ (c.scene.take rest).reactLog first.1,
          (c.scene.take rest).react first.1⟩) (by simp; omega)
      refine ⟨n + 1, mid, (after_succ hnext n).trans hmid, hscene, ?_, ?_, hle, hend⟩
      · rw [hlog, List.append_assoc]
      · rw [hown, Scene.ownEvents, List.flatMap_append, Scene.ownEvents, List.append_assoc]
        simp [Scene.take]

/-- Behind the events that `Scene.deliver` takes, the rest of the queue is taken. -/
theorem exists_after_limit {c : Cycle}
    (h : c.scene.live.queue = [] ∨ c.taken.length = cycleLimit) :
    ∃ n, c.after n = some ⟨c.taken ++ c.scene.live.queue, c.log, c.scene.take []⟩ := by
  rcases h with hq | hlimit
  · refine ⟨0, ?_⟩
    obtain ⟨taken, log, ⟨⟨d, watchers, link, queue, dispatching⟩, around⟩⟩ := c
    cases hq
    simp [after, Scene.take]
  · exact ⟨_, after_limit rfl (by omega)⟩

/-- The changes of the application that were taken are those that a cycle sends. -/
theorem ownEvents_taken {s : Scene} {taken : Queue}
    (hown : Scene.ownEvents taken = (Scene.deliver cycleLimit s.begin).1) :
    Scene.ownEvents (taken ++ s.cycleLast.live.queue) = s.cycleEvents := by
  rw [Scene.ownEvents, List.flatMap_append, Scene.cycleEvents, ← hown]
  rfl

/-- What is done at the end of the loop is what is done at the end of a cycle. -/
theorem finish_eq {s : Scene} {taken : Queue} (log : List LogEntry)
    (hown : Scene.ownEvents taken = (Scene.deliver cycleLimit s.begin).1)
    (hle : taken.length ≤ cycleLimit)
    (hend : s.cycleLast.live.queue = [] ∨ taken.length = cycleLimit) :
    finish ⟨taken ++ s.cycleLast.live.queue, log, s.cycleLast.take []⟩ = s.dispatch := by
  have hlate : (taken ++ s.cycleLast.live.queue).drop cycleLimit = s.cycleLast.live.queue := by
    rcases hend with hq | hlimit
    · rw [hq, List.append_nil]
      exact List.drop_eq_nil_of_le hle
    · rw [← hlimit]
      exact List.drop_left
  rw [Scene.dispatch_eq, finish, ownEvents_taken hown, closed]
  dsimp only
  rw [hlate, Scene.cycleEnd]
  -- The notice that is given, if events came past the limit, is the same.
  generalize s.cycleLast = last
  dsimp only
  split <;> rfl

/-- **The loop ends**, with what an operation and all that follows from it has done. -/
theorem exists_last {s : Scene} (h : s.live.Reachable) (op : Operation) :
    ∃ last, (start s op).after last.taken.length = some last ∧ last.next? = none ∧
      last.log = s.log op ∧ Scene.ownEvents last.taken = (s.enqueue op).2.cycleEvents ∧
      (s.perform op).2 = last.finish := by
  obtain ⟨n, mid, hmid, hscene, hlog, hown, hle, hend⟩ :=
    after_deliver (c := start s op) (Nat.zero_add cycleLimit)
  have hlast : mid.scene = (s.enqueue op).2.cycleLast := hscene
  obtain ⟨m, hflush⟩ := exists_after_limit hend
  refine ⟨⟨mid.taken ++ mid.scene.live.queue, mid.log, mid.scene.take []⟩, ?_,
    next?_eq_none_iff.mpr rfl, hlog, ?_, ?_⟩
  · -- The number of events that were taken is the number of turns.
    have hall := (after_add hmid m).trans hflush
    have hlength := ((Sound.start h op).after hall).2
    rw [hlength]
    exact (congrArg _ (Nat.zero_add _)).trans hall
  · rw [hlast]
    exact ownEvents_taken hown
  · rw [Scene.perform_atRest h, hlast]
    rw [hlast] at hend
    exact (finish_eq _ hown hle hend).symm

/-- Behind the last event the changes that were made have been taken, each once and in order. -/
theorem Sound.taken_eq {s : Scene} {c : Cycle} (hc : c.Sound s) (h : c.next? = none) :
    c.taken = LogEntry.changes c.log := by
  have hevents := hc.events
  rwa [next?_eq_none_iff.mp h, List.append_nil] at hevents

end Cycle

/-! ### Delivery -/

namespace Scene

/-- Calls a watcher with a new value: its script is run, and it is told how it ended. -/
def call (value : Json) (s : Scene) (w : Watcher) : Scene :=
  let result := (w.body w.memory value).run (fun op s => s.enqueue op) s
  result.2.told w.id w.attr result.1.1

/-- Running watchers in turn calls those that wait for the attribute, each once and in order. -/
theorem runEach_eq_foldl (s : Scene) (id attr : String) (value : Json) (watchers : List Watcher) :
    (s.runEach id attr value watchers).2
      = (watchers.filter (Watcher.waitsFor id attr)).foldl (call value) s := by
  induction watchers generalizing s with
  | nil => rfl
  | cons w rest ih =>
    show ((s.runWatcher id attr value w).2.runEach id attr value rest).2 = _
    rw [ih]
    by_cases hit : w.id = id ∧ w.attr = attr
    · rw [List.filter_cons_of_pos (Watcher.waitsFor_iff.mpr hit), runWatcher_hit hit]
      obtain ⟨rfl, rfl⟩ := hit
      rfl
    · rw [List.filter_cons_of_neg (mt Watcher.waitsFor_iff.mp hit), runWatcher_miss hit]

/-- Of a watcher that was called only the memory is another one; the others are as they were. -/
theorem runEach_kept (s : Scene) (id attr : String) (value : Json) (watchers : List Watcher) :
    List.Forall₂ (fun w kept => kept.role = w.role ∧ (w.waitsFor id attr = false → kept = w))
      watchers (s.runEach id attr value watchers).1 := by
  induction watchers generalizing s with
  | nil => exact .nil
  | cons w rest ih =>
    refine .cons ⟨runWatcher_role s id attr value w, fun hmiss => ?_⟩ (ih _)
    have hw : ¬(w.id = id ∧ w.attr = attr) := by simp [← Watcher.waitsFor_iff, hmiss]
    exact congrArg Prod.fst (runWatcher_miss hw s value)

end Scene

/-- What is done at the next event. -/
inductive Cycle.Treats (c next : Cycle) : Prop where
  /-- A new value is delivered before the limit.  Those who wait for it are called, each once and in
      order; then all watchers are as before, with those that were set meanwhile behind them. -/
  | delivered {id attr : String} {value : Json} {origin : Origin} {rest : Queue} {called : Scene}
    {kept : List Watcher}
    (first : c.scene.live.queue = (.modelChanged id attr value, origin) :: rest)
    (early : c.taken.length < cycleLimit)
    (calls : called = (c.scene.live.watchers.filter (Watcher.waitsFor id attr)).foldl
      (Scene.call value) ((c.scene.take rest).withWatchers []))
    (same : List.Forall₂ (fun w after => after.role = w.role ∧
      (w.waitsFor id attr = false → after = w)) c.scene.live.watchers kept)
    (behind : next.scene = called.withWatchers (kept ++ called.live.watchers))
  /-- No watcher is called past the limit, or if the event is of another kind. -/
  | passed {event : Event × Origin} {rest : Queue} (first : c.scene.live.queue = event :: rest)
    (why : cycleLimit ≤ c.taken.length ∨ ∀ id attr value, event.1 ≠ .modelChanged id attr value)
    (behind : next.scene = c.scene.take rest)

/-- **Delivery of one event.** -/
theorem Cycle.treats_of_next {c next : Cycle} (h : c.next? = some next) : c.Treats next := by
  obtain ⟨⟨event, origin⟩, rest, hq, ⟨hearly, rfl⟩ | ⟨hlate, rfl⟩⟩ := next?_cases h
  · cases event with
    | modelChanged id attr value =>
      have hcalls := Scene.runEach_eq_foldl ((c.scene.take rest).withWatchers []) id attr value
        c.scene.live.watchers
      exact .delivered hq hearly hcalls (Scene.runEach_kept _ id attr value _) rfl
    | _ => exact .passed hq (.inr fun _ _ _ heq => by cases heq) rfl
  · exact .passed hq (.inl hlate) rfl

namespace Scene

/-- **Dispatch ends, delivers once, and leaves the document usable.** -/
theorem perform_delivers {s : Scene} (h : s.live.Reachable) (op : Operation) :
    -- The loop ends, when every change that was made has been taken, each once and in order.
    (∃ last, (Cycle.start s op).after last.taken.length = some last ∧ last.next? = none ∧
      last.taken = LogEntry.changes (s.log op) ∧ last.log = s.log op ∧
      (s.perform op).2 = last.finish) ∧
    -- At every turn the watchers are those that were set so far, and those who wait are called.
    (∀ k c, (Cycle.start s op).after k = some c → c.Sound s ∧ c.taken.length = k ∧
      ∀ next, c.next? = some next → c.Treats next) ∧
    -- Then the document is at rest, and no watcher is lost.
    (s.perform op).2.live.queue = [] ∧ (s.perform op).2.live.dispatching = false ∧
    (s.perform op).2.live.watchers.map Watcher.role
      = s.live.watchers.map Watcher.role ++ (LogEntry.watchers (s.log op)).map Watcher.role := by
  have hsound := Cycle.Sound.start h op
  obtain ⟨last, hlast, hend, hlog, -, hperform⟩ := Cycle.exists_last h op
  obtain ⟨hdone, -⟩ := hsound.after hlast
  refine ⟨⟨last, hlast, hend, hlog ▸ hdone.taken_eq hend, hlog, hperform⟩, fun k c hc => ?_,
    (h.perform op).atRest.1, (h.perform op).atRest.2, ?_⟩
  · obtain ⟨hc', hlength⟩ := hsound.after hc
    exact ⟨hc', hlength.trans (Nat.zero_add k), fun next hn => Cycle.treats_of_next hn⟩
  · rw [hperform, Cycle.finish, forward_live, Cycle.closed_live, ← hlog]
    exact hdone.roles

/-- A watcher puts another root in the place of its model, and breaks off: three events are taken,
    after which the watcher waits as before. -/
theorem perform_delivers_watched :
    let s := LiveDocument.watched
    let op := Operation.setAttr "m1" "value" (.int 5) .host
    s.live.Reachable ∧
      (∃ last, (Cycle.start s op).after 3 = some last ∧ last.next? = none ∧
        (s.perform op).2 = last.finish) ∧
      (s.perform op).2.live.queue = [] ∧ (s.perform op).2.live.dispatching = false ∧
      (s.perform op).2.live.watchers.map Watcher.role = s.live.watchers.map Watcher.role := by
  intro s op
  have hs : s.live.Reachable := LiveDocument.watched_reachable
  obtain ⟨⟨last, hlast, hend, htaken, -, hperform⟩, -, hqueue, hrest, hroles⟩ :=
    perform_delivers hs op
  have hthree : (LogEntry.changes (s.log op)).length = 3 := by decide +kernel
  have hnone : (LogEntry.watchers (s.log op)).length = 0 := by decide +kernel
  rw [htaken, hthree] at hlast
  rw [List.eq_nil_of_length_eq_zero hnone] at hroles
  exact ⟨hs, ⟨last, hlast, hend, hperform⟩, hqueue, hrest, hroles.trans (List.append_nil _)⟩

/-! ### Forwarding -/

/-- Changes of an operation are told with values in canonical form, whoever makes them. -/
theorem enqueue_isTidy {s : Scene} (h : s.live.queue = []) (op : Operation) :
    ∀ event ∈ ownEvents (s.enqueue op).2.live.queue, event.IsTidy := by
  have hqueue : (s.enqueue op).2.live.queue
      = (s.live.document.perform op).2.2.map fun event => (event, op.origin) := by
    show s.live.queue ++ _ = _
    rw [h]
    rfl
  intro event he
  rw [hqueue] at he
  cases ho : op.origin with
  | host =>
    rw [ho, ownEvents_host] at he
    cases he
  | runtime =>
    rw [ho, ownEvents_runtime] at he
    exact s.live.document.perform_told_isTidy op event he

/-- **Exact forwarding.** Behind an operation on a linked document one patch is posted, and it holds
    the changes that the application made in the course of the operation, each once and in the order
    in which they were made; if there are none, nothing is posted. -/
theorem perform_forwards {s : Scene} (h : s.live.Reachable) {sink : Sink}
    (hl : s.live.link = some sink) (ho : s.around.outbox.isOpen = true)
    (hr : s.around.outbox.isRendered = true) (op : Operation) :
    let made := ownEvents (LogEntry.changes (s.log op))
    let after := (s.perform op).2
    (made = [] → after.around.outbox = s.around.outbox) ∧
    (made ≠ [] → after.around.outbox.posted = s.around.outbox.posted ++
      [.patch (Patch.toJson made) (after.live.document.referencedBuffers made)
        (Outbox.patchId (s.around.nextPatch sink))]) ∧
    Patch.decode (Patch.toJson made) = .ok made := by
  intro made after
  obtain ⟨last, hlast, hend, hlog, hevents, hperform⟩ := Cycle.exists_last h op
  obtain ⟨hdone, -⟩ := (Cycle.Sound.start h op).after hlast
  have hmade : made = ownEvents last.taken := by
    rw [hdone.taken_eq hend, hlog]
  have hafter : after = last.closed.forward made := by
    rw [hmade]
    exact hperform
  -- Watchers have changed neither the link nor the outbox, in which nothing is posted so far.
  have hbox : last.closed.around.outbox = s.around.outbox :=
    last.closed_outbox.trans hdone.setting.outbox
  have hlink : last.closed.live.link = some sink := by
    rw [Cycle.closed_live]
    exact hdone.setting.link.trans hl
  refine ⟨fun hnone => ?_, fun hsome => ?_, ?_⟩
  · rw [hafter, hnone, forward_nil, hbox]
  · rw [hafter, forward_live, forward_linked hlink (hbox ▸ ho) (hbox ▸ hr) hsome]
    show last.closed.around.outbox.posted ++ [.patch _ _ (Outbox.patchId
      (last.closed.around.outbox.counters.getD sink.index 1))] = _
    rw [hbox]
    rfl
  · rw [hmade, hevents]
    exact Patch.decode_toJson (cycleEvents_isTidy (enqueue_isTidy h.atRest.1 op))

/-- A watched document that is linked to a host, which has seen the rendering. -/
def heard : Scene :=
  ⟨LiveDocument.watched.live.linkTo ⟨0⟩,
    { Surroundings.empty with outbox := ⟨true, true, [], [1]⟩ }⟩

/-- The host sets a value, which is not sent back to it; that a watcher adds a root and removes one
    is sent, though the watcher broke off. -/
theorem perform_forwards_heard :
    let op := Operation.setAttr "m1" "value" (.int 5) .host
    let sent := Patch.toJson [.rootAdded ⟨"m2", "Div", []⟩, .rootRemoved "m1"]
    heard.live.Reachable ∧ heard.live.link = some ⟨0⟩ ∧ heard.around.outbox.isOpen = true ∧
      heard.around.outbox.isRendered = true ∧
      ∃ made buffers, (heard.perform op).2.around.outbox.posted
          = [.patch (Patch.toJson made) buffers (Outbox.patchId 1)] ∧
        (Patch.toJson made).same sent = true ∧ Patch.decode (Patch.toJson made) = .ok made := by
  intro op sent
  have hs : heard.live.Reachable := .link _ LiveDocument.watched_reachable
  have hlink : heard.live.link = some ⟨0⟩ := rfl
  have hsent : (Patch.toJson (ownEvents (LogEntry.changes (heard.log op)))).same sent = true := by
    decide +kernel
  have hsome : ownEvents (LogEntry.changes (heard.log op)) ≠ [] := fun hnone => by
    rw [hnone] at hsent
    exact absurd hsent (by decide +kernel)
  obtain ⟨-, hposted, hread⟩ := perform_forwards hs hlink rfl rfl op
  exact ⟨hs, hlink, rfl, rfl, _, _, hposted hsome, hsent, hread⟩

end Scene

end DocRelay
