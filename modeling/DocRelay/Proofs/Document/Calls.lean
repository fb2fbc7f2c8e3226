import DocRelay.Proofs.Document.Discipline

namespace DocRelay

/-!
# Operations that watchers perform

Which operations are performed in the course of a cycle, and what follows from one of them by the
end of the cycle.

* `Script.Calls`, `Scene.WatchersCall`, `Scene.CycleCalls` — the operations that are performed by a
  script, by the watchers of an event and in a cycle, each with the scene in which it is;
* `Script.Calls.upholds`, `Scene.WatchersCall.upholds`, `Scene.CycleCalls.upholds` — what holds
  behind a call, and is kept by every operation, holds at the end;
* `Scene.CycleCalls.cycle_upholds` — the same for a whole cycle and the events that it sends.
-/

/-- The operations that a script performs, each with the scene in which it is performed, given how
    operations are performed. -/
inductive Script.Calls (perform : Operation → Scene → Except Fault Reply × Scene) :
    Script → Scene → Operation → Scene → Prop where
  /-- The first operation. -/
  | here {op : Operation} {next : Except Fault Reply → Script} {s : Scene} :
    Calls perform (.perform op next) s op s
  | perform {op other : Operation} {next : Except Fault Reply → Script} {s t : Scene}
    (later : Calls perform (next (perform op s).1) (perform op s).2 other t) :
    Calls perform (.perform op next) s other t
  | look {other : Operation} {next : Document → Bool → Script} {s t : Scene}
    (later : Calls perform (next s.live.document s.live.isLinked) s other t) :
    Calls perform (.look next) s other t
  | note {other : Operation} {entry : Json} {next : Script} {s t : Scene}
    (later : Calls perform next (s.note entry) other t) : Calls perform (.note entry next) s other t
  | watch {other : Operation} {id attr : String} {memory : Json} {body : Json → Json → Script}
    {next : Script} {s t : Scene}
    (later : Calls perform next (s.addWatcher ⟨id, attr, memory, body⟩) other t) :
    Calls perform (.watch id attr memory body next) s other t

namespace Scene

/-- The operations that watchers perform when an attribute has a new value, each watcher starting
    where the one before it ended. -/
inductive WatchersCall (id attr : String) (value : Json) :
    List Watcher → Scene → Operation → Scene → Prop where
  | inside {w : Watcher} {rest : List Watcher} {op : Operation} {s t : Scene}
    (hit : w.id = id ∧ w.attr = attr)
    (called : (w.body w.memory value).Calls (fun op s => s.enqueue op) s op t) :
    WatchersCall id attr value (w :: rest) s op t
  | later {w : Watcher} {rest : List Watcher} {op : Operation} {s t : Scene}
    (later : WatchersCall id attr value rest (s.runWatcher id attr value w).2 op t) :
    WatchersCall id attr value (w :: rest) s op t

/-- The operations that watchers perform in a cycle, for up to `budget` events. -/
inductive CycleCalls : Nat → Scene → Operation → Scene → Prop where
  | inside {budget : Nat} {id attr : String} {value : Json} {origin : Origin} {rest : Queue}
    {op : Operation} {s t : Scene}
    (first : s.live.queue = (.modelChanged id attr value, origin) :: rest)
    (called : WatchersCall id attr value s.live.watchers ((s.take rest).withWatchers []) op t) :
    CycleCalls (budget + 1) s op t
  | later {budget : Nat} {event : Event × Origin} {rest : Queue} {op : Operation} {s t : Scene}
    (first : s.live.queue = event :: rest)
    (later : CycleCalls budget ((s.take rest).react event.1) op t) :
    CycleCalls (budget + 1) s op t

end Scene

variable {linked : Bool} {J : List Event → Document → Queue → Prop} {sent : List Event}
  {op : Operation} {s t : Scene}

/-- What holds behind a call of a script holds at the end of the script. -/
theorem Script.Calls.upholds (hJ : (Discipline.free linked).Carries J)
    {script : Script} (h : script.Calls (fun op s => s.enqueue op) s op t)
    (ht : (t.enqueue op).2.Upholds (.free linked) (J sent)) :
    (script.run (fun op s => s.enqueue op) s).2.Upholds (.free linked) (J sent) := by
  -- By induction on the way to the call: the rest of the script starts behind it.
  induction h with
  | here => exact Scene.passes_upholds hJ (Discipline.obeys_free linked _) ht (passes_run _ _ _)
  | perform _ ih => exact ih ht
  | look _ ih => exact ih ht
  | note _ ih => exact ih ht
  | watch _ ih => exact ih ht

namespace Scene

/-- What holds behind a call of a watcher holds behind all watchers. -/
theorem WatchersCall.upholds (hJ : (Discipline.free linked).Carries J) {id attr : String}
    {value : Json} {watchers : List Watcher} (h : WatchersCall id attr value watchers s op t)
    (ht : (t.enqueue op).2.Upholds (.free linked) (J sent)) :
    (s.runEach id attr value watchers).2.Upholds (.free linked) (J sent) := by
  induction h with
  | @inside w rest op s t hit called =>
    have hone : (s.runWatcher id attr value w).2.Upholds (.free linked) (J sent) := by
      rw [runWatcher_hit hit]
      exact (called.upholds hJ ht).of_live (told_live _ _ _ _)
    exact (runEach_upholds (Discipline.isBinding_free linked) hJ hone id attr value
      fun _ _ => trivial).1
  | later _ ih => exact ih ht

/-- What holds behind a call in a cycle holds behind its last event, together with the events of
    the application that are taken from then on. -/
theorem CycleCalls.upholds (hJ : (Discipline.free linked).Carries J) {budget : Nat}
    (h : CycleCalls budget s op t) (ht : (t.enqueue op).2.Upholds (.free linked) (J sent)) :
    ∃ earlier later, (deliver budget s).1 = earlier ++ later ∧
      (deliver budget s).2.Upholds (.free linked) (J (sent ++ later)) := by
  induction h with
  | @inside budget id attr value origin rest op s t first called =>
    have hlast := called.upholds hJ ht
    have hreact : ((s.take rest).react (.modelChanged id attr value)).Upholds (.free linked)
        (J sent) := by
      rw [react, runWatchers_eq]
      exact hlast.withWatchers fun _ _ => trivial
    have hrest := deliver_upholds (Discipline.isBinding_free linked) hJ budget hreact
    rw [deliver, first]
    exact ⟨_, _, rfl, hrest⟩
  | @later budget event rest op s t first _ ih =>
    obtain ⟨earlier, later, hsent, hlast⟩ := ih ht
    rw [deliver, first]
    refine ⟨own event ++ earlier, later, ?_, hlast⟩
    show own event ++ (deliver budget ((s.take rest).react event.1)).1 = _
    rw [hsent, List.append_assoc]

/-- Watchers run only if there are events. -/
theorem CycleCalls.queue_ne_nil {budget : Nat} (h : CycleCalls budget s op t) :
    s.live.queue ≠ [] := by
  cases h with
  | inside first => simp [first]
  | later first => simp [first]

/-- **Cycle.** What holds behind a call holds at the end of the cycle, together with events that
    the cycle sends. -/
theorem CycleCalls.cycle_upholds (hJ : (Discipline.free linked).Carries J)
    (h : CycleCalls cycleLimit s.begin op t)
    (ht : (t.enqueue op).2.Upholds (.free linked) (J sent)) :
    ∃ earlier later, s.cycleEvents = earlier ++ later ∧
      s.cycleEnd.Upholds (.free linked) (J (sent ++ later)) := by
  obtain ⟨earlier, later, hsent, hlast⟩ := h.upholds hJ ht
  have hend := cycleEnd_upholds hJ (s := s) hlast
  refine ⟨earlier, later ++ s.cycleLast.live.queue.flatMap own, ?_, ?_⟩
  · rw [cycleEvents, hsent, List.append_assoc]
  · rw [← List.append_assoc]
    exact hend

end Scene

end DocRelay
