import DocRelay.Proofs.Document.Mutations
import DocRelay.Proofs.Document.Reachable

namespace DocRelay

/-!
# The history of a document

Every operation that is ever performed on a document is a call: those of the host and of the
application, and those of the watchers in the cycles behind them.  A document comes about from an
empty one by its calls, one after the other.

* `Call`, `Call.reply`, `Call.after` — an operation on a document, and what it answers and leaves;
* `Document.Run` — the calls that lead from an empty document to another;
  `Document.Run.exists_at`, `Document.Run.rest` — a run is a run up to each of its calls, and a run
  from there on;
* `Script.calls`, `Scene.reactCalls`, `Scene.cycleCalls`, `Scene.calls` — the calls of a script, of
  the watchers of an event, of a cycle, and of an operation with all that follows from it;
* `LiveDocument.Recorded` — a reachable document with all its calls;
  `LiveDocument.reachable_iff` — every reachable document has its calls;
* `LiveDocument.Recorded.run` — the calls of a document at work are a run.
-/

/-- An operation that is performed on a document. -/
structure Call where
  before : Document
  op : Operation

namespace Call

/-- What the operation answers. -/
def reply (c : Call) : Except Fault Reply := (c.before.perform c.op).1

/-- The document behind the operation. -/
def after (c : Call) : Document := (c.before.perform c.op).2.1

end Call

/-! ### Runs of operations -/

namespace Document

/-- The calls, in order, that lead from an empty document to another.  Its place may change between
    them. -/
inductive Run : List Call → Document → Prop where
  | new (id : String) : Run [] (.empty id)
  | perform {calls : List Call} {d : Document} (op : Operation) (h : Run calls d) :
    Run (calls ++ [⟨d, op⟩]) (d.perform op).2.1
  | relocate {calls : List Call} {d : Document} (l : Option Location) (h : Run calls d) :
    Run calls { d with location := l }

namespace Run

variable {calls first rest : List Call} {d : Document} {c : Call}

/-- **Up to a call** a run is a run. -/
theorem exists_at (h : Run calls d) (hc : calls = first ++ c :: rest) : Run first c.before := by
  induction h generalizing rest with
  | new id => simp at hc
  | @perform earlier d op h ih =>
    -- The call is the last one, or one of those before it.
    rcases List.eq_nil_or_concat rest with rfl | ⟨others, last, rfl⟩
    · obtain ⟨rfl, hlast⟩ := List.append_inj' hc rfl
      obtain rfl := List.singleton_inj.mp hlast
      exact h
    · have hsplit : earlier ++ [⟨d, op⟩] = (first ++ c :: others) ++ [last] := by
        rw [hc]
        simp
      exact ih (List.append_inj' hsplit rfl).1
  | relocate l h ih => exact ih hc

/-- **Behind a call** it is a run with the call. -/
theorem behind (h : Run calls d) (hc : calls = first ++ c :: rest) : Run (first ++ [c]) c.after :=
  (h.exists_at hc).perform c.op

end Run

end Document

/-! ### Calls in order -/

/-- The calls of a watcher's script. -/
def Script.calls : Script → Scene → List Call
  | .finish _ _, _ => []
  | .perform op next, s =>
    ⟨s.live.document, op⟩ :: (next (s.enqueue op).1).calls (s.enqueue op).2
  | .look next, s => (next s.live.document s.live.isLinked).calls s
  | .note entry next, s => next.calls (s.note entry)
  | .watch id attr memory body next, s => next.calls (s.addWatcher ⟨id, attr, memory, body⟩)

namespace Scene

/-- The calls of watchers in turn, when an attribute has a new value. -/
def eachCalls (s : Scene) (id attr : String) (value : Json) : List Watcher → List Call
  | [] => []
  | w :: rest =>
    (if w.id = id ∧ w.attr = attr then (w.body w.memory value).calls s else [])
      ++ (s.runWatcher id attr value w).2.eachCalls id attr value rest

/-- The calls of the watchers of an event. -/
def reactCalls (s : Scene) : Event → List Call
  | .modelChanged id attr value => (s.withWatchers []).eachCalls id attr value s.live.watchers
  | _ => []

/-- The calls in a cycle, while up to `budget` events are taken. -/
def cycleCalls : Nat → Scene → List Call
  | 0, _ => []
  | budget + 1, s =>
    match s.live.queue with
    | [] => []
    | first :: rest =>
      (s.take rest).reactCalls first.1 ++ cycleCalls budget ((s.take rest).react first.1)

/-- The calls in the course of an operation on a document at rest: itself, and those of the watchers
    in the cycle behind it. -/
def calls (s : Scene) (op : Operation) : List Call :=
  ⟨s.live.document, op⟩ :: cycleCalls cycleLimit (s.enqueue op).2.begin

end Scene

/-- A document at work, with all operations that were performed on it since it was empty. -/
inductive LiveDocument.Recorded : List Call → LiveDocument → Prop where
  | new (id : String) : Recorded [] (.ofDocument (.empty id))
  | perform {calls : List Call} {s : Scene} (op : Operation) (h : Recorded calls s.live) :
    Recorded (calls ++ s.calls op) (s.perform op).2.live
  | watch {calls : List Call} {d : LiveDocument} (w : Watcher) (h : Recorded calls d) :
    Recorded calls (d.addWatcher w)
  | link {calls : List Call} {d : LiveDocument} (sink : Sink) (h : Recorded calls d) :
    Recorded calls (d.linkTo sink)
  | relocate {calls : List Call} {d : LiveDocument} (l : Option Location) (h : Recorded calls d) :
    Recorded calls { d with document := { d.document with location := l } }

/-! ### The calls of a document at work are a run -/

variable {calls : List Call}

/-- What a watcher's script does is a run of its calls. -/
theorem Script.run_calls (script : Script) {s : Scene}
    (h : Document.Run calls s.live.document) :
    Document.Run (calls ++ script.calls s)
      (script.run (fun op s => s.enqueue op) s).2.live.document := by
  induction script generalizing s calls with
  | finish outcome memory =>
    rw [Script.calls, List.append_nil]
    exact h
  | perform op next ih =>
    have hrest := ih (s.enqueue op).1 (s := (s.enqueue op).2) (h.perform op)
    rw [List.append_assoc] at hrest
    exact hrest
  | look next ih => exact ih _ _ h
  | note entry next ih => exact ih (s := s.note entry) h
  | watch id attr memory body next _ ih =>
    exact ih (s := s.addWatcher ⟨id, attr, memory, body⟩) h

namespace Scene

/-- What watchers do in turn is a run of their calls. -/
theorem runEach_calls {s : Scene} (id attr : String) (value : Json) (watchers : List Watcher)
    (h : Document.Run calls s.live.document) :
    Document.Run (calls ++ s.eachCalls id attr value watchers)
      (s.runEach id attr value watchers).2.live.document := by
  induction watchers generalizing s calls with
  | nil =>
    rw [eachCalls, List.append_nil]
    exact h
  | cons w rest ih =>
    -- A watcher that is not waiting for the event makes no calls.
    have hone : Document.Run
        (calls ++ if w.id = id ∧ w.attr = attr then (w.body w.memory value).calls s else [])
        (s.runWatcher id attr value w).2.live.document := by
      by_cases hit : w.id = id ∧ w.attr = attr
      · rw [if_pos hit, runWatcher_hit hit]
        dsimp only
        rw [told_live]
        exact Script.run_calls _ h
      · rw [if_neg hit, List.append_nil, runWatcher_miss hit]
        exact h
    have hrest := ih hone
    rw [List.append_assoc] at hrest
    exact hrest

/-- What the watchers of an event do is a run of their calls. -/
theorem react_calls {s : Scene} (event : Event) (h : Document.Run calls s.live.document) :
    Document.Run (calls ++ s.reactCalls event) (s.react event).live.document := by
  cases event with
  | modelChanged id attr value => exact runEach_calls (s := s.withWatchers []) id attr value _ h
  | _ =>
    show Document.Run (calls ++ []) s.live.document
    rw [List.append_nil]
    exact h

/-- What is done while events are taken is a run of the calls. -/
theorem deliver_calls (budget : Nat) {s : Scene} (h : Document.Run calls s.live.document) :
    Document.Run (calls ++ cycleCalls budget s) (deliver budget s).2.live.document := by
  induction budget generalizing s calls with
  | zero =>
    rw [cycleCalls, List.append_nil]
    exact h
  | succ budget ih =>
    rw [cycleCalls, deliver]
    cases s.live.queue with
    | nil =>
      rw [List.append_nil]
      exact h
    | cons first rest =>
      rw [← List.append_assoc]
      exact ih (react_calls (s := s.take rest) first.1 h)

/-- **Operation.** What an operation on a document at rest does, with all that follows from it, is a
    run of its calls. -/
theorem perform_calls {s : Scene} (hs : s.live.Reachable)
    (h : Document.Run calls s.live.document) (op : Operation) :
    Document.Run (calls ++ s.calls op) (s.perform op).2.live.document := by
  have hmade : Document.Run (calls ++ [⟨s.live.document, op⟩]) (s.enqueue op).2.live.document :=
    h.perform op
  have hlast := deliver_calls cycleLimit (s := (s.enqueue op).2.begin) hmade
  rw [List.append_assoc] at hlast
  -- The end of the cycle and the forwarding leave the document alone.
  rw [perform_atRest hs, dispatch_eq, forward_live, cycleEnd_live]
  exact hlast

end Scene

namespace LiveDocument

/-- A document with its calls is reachable. -/
theorem Recorded.reachable {d : LiveDocument} (h : d.Recorded calls) : d.Reachable := by
  induction h with
  | new id => exact .new id
  | perform op _ ih => exact .perform op ih
  | watch w _ ih => exact .watch w ih
  | link sink _ ih => exact .link sink ih
  | relocate l _ ih => exact .relocate l ih

/-- **Every reachable document has its calls.** -/
theorem reachable_iff {d : LiveDocument} : d.Reachable ↔ ∃ calls, Recorded calls d := by
  refine ⟨fun h => ?_, fun ⟨_, h⟩ => h.reachable⟩
  induction h with
  | new id => exact ⟨[], .new id⟩
  | perform op _ ih => exact ih.elim fun _ h => ⟨_, h.perform op⟩
  | watch w _ ih => exact ih.elim fun _ h => ⟨_, h.watch w⟩
  | link sink _ ih => exact ih.elim fun _ h => ⟨_, h.link sink⟩
  | relocate l _ ih => exact ih.elim fun _ h => ⟨_, h.relocate l⟩

/-- **The calls of a document** are a run that leads to it. -/
theorem Recorded.run {d : LiveDocument} (h : Recorded calls d) : Document.Run calls d.document := by
  induction h with
  | new id => exact .new id
  | perform op h ih => exact Scene.perform_calls h.reachable ih op
  | watch w _ ih => exact ih
  | link sink _ ih => exact ih
  | relocate l _ ih => exact ih.relocate l

end LiveDocument

end DocRelay
