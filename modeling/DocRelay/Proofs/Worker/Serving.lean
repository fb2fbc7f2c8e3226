import DocRelay.Proofs.Worker.Stages

namespace DocRelay

/-!
# What the tasks of serving come to

Whichever task gets on first, what a worker still comes to with the messages that are still to come
is the same before and after.  There is always something left to do until all is done, and it gets
less with every step.

* `Progress.complete`, `Serving.toCome` — what a worker still comes to;
* `Serving.Reads`, `Serving.Advances` — steps of the reading, and steps at which nothing is written;
* `Serving.outcome`, `Serving.step_outcome` — how the worker ends and what is written in all, which
  no step changes;
* `Serving.size`, `Serving.step_size` — a bound on the steps that are left;
* `Serving.exists_step`, `Serving.exists_runs_isDone` — the tasks never wait for each other in vain,
  and so get to the end.
-/

open Transport

/-! ### What a worker still comes to -/

namespace Setup

/-- The messages are relayed, if there is a relay. -/
def relays (messages : List InboundMessage) (whole : Except Fault Relay × Setup) :
    Except Fault Unit × Setup :=
  match whole with
  | (.ok r, st) => (.ok (), { st with around := (r.run st.around messages).2.2 })
  | (.error fault, st) => (.error fault, st)

theorem run_eq_relays (loader : Loader) (messages : List InboundMessage) (st : Setup) :
    st.run loader messages = relays messages (st.bootstrap loader) := by
  unfold run
  generalize st.bootstrap loader = whole
  obtain ⟨reply, after⟩ := whole
  cases reply <;> rfl

theorem relays_behind (messages : List InboundMessage) (whole : Except Fault Relay × Setup)
    (past : Past) :
    relays messages (whole.1, whole.2.behind past)
      = ((relays messages whole).1, (relays messages whole).2.behind past) := by
  obtain ⟨reply, after⟩ := whole
  cases reply with
  | error fault => rfl
  | ok r =>
    have hrun : r.run (after.behind past).around messages = _ :=
      r.run_behind after.around past messages
    dsimp only [relays]
    rw [hrun]
    rfl

end Setup

namespace Progress

/-- What a worker still comes to with the messages. -/
def complete (loader : Loader) (messages : List InboundMessage) (st : Setup) :
    Progress → Except Fault Unit × Setup
  | .settingUp stage => Setup.relays messages (st.fromStage loader stage)
  | .relaying r => Setup.relays messages (.ok r, st)
  | .ended result => (result, st)

/-- **Frame.** What a worker still comes to does not depend on the past. -/
theorem complete_behind (loader : Loader) (messages : List InboundMessage) (st : Setup)
    (p : Progress) (past : Past) :
    p.complete loader messages (st.behind past)
      = ((p.complete loader messages st).1, (p.complete loader messages st).2.behind past) := by
  cases p with
  | settingUp stage =>
    rw [complete, Setup.fromStage_behind]
    exact Setup.relays_behind messages _ past
  | relaying r => exact Setup.relays_behind messages (.ok r, st) past
  | ended result => rfl

/-- A setup that has got further comes to the same. -/
theorem complete_of_leads {loader : Loader} {whole : Except Fault Relay × Setup}
    {p : Progress × Setup} (h : Setup.Leads loader whole p) (messages : List InboundMessage) :
    p.1.complete loader messages p.2 = Setup.relays messages whole := by
  cases h with
  | settingUp onward => rw [complete, onward]
  | relaying ready => rw [ready]; rfl
  | ended failed => rw [failed]; rfl

end Progress

/-! ### What the tasks still come to -/

namespace Reader

/-- The messages that are still to be put into the queue. -/
def ahead : Reader → List InboundMessage
  | .reading unread => (readLines true unread).messages
  | .sending m unread => m :: (readLines true unread).messages
  | .gone => []

/-- A bound on the steps of the reading, and those of the relay that deal with its messages: each
    line is read, put into the queue and dealt with. -/
def steps : Reader → Nat
  | .reading unread => 3 * unread.length + 1
  | .sending _ unread => 3 * unread.length + 3
  | .gone => 0

end Reader

namespace Serving

variable {loader : Loader} {s t : Serving}

/-- What the worker still comes to with the messages that are still to come. -/
def toCome (loader : Loader) (s : Serving) : Except Fault Unit × Setup :=
  s.progress.complete loader (s.inbound ++ s.reader.ahead) s.setup

/-- How the worker ends, and what is written in all. -/
def outcome (loader : Loader) (s : Serving) : Except Fault Unit × Bytes :=
  ((s.toCome loader).1,
    s.written ++ ((s.toCome loader).2.around.outbox.posted.map lineOf).flatten)

/-- A bound on the steps of the reading and the worker that are left. -/
def steps (s : Serving) : Nat :=
  s.reader.steps + s.inbound.length + s.progress.steps s.setup

/-- A bound on the steps that are left: everything that is still to be posted is also written. -/
def size (loader : Loader) (s : Serving) : Nat :=
  (s.toCome loader).2.around.outbox.posted.length + s.steps

/-- A step of the reading. -/
structure Reads (s t : Serving) : Prop where
  going : s.reader ≠ .gone
  progress : t.progress = s.progress
  setup : t.setup = s.setup
  taken : t.taken = s.taken
  written : t.written = s.written
  kept : t.inbound ++ t.reader.ahead = s.inbound ++ s.reader.ahead
  room : s.inbound.length ≤ inboundLimit → t.inbound.length ≤ inboundLimit
  steps : t.reader.steps + t.inbound.length < s.reader.steps + s.inbound.length

/-- A step that changes nothing but the reading, and not what it comes to. -/
theorem reads_of_ahead {reader : Reader} {told : List Notice} (hgoing : s.reader ≠ .gone)
    (hahead : reader.ahead = s.reader.ahead) (hsteps : reader.steps < s.reader.steps) :
    Reads s { s with reader := reader, told := told } :=
  ⟨hgoing, rfl, rfl, rfl, rfl, congrArg _ hahead, id, Nat.add_lt_add_right hsteps _⟩

/-- A line is read. -/
theorem reads_reading {line : Bytes} {unread : List Bytes}
    (next : s.reader = .reading (line :: unread)) : Reads s (s.reading line unread) := by
  have hgoing : s.reader ≠ .gone := by rw [next]; exact Reader.noConfusion
  have hsteps : s.reader.steps = 3 * (unread.length + 1) + 1 := by rw [next]; rfl
  have hahead : s.reader.ahead = (readLines true (line :: unread)).messages := by rw [next]; rfl
  -- What is still to be read are the messages of the lines, and this line has at most one.
  rw [readLines] at hahead
  unfold reading
  cases htext : lineText line with
  | error fault =>
    rw [htext] at hahead
    exact reads_of_ahead hgoing hahead.symm (by rw [hsteps]; exact Nat.succ_pos _)
  | ok text =>
    rw [htext] at hahead
    dsimp only at hahead ⊢
    split at hahead
    · rename_i hblank
      rw [if_pos hblank]
      exact reads_of_ahead hgoing hahead.symm (by rw [hsteps]; simp [Reader.steps])
    · rename_i hblank
      rw [if_neg hblank]
      cases hmessage : InboundMessage.ofText text with
      | error fault =>
        rw [hmessage] at hahead
        exact reads_of_ahead hgoing hahead.symm (by rw [hsteps]; simp [Reader.steps])
      | ok m =>
        rw [hmessage] at hahead
        exact reads_of_ahead hgoing hahead.symm (by rw [hsteps]; simp [Reader.steps]; omega)

/-- The input is over. -/
theorem reads_hangUp (ended : s.reader = .reading []) : Reads s { s with reader := .gone } :=
  reads_of_ahead (by rw [ended]; exact Reader.noConfusion) (by rw [ended]; rfl)
    (by rw [ended]; exact Nat.succ_pos _)

/-- A message is put into the queue. -/
theorem reads_sending {m : InboundMessage} {unread : List Bytes}
    (held : s.reader = .sending m unread) (room : s.inbound.length < inboundLimit) :
    Reads s (s.sending m unread) := by
  refine ⟨by rw [held]; exact Reader.noConfusion, rfl, rfl, rfl, rfl, ?_, fun _ => ?_, ?_⟩
  · rw [held]
    exact List.append_assoc _ _ _
  · show (s.inbound ++ [m]).length ≤ inboundLimit
    rw [List.length_append]
    exact room
  · show 3 * unread.length + 1 + (s.inbound ++ [m]).length < _
    rw [held, List.length_append, List.length_singleton, Reader.steps]
    omega

/-! ### No step changes what the tasks come to -/

theorem Reads.toCome (h : Reads s t) : t.toCome loader = s.toCome loader := by
  unfold Serving.toCome
  rw [h.progress, h.setup, h.kept]

/-- What a worker that gets on comes to. -/
theorem reaching_toCome (s : Serving) (p : Progress × Setup) :
    (s.reaching p).toCome loader
      = p.1.complete loader (s.inbound ++ s.reader.ahead) p.2 := by
  obtain ⟨progress, st⟩ := p
  cases progress <;> rfl

theorem setUp_toCome {stage : Stage} (reached : s.progress = .settingUp stage) :
    (s.reaching (s.setup.step loader stage)).toCome loader = s.toCome loader := by
  rw [reaching_toCome, Progress.complete_of_leads (s.setup.step_leads loader stage), toCome,
    reached]
  rfl

theorem stop_toCome {r : Relay} (reached : s.progress = .relaying r) (nothing : s.inbound = [])
    (gone : s.reader = .gone) :
    (s.reaching (.ended (.ok ()), s.setup)).toCome loader = s.toCome loader := by
  rw [reaching_toCome, toCome, reached, nothing, gone]
  rfl

theorem handling_toCome {r : Relay} {m : InboundMessage} {rest : List InboundMessage}
    (reached : s.progress = .relaying r) (first : s.inbound = m :: rest) :
    (s.handling r m rest).toCome loader = s.toCome loader := by
  have hnow : s.toCome loader = (.ok (), { s.setup with
      around := (r.run s.setup.around (m :: (rest ++ s.reader.ahead))).2.2 }) := by
    rw [toCome, reached, first]
    rfl
  rw [hnow, handling, Relay.run]
  generalize r.handle m s.setup.around = handled
  obtain ⟨reply, relay, after⟩ := handled
  cases reply with
  | ok done => rfl
  | error fault =>
    dsimp only
    split <;> rfl

/-- A worker that gets on leaves the reading and the queue alone, or gives the reading up. -/
theorem reaching_steps_le (s : Serving) (p : Progress × Setup) :
    (s.reaching p).steps ≤ s.reader.steps + s.inbound.length + p.1.steps p.2 := by
  obtain ⟨progress, st⟩ := p
  cases progress with
  | ended result => exact Nat.add_le_add_right (Nat.add_le_add_right (Nat.zero_le _) _) _
  | _ => exact Nat.le_refl _

/-- A relay that has dealt with a message relays on, or ends. -/
theorem handling_eq_reaching (s : Serving) (r : Relay) (m : InboundMessage)
    (rest : List InboundMessage) :
    ∃ p : Progress × Setup,
      s.handling r m rest = reaching { s with inbound := rest, taken := s.taken ++ [m] } p ∧
      p.1.steps p.2 ≤ 1 := by
  unfold handling
  generalize r.handle m s.setup.around = handled
  obtain ⟨reply, relay, after⟩ := handled
  cases reply with
  | ok done => exact ⟨_, rfl, Nat.le_refl 1⟩
  | error fault =>
    dsimp only
    split
    · exact ⟨_, rfl, Nat.zero_le 1⟩
    · exact ⟨_, rfl, Nat.le_refl 1⟩

/-- A step of the reading or the worker: nothing is written, and what is to come is the same. -/
structure Advances (loader : Loader) (s t : Serving) : Prop where
  toCome : t.toCome loader = s.toCome loader
  written : t.written = s.written
  steps : t.steps < s.steps

theorem Reads.advances (h : Reads s t) : Advances loader s t := by
  refine ⟨h.toCome, h.written, ?_⟩
  unfold Serving.steps
  rw [h.progress, h.setup]
  exact Nat.add_lt_add_right h.steps _

theorem reaching_written (s : Serving) (p : Progress × Setup) :
    (s.reaching p).written = s.written := by
  obtain ⟨progress, st⟩ := p
  cases progress <;> rfl

theorem advances_setUp {stage : Stage} (reached : s.progress = .settingUp stage) :
    Advances loader s (s.reaching (s.setup.step loader stage)) := by
  refine ⟨setUp_toCome reached, reaching_written s _, Nat.lt_of_le_of_lt (reaching_steps_le s _) ?_⟩
  unfold steps
  rw [reached]
  exact Nat.add_lt_add_left (s.setup.step_steps loader stage) _

theorem advances_stop {r : Relay} (reached : s.progress = .relaying r) (nothing : s.inbound = [])
    (gone : s.reader = .gone) : Advances loader s (s.reaching (.ended (.ok ()), s.setup)) := by
  refine ⟨stop_toCome reached nothing gone, rfl, Nat.lt_of_le_of_lt (reaching_steps_le s _) ?_⟩
  unfold steps
  rw [reached]
  exact Nat.lt_succ_self _

theorem advances_handling {r : Relay} {m : InboundMessage} {rest : List InboundMessage}
    (reached : s.progress = .relaying r) (first : s.inbound = m :: rest) :
    Advances loader s (s.handling r m rest) := by
  obtain ⟨p, heq, hp⟩ := s.handling_eq_reaching r m rest
  refine ⟨handling_toCome reached first, ?_, ?_⟩
  · rw [heq, reaching_written]
  · rw [heq]
    refine Nat.lt_of_le_of_lt (reaching_steps_le _ _) ?_
    have hinbound : s.inbound.length = rest.length + 1 := congrArg List.length first
    have hprogress : s.progress.steps s.setup = 1 := by rw [reached]; rfl
    dsimp only
    rw [steps, hinbound, hprogress]
    omega

/-- A message that is written was the first in the past. -/
theorem writing_behind {m : OutboundMessage} {rest : List OutboundMessage}
    (first : s.posted = m :: rest) : (s.writing m rest).setup.behind ⟨[m], []⟩ = s.setup := by
  show Setup.mk s.setup.worker { s.setup.around with
    outbox := { s.setup.around.outbox with posted := m :: rest } } = s.setup
  rw [← first]
  rfl

/-- What the tasks come to when a message is written: they have posted it in the past. -/
theorem writing_toCome {m : OutboundMessage} {rest : List OutboundMessage}
    (first : s.posted = m :: rest) :
    s.toCome loader
      = (((s.writing m rest).toCome loader).1,
          ((s.writing m rest).toCome loader).2.behind ⟨[m], []⟩) := by
  unfold toCome
  rw [← Progress.complete_behind, writing_behind first]
  rfl

/-- The first message is written. -/
theorem writing_outcome {m : OutboundMessage} {rest : List OutboundMessage}
    (first : s.posted = m :: rest) :
    (s.writing m rest).outcome loader = s.outcome loader := by
  unfold outcome
  rw [writing_toCome first]
  show (_, (s.written ++ lineOf m) ++ _) = (_, s.written ++ (lineOf m ++ _))
  rw [List.append_assoc]
  rfl

/-- A step is one of the reading or the worker, or something is written. -/
theorem Step.advances_or_writes (h : Step loader s t) :
    Advances loader s t ∨ ∃ m rest, s.posted = m :: rest ∧ t = s.writing m rest := by
  cases h with
  | read next => exact .inl (reads_reading next).advances
  | hangUp ended => exact .inl (reads_hangUp ended).advances
  | send held room => exact .inl (reads_sending held room).advances
  | setUp reached => exact .inl (advances_setUp reached)
  | handle reached first => exact .inl (advances_handling reached first)
  | stop reached nothing gone => exact .inl (advances_stop reached nothing gone)
  | write first => exact .inr ⟨_, _, first, rfl⟩

/-- **Step.** How the worker ends and what is written in all is the same before and after every
    step. -/
theorem step_outcome (h : Step loader s t) : t.outcome loader = s.outcome loader := by
  rcases h.advances_or_writes with hadvances | ⟨m, rest, first, rfl⟩
  · unfold outcome
    rw [hadvances.toCome, hadvances.written]
  · exact writing_outcome first

/-- **Step.** Every step leaves less to do. -/
theorem step_size (h : Step loader s t) : t.size loader < s.size loader := by
  rcases h.advances_or_writes with hadvances | ⟨m, rest, first, rfl⟩
  · unfold size
    rw [hadvances.toCome]
    exact Nat.add_lt_add_left hadvances.steps _
  · unfold size
    rw [writing_toCome first]
    exact Nat.add_lt_add_right (Nat.lt_succ_self _) s.steps

/-- **Run.** How the worker ends and what is written in all is the same at all times, and a run
    has no more steps than were left at its start. -/
theorem Runs.outcome {n : Nat} (h : Runs loader n s t) :
    t.outcome loader = s.outcome loader ∧ n + t.size loader ≤ s.size loader := by
  induction h with
  | here => exact ⟨rfl, Nat.le_of_eq (Nat.zero_add _)⟩
  | step _ last ih =>
    obtain ⟨houtcome, hsize⟩ := ih
    refine ⟨(step_outcome last).trans houtcome, ?_⟩
    have hless := step_size last
    omega

/-- **Progress.** As long as the worker has not ended or something is not written, there is a
    step: the reading waits for room only while there are messages to deal with, and the relay for
    messages only while the reading goes on. -/
theorem exists_step (loader : Loader) (h : ¬s.IsDone) : ∃ t, Step loader s t := by
  cases hposted : s.posted with
  | cons m rest => exact ⟨_, .write hposted⟩
  | nil =>
    cases hprogress : s.progress with
    | settingUp stage => exact ⟨_, .setUp hprogress⟩
    | ended result => exact absurd ⟨⟨result, hprogress⟩, hposted⟩ h
    | relaying r =>
      cases hinbound : s.inbound with
      | cons m rest => exact ⟨_, .handle hprogress hinbound⟩
      | nil =>
        cases hreader : s.reader with
        | gone => exact ⟨_, .stop hprogress hinbound hreader⟩
        | sending m unread =>
          exact ⟨_, .send hreader (by rw [hinbound]; exact Nat.succ_pos _)⟩
        | reading unread =>
          cases unread with
          | nil => exact ⟨_, .hangUp hreader⟩
          | cons line unread => exact ⟨_, .read hreader⟩

/-- **Run.** From everywhere there is a run to the end. -/
theorem exists_runs_isDone (loader : Loader) (s : Serving) :
    ∃ n t, Runs loader n s t ∧ t.IsDone := by
  suffices h : ∀ size n t, Runs loader n s t → t.size loader = size →
      ∃ n t, Runs loader n s t ∧ t.IsDone from h _ 0 s .here rfl
  intro size
  induction size using Nat.strongRecOn with
  | ind size ih =>
    intro n t hruns hsize
    by_cases hdone : t.IsDone
    · exact ⟨n, t, hruns, hdone⟩
    · obtain ⟨u, hstep⟩ := exists_step loader hdone
      exact ih _ (hsize ▸ step_size hstep) (n + 1) u (.step hruns hstep) rfl

end Serving

end DocRelay
