import DocRelay.Worker.Transport

namespace DocRelay

/-!
# Serving in steps

Three tasks serve a host: one reads its lines and queues their messages, one sets up the worker and
relays what is queued, one writes what is posted.  They take turns in any order.  The queue of the
host's messages has a limit, and the reading waits while it is full; it is given up when the worker
ends first.

* `Stage`, `Setup.step` — how far a setup has come, and its next step;
* `Progress`, `Reader` — how far the worker and the reading have come;
* `Serving` — the tasks with all that is between them; `Serving.start` — before the first step;
* `Serving.Step` — a step of one of the tasks; `Serving.Runs` — so many steps;
* `Serving.IsDone` — the worker has ended, and everything is written.
-/

/-- How far a setup has come. -/
inductive Stage where
  /-- Nothing was done. -/
  | fresh
  /-- The engine is about to be made. -/
  | loading
  /-- The packages that are left are about to be installed. -/
  | preparing (e : Engine) (left : List PackageSpec)
  /-- A package is about to be fetched and installed, and then those that are left. -/
  | installing (e : Engine) (spec : PackageSpec) (left : List PackageSpec)
  /-- The application is about to be run. -/
  | executing (e : Engine)
  /-- The rendering is about to be posted. -/
  | rendering (payload : RenderPayload) (e : Engine)

/-- How far a worker has come. -/
inductive Progress where
  | settingUp (stage : Stage)
  | relaying (r : Relay)
  | ended (result : Except Fault Unit)

namespace Setup

/-- Enters a phase and posts what is done in it. -/
def enter (st : Setup) (phase : Phase) (text : String) : Except Fault Unit × Setup :=
  match st.advance phase with
  | (.error fault, st) => (.error fault, st)
  | (.ok (), st) => st.post (·.status text)

/-- Makes an engine and goes on to its packages. -/
def makeEngine (loader : Loader) (st : Setup) : Except Fault Engine × Setup :=
  let (sink, outbox) := st.around.outbox.newSink
  let made := { st with around := { st.around with outbox := outbox } }
  match loader.load sink with
  | .error fault => (.error fault, made)
  | .ok engine =>
    match made.advance .installingPackages with
    | (.error fault, st) => (.error fault, st)
    | (.ok (), st) => (.ok engine, st)

/-- Runs the application of the manifest. -/
def runApplication (e : Engine) (st : Setup) : Except Fault (RenderPayload × Engine) × Setup :=
  let (reply, engine, around) := e.execute st.worker.manifest.application st.around
  (reply.map fun payload => (payload, engine), { st with around := around })

/-- Goes on with what was reached, unless it failed: then the failure is told and posted, and the
    worker ends. -/
def goOn {α : Type} (reached : Except Fault α × Setup) (next : α → Progress) : Progress × Setup :=
  match reached with
  | (.ok a, st) => (next a, st)
  | (.error fault, st) => (.ended (.error fault), st.report fault)

/-- The next step of a setup: something is posted, or something is done that may take its time. -/
def step (loader : Loader) (st : Setup) : Stage → Progress × Setup
  | .fresh =>
    if st.worker.phase = .uninitialized then
      goOn (st.enter .loadingRuntime (loadingText loader.label)) fun _ => .settingUp .loading
    else (.ended (.error (.transition st.worker.phase .loadingRuntime)), st)
  | .loading =>
    goOn (st.makeEngine loader) fun e => .settingUp (.preparing e st.worker.manifest.packages)
  | .preparing e [] => goOn (st.enter .executing executingText) fun _ => .settingUp (.executing e)
  | .preparing e (spec :: left) =>
    goOn (st.post (·.status (installingText spec))) fun _ => .settingUp (.installing e spec left)
  | .installing e spec left => goOn (e.install spec, st) fun e => .settingUp (.preparing e left)
  | .executing e =>
    goOn (st.runApplication e) fun (payload, engine) => .settingUp (.rendering payload engine)
  | .rendering payload e => goOn (st.finish payload e) .relaying

end Setup

/-- How far the reading has come. -/
inductive Reader where
  /-- These lines are not read yet. -/
  | reading (unread : List Bytes)
  /-- A message was read, and waits for room in the queue. -/
  | sending (m : InboundMessage) (unread : List Bytes)
  /-- The reading is over, or was given up. -/
  | gone

/-- The tasks that serve a host.  What was posted and is not yet written is in the outbox. -/
structure Serving where
  reader : Reader
  /-- What the reading has told. -/
  told : List Notice
  /-- The queue of the messages of the host. -/
  inbound : List InboundMessage
  /-- The messages that the relay has taken from the queue. -/
  taken : List InboundMessage
  progress : Progress
  setup : Setup
  written : Bytes

namespace Serving

open Transport

/-- The most messages that wait in the queue. -/
def inboundLimit : Nat := 64

/-- Nothing was done for the input. -/
def start (manifest : WorkerManifest) (input : Bytes) (s : Surroundings) : Serving :=
  ⟨.reading (rawLines input), [], [], [], .settingUp .fresh, ⟨.ofManifest manifest, s⟩, []⟩

/-- What is posted and not yet written. -/
def posted (s : Serving) : List OutboundMessage := s.setup.around.outbox.posted

/-- A line is read: it is blank, or no message, or a message; or it is no text, and nothing more is
    read. -/
def reading (s : Serving) (line : Bytes) (unread : List Bytes) : Serving :=
  match lineText line with
  | .error fault =>
    { s with reader := .gone, told := s.told ++ [.readingStopped (.stream (.notUtf8 fault))] }
  | .ok text =>
    if Text.isBlankText text then { s with reader := .reading unread }
    else
      match InboundMessage.ofText text with
      | .error fault => { s with reader := .reading unread, told := s.told ++ [.lineSkipped fault] }
      | .ok message => { s with reader := .sending message unread }

/-- A message is put into the queue. -/
def sending (s : Serving) (m : InboundMessage) (unread : List Bytes) : Serving :=
  { s with reader := .reading unread, inbound := s.inbound ++ [m] }

/-- The worker gets on; with its end the reading is given up. -/
def reaching (s : Serving) : Progress × Setup → Serving
  | (.ended result, setup) =>
    { s with reader := .gone, progress := .ended result, setup := setup }
  | (progress, setup) => { s with progress := progress, setup := setup }

/-- The relay deals with a message of the queue.  A failure is told and passed over, unless nobody
    listens any more. -/
def handling (s : Serving) (r : Relay) (m : InboundMessage) (rest : List InboundMessage) :
    Serving :=
  let taken := { s with inbound := rest, taken := s.taken ++ [m] }
  match r.handle m s.setup.around with
  | (.ok (), relay, after) => taken.reaching (.relaying relay, { s.setup with around := after })
  | (.error fault, relay, after) =>
    if fault.isClosed then taken.reaching (.ended (.ok ()), { s.setup with around := after })
    else
      taken.reaching
        (.relaying relay, { s.setup with around := after.notify (.notHandled m.kind fault) })

/-- The first message that was posted is written, and others are left. -/
def writing (s : Serving) (m : OutboundMessage) (rest : List OutboundMessage) : Serving :=
  { s with
    written := s.written ++ lineOf m
    setup := { s.setup with around := { s.setup.around with outbox :=
      { s.setup.around.outbox with posted := rest } } } }

/-- What can happen next. -/
inductive Step (loader : Loader) (s : Serving) : Serving → Prop where
  /-- The next line is read. -/
  | read {line : Bytes} {unread : List Bytes} (next : s.reader = .reading (line :: unread)) :
    Step loader s (s.reading line unread)
  /-- The input is over. -/
  | hangUp (ended : s.reader = .reading []) : Step loader s { s with reader := .gone }
  /-- There is room for a message. -/
  | send {m : InboundMessage} {unread : List Bytes} (held : s.reader = .sending m unread)
    (room : s.inbound.length < inboundLimit) : Step loader s (s.sending m unread)
  /-- The setup gets on. -/
  | setUp {stage : Stage} (reached : s.progress = .settingUp stage) :
    Step loader s (s.reaching (s.setup.step loader stage))
  /-- The relay takes a message. -/
  | handle {r : Relay} {m : InboundMessage} {rest : List InboundMessage}
    (reached : s.progress = .relaying r) (first : s.inbound = m :: rest) :
    Step loader s (s.handling r m rest)
  /-- There is no message and will be none. -/
  | stop {r : Relay} (reached : s.progress = .relaying r) (nothing : s.inbound = [])
    (gone : s.reader = .gone) : Step loader s (s.reaching (.ended (.ok ()), s.setup))
  /-- A message is written. -/
  | write {m : OutboundMessage} {rest : List OutboundMessage} (first : s.posted = m :: rest) :
    Step loader s (s.writing m rest)

/-- So many steps lead from one to the other. -/
inductive Runs (loader : Loader) : Nat → Serving → Serving → Prop where
  | here {s : Serving} : Runs loader 0 s s
  | step {n : Nat} {s t u : Serving} (earlier : Runs loader n s t) (last : Step loader t u) :
    Runs loader (n + 1) s u

/-- The worker has ended, and everything that was posted is written. -/
def IsDone (s : Serving) : Prop :=
  (∃ result, s.progress = .ended result) ∧ s.posted = []

end Serving

end DocRelay
