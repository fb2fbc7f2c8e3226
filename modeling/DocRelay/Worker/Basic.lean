import DocRelay.Worker.Relay

namespace DocRelay

/-!
# Workers

A worker sets up an engine phase by phase, posts what it is doing and at last the first
rendering, and then relays messages.

* `Worker`, `Worker.advance` — a worker, and the step to its next phase;
* `Setup` — a worker in its surroundings while it sets up;
* `Worker.bootstrap` — the setup: a relay, or why there is none;
* `Worker.run` — the setup and then the messages of the host.
-/

/-- A worker. -/
structure Worker where
  manifest : WorkerManifest
  phase : Phase

/-- A worker in its surroundings. -/
structure Setup where
  worker : Worker
  around : Surroundings

namespace Worker

/-- A worker that has not started. -/
def ofManifest (m : WorkerManifest) : Worker := ⟨m, .uninitialized⟩

/-- The step to the next phase; no other phase can be reached at once. -/
def advance (w : Worker) (next : Phase) : Except Fault Worker :=
  if w.phase.canAdvanceTo next then .ok { w with phase := next }
  else .error (.transition w.phase next)

end Worker

namespace Setup

/-- Goes on to the next phase. -/
def advance (st : Setup) (next : Phase) : Except Fault Unit × Setup :=
  match st.worker.advance next with
  | .ok w => (.ok (), { st with worker := w })
  | .error fault => (.error fault, st)

/-- Posts something. -/
def post (st : Setup) (message : Outbox → Except Fault Unit × Outbox) :
    Except Fault Unit × Setup :=
  let (reply, outbox) := message st.around.outbox
  (reply, { st with around := { st.around with outbox := outbox } })

/-- What is posted before an engine is made. -/
def loadingText (label : String) : String := "Loading " ++ label

/-- What is posted before a package is installed. -/
def installingText (spec : PackageSpec) : String := "Installing " ++ spec.displayName

/-- What is posted before the application is run. -/
def executingText : String := "Executing code"

/-- Makes an engine. -/
def load (loader : Loader) (st : Setup) : Except Fault Engine × Setup :=
  match st.advance .loadingRuntime with
  | (.error fault, st) => (.error fault, st)
  | (.ok (), st) =>
    match st.post (·.status (loadingText loader.label)) with
    | (.error fault, st) => (.error fault, st)
    | (.ok (), st) =>
      -- There is a sink even if no engine is made of the loader.
      let (sink, outbox) := st.around.outbox.newSink
      (loader.load sink, { st with around := { st.around with outbox := outbox } })

/-- Installs packages in turn. -/
def installEach (e : Engine) (st : Setup) : List PackageSpec → Except Fault Engine × Setup
  | [] => (.ok e, st)
  | spec :: rest =>
    match st.post (·.status (installingText spec)) with
    | (.error fault, st) => (.error fault, st)
    | (.ok (), st) =>
      match e.install spec with
      | .error fault => (.error fault, st)
      | .ok e => installEach e st rest

/-- Installs the packages of the manifest. -/
def install (e : Engine) (st : Setup) : Except Fault Engine × Setup :=
  match st.advance .installingPackages with
  | (.error fault, st) => (.error fault, st)
  | (.ok (), st) => installEach e st st.worker.manifest.packages

/-- Runs the application. -/
def execute (e : Engine) (st : Setup) : Except Fault (RenderPayload × Engine) × Setup :=
  match st.advance .executing with
  | (.error fault, st) => (.error fault, st)
  | (.ok (), st) =>
    match st.post (·.status executingText) with
    | (.error fault, st) => (.error fault, st)
    | (.ok (), st) =>
      let (reply, engine, around) := e.execute st.worker.manifest.application st.around
      (reply.map fun payload => (payload, engine), { st with around := around })

/-- Posts the first rendering. -/
def finish (payload : RenderPayload) (e : Engine) (st : Setup) : Except Fault Relay × Setup :=
  match st.post (·.render payload) with
  | (.error fault, st) => (.error fault, st)
  | (.ok (), st) =>
    match st.advance .ready with
    | (.error fault, st) => (.error fault, st)
    | (.ok (), st) => (.ok (.ofEngine e), st)

/-- All of the setup, up to the first failure. -/
def attempt (loader : Loader) (st : Setup) : Except Fault Relay × Setup :=
  match st.load loader with
  | (.error fault, st) => (.error fault, st)
  | (.ok engine, st) =>
    match st.install engine with
    | (.error fault, st) => (.error fault, st)
    | (.ok engine, st) =>
      match st.execute engine with
      | (.error fault, st) => (.error fault, st)
      | (.ok (payload, engine), st) => st.finish payload engine

/-- Tells and posts a failure of the setup. -/
def report (fault : Fault) (st : Setup) : Setup :=
  -- The failure is told first, as nobody may be there to read the post.
  let st := { st with around := st.around.notify (.setupFailed st.worker.phase fault) }
  match st.post (·.error st.worker.phase fault.message) with
  | (.ok (), st) => st
  | (.error second, st) => { st with around := st.around.notify (.notReported second) }

/-- The setup of a worker that has not started.  A failure is told and posted. -/
def bootstrap (loader : Loader) (st : Setup) : Except Fault Relay × Setup :=
  if st.worker.phase = .uninitialized then
    match st.attempt loader with
    | (.ok relay, st) => (.ok relay, st)
    | (.error fault, st) => (.error fault, st.report fault)
  else (.error (.transition st.worker.phase .loadingRuntime), st)

/-- Sets up and then relays messages, until there are none or nobody listens. -/
def run (loader : Loader) (messages : List InboundMessage) (st : Setup) :
    Except Fault Unit × Setup :=
  match st.bootstrap loader with
  | (.error fault, st) => (.error fault, st)
  | (.ok relay, st) =>
    let (_, _, around) := relay.run st.around messages
    (.ok (), { st with around := around })

end Setup

end DocRelay
