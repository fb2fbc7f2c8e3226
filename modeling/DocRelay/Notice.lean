import DocRelay.Fault
import DocRelay.Message.Buffer
import DocRelay.Text.Quoted

namespace DocRelay

/-!
# Notices

What a worker tells those who run it, beside what it posts to the host.

* `Notice` — the occasions;
* `Notice.level`, `Notice.message` — how serious it is, and the wording.
-/

/-- The most events of one cycle at which watchers run. -/
def cycleLimit : Nat := 1024

/-- An occasion for a notice. -/
inductive Notice where
  /-- A watcher gave up. -/
  | watcherFailed (id attr : String) (fault : Fault)
  /-- A watcher broke off. -/
  | watcherPanicked (id attr : String) (text : Option String)
  /-- A cycle had too many events; the watchers of these models were not run. -/
  | cascade (ids : List String)
  /-- A patch was sent before the rendering. -/
  | patchDropped
  /-- A patch could not be sent. -/
  | notForwarded (fault : Fault)
  /-- The host said more than once that it has painted the document. -/
  | renderedAgain
  /-- A message could not be dealt with. -/
  | notHandled (kind : String) (fault : Fault)
  /-- The setup failed in a phase. -/
  | setupFailed (phase : Phase) (fault : Fault)
  /-- The failure of the setup could not be posted. -/
  | notReported (fault : Fault)
  /-- A line is no message. -/
  | lineSkipped (fault : MessageFault)
  /-- Reading stopped. -/
  | readingStopped (fault : Fault)
  /-- Writing stopped. -/
  | writingStopped (fault : Fault)
deriving DecidableEq, Repr

/-- How serious a notice is. -/
inductive Level where
  | warn
  | error
deriving DecidableEq, Repr

/-- The name of a level. -/
def Level.name : Level → String
  | .warn => "warn"
  | .error => "error"

namespace Notice

/-- How serious a notice is. -/
def level : Notice → Level
  | .cascade _ => .error
  | .setupFailed _ _ => .error
  | _ => .warn

/-- The set of the ids, which are given in order. -/
def idSet (ids : List String) : String :=
  "\x7b" ++ Text.joinText ", " (ids.map Text.quoted) ++ "\x7d"

/-- The wording of a notice. -/
def message : Notice → String
  | .watcherFailed id attr fault =>
    "Watcher on " ++ id ++ "." ++ attr ++ " failed: " ++ fault.message
  | .watcherPanicked id attr text =>
    "Watcher on " ++ id ++ "." ++ attr ++ " panicked: " ++ panicText text
  | .cascade ids =>
    "Watcher cascade exceeded " ++ toString cycleLimit ++ " events; watchers not run for models "
      ++ idSet ids
  | .patchDropped => "Dropping patch offered before render"
  | .notForwarded fault => "Failed to forward document patch: " ++ fault.message
  | .renderedAgain => "Ignoring duplicate rendered message"
  | .notHandled kind fault => "Failed to handle " ++ kind ++ " message: " ++ fault.message
  | .setupFailed phase fault =>
    "Worker bootstrap failed during " ++ phase.name ++ ": " ++ fault.message
  | .notReported fault => "Could not report bootstrap failure: " ++ fault.message
  | .lineSkipped fault => "Skipping malformed host message: " ++ fault.message
  | .readingStopped fault => "Stopped reading host messages: " ++ fault.message
  | .writingStopped fault => "Stopped writing worker messages: " ++ fault.message

end Notice

end DocRelay
