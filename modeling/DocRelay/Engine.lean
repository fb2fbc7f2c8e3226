import DocRelay.Application.Basic
import DocRelay.Source.Basic

namespace DocRelay

/-!
# Engines

An engine installs packages, runs one application, and keeps the document that the application
has filled.

* `Loader`, `Loader.load` — what an engine is made from;
* `Engine.install`, `Engine.execute` — a package, and the application;
* `RenderPayload.ofDocument` — what the host needs to paint a document;
* `Engine.link`, `applyPatch`, `updateLocation` — what the host asks for later.
-/

/-- What an engine is made from. -/
structure Loader where
  /-- The label that progress messages show. -/
  label : String
  source : PackageSource
  registry : Registry

/-- The label of a loader that is given none. -/
def Loader.defaultLabel : String := "native runtime"

/-- What installs packages and runs an application. -/
structure Engine where
  source : PackageSource
  registry : Registry
  environment : Environment
  /-- The document, once the application has filled it. -/
  document : Option LiveDocument
  /-- Where changes of the document are sent once it is linked. -/
  sink : Sink

/-- Makes an engine that sends changes through a sink. -/
def Loader.load (l : Loader) (sink : Sink) : Except Fault Engine :=
  if l.registry.isEmpty then .error .noApplications
  else .ok ⟨l.source, l.registry, .empty, none, sink⟩

/-- The place of the page at which a root is painted. -/
def elementId (root : String) : String := "el-" ++ root

/-- What the host needs to paint a document. -/
def RenderPayload.ofDocument (d : Document) : RenderPayload :=
  let rootIds := Json.arr (d.roots.map .str)
  let places := Table.ofPairs (d.roots.map fun root => (root, Json.str (elementId root)))
  ⟨.obj [(d.id, d.toJson)],
    .arr [.obj [("docid", .str d.id), ("root_ids", rootIds), ("roots", .obj places)]],
    rootIds⟩

/-- What became of an update of the location. -/
inductive LocationUpdate where
  /-- These fields were merged. -/
  | applied (keys : List String)
  /-- The document has no location. -/
  | unavailable
deriving DecidableEq, Repr

namespace Engine

/-- Fetches and installs a package. -/
def install (e : Engine) (spec : PackageSpec) : Except Fault Engine := do
  let bytes ← e.source.fetch spec
  let (_, environment) ← e.environment.install spec bytes
  return { e with environment := environment }

/-- The required packages that are not installed. -/
def missing (e : Engine) (app : ApplicationDescriptor) : List String :=
  app.requires.filter fun name => !e.environment.isInstalled name

/-- The id of a document that is made with a number. -/
def documentId (n : Nat) : String := "doc-" ++ toString n

/-- An empty document for an application. -/
def blankDocument (app : ApplicationDescriptor) (n : Nat) : Document :=
  let d := Document.empty (documentId n)
  if app.location then { d with location := some .blank } else d

/-- What forbids running an application, and else the application. -/
def select (e : Engine) (app : ApplicationDescriptor) : Except ScriptFault Application :=
  if e.document.isSome then .error .alreadyExecuted
  else
    match e.registry.get? app.entry with
    | none => .error (.unknownEntry app.entry)
    | some found =>
      if (e.missing app).isEmpty then .ok found else .error (.missingPackages (e.missing app))

/-- Runs an application on an empty document, which is kept if the application is done.  A number
    is used up even if it is not. -/
def execute (e : Engine) (app : ApplicationDescriptor) (s : Surroundings) :
    Except Fault RenderPayload × Engine × Surroundings :=
  match e.select app with
  | .error fault => (.error (.script fault), e, s)
  | .ok found =>
    -- The application has its own scene: the engine keeps the document only if all went well.
    let n := s.documents + 1
    let scene : Scene := ⟨.ofDocument (blankDocument app n), { s with documents := n }⟩
    match scene.runScript (found.build ⟨app, e.environment⟩) with
    | (.done, after) =>
      (.ok (.ofDocument after.live.document), { e with document := some after.live },
        after.around)
    | (.failed fault, after) => (.error (.script (.failed fault.message)), e, after.around)
    | (.panicked text, after) => (.error (.script (.panicked text)), e, after.around)

/-- There is no document yet. -/
def noDocument : Fault := .patch .notExecuted

/-- Sends the changes of the application to the host from now on. -/
def link (e : Engine) : Except Fault Engine :=
  match e.document with
  | none => .error noDocument
  | some live => .ok { e with document := some (live.linkTo e.sink) }

/-- Applies a patch of the host. -/
def applyPatch (e : Engine) (change : Json) (s : Surroundings) :
    Except Fault Unit × Engine × Surroundings :=
  match e.document with
  | none => (.error noDocument, e, s)
  | some live =>
    let (reply, after) := Scene.perform ⟨live, s⟩ (.applyPatch change .host)
    (reply.map fun _ => (), { e with document := some after.live }, after.around)

/-- Merges an update into the location of the document. -/
def updateLocation (e : Engine) (update : Table Json) : Except Fault LocationUpdate × Engine :=
  match e.document with
  | none => (.error noDocument, e)
  | some live =>
    let (reply, after) := live.document.mergeLocation update
    let kept := { e with document := some { live with document := after } }
    match reply with
    | .error fault => (.error fault, kept)
    | .ok (.merged keys) => (.ok (.applied keys), kept)
    | .ok _ => (.ok .unavailable, kept)

end Engine

end DocRelay
