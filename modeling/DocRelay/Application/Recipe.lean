import DocRelay.Application.Basic

namespace DocRelay

/-!
# Recipes

Applications and watchers that are given as lists of actions.  The actions are taken in order, up
to the first that fails.

* `Expr` — a value that may depend on the document;
* `Action` — an action; watchers hold actions of their own;
* `Action.deed` — what an action amounts to, given the document;
* `Recipe.script`, `Recipe.application` — actions as a script and as an application.
-/

/-- A value that may depend on the document and on the value that a watcher is run for. -/
inductive Expr where
  | literal (value : Json)
  /-- The value that the watcher is run for. -/
  | new
  /-- A list of just that value. -/
  | wrapped
  /-- One more than that value, if it is an integer of 64 bits, and else one. -/
  | successor
  /-- An attribute, or null. -/
  | attribute (id attr : String)

/-- The value, given the document and the value that the watcher is run for. -/
def Expr.eval (d : Document) (new : Json) : Expr → Json
  | .literal value => value
  | .new => new
  | .wrapped => .arr [new]
  | .successor =>
    match new with
    | .int n =>
      if -0x8000000000000000 ≤ n && n < 0x8000000000000000 then .int (n + 1) else .int 1
    | _ => .int 1
  | .attribute id attr => (d.attr? id attr).getD .null

/-- An action of a recipe. -/
inductive Action where
  /-- Performs an operation. -/
  | operate (op : Operation)
  /-- Sets an attribute to the value of an expression. -/
  | setAttr (id attr : String) (value : Expr) (origin : Origin)
  /-- Notes the value of an expression. -/
  | note (value : Expr)
  /-- Sets a watcher.  Each run is noted with the tag, if there is one; after `times` runs the
      watcher does nothing more. -/
  | watch (id attr : String) (tag : Option Json) (times : Option Nat) (actions : List Action)
  /-- Gives up. -/
  | fail (fault : Fault)
  /-- Breaks off. -/
  | panic (text : Option String)
  /-- Sets an attribute to a binding of the manifest, or to a default if there is none. -/
  | bind (key : String) (kind : BindingKind) (default : Json) (id attr : String)
      (origin : Origin)
  /-- Notes an installed package. -/
  | notePackage (name : String)
  /-- Notes the descriptor of the application. -/
  | noteDescriptor
deriving Inhabited

/-- What an action amounts to. -/
inductive Deed where
  | operation (op : Operation)
  | note (entry : Json)
  | watch (id attr : String) (memory : Json) (body : Json → Json → Script)
  | stop (outcome : Outcome)
  /-- There is nothing to do. -/
  | nothing

namespace Recipe

/-- The number of runs that a watcher remembers. -/
def runs : Json → Nat
  | .int n => n.toNat
  | _ => 0

/-- The watcher has been run more often than it is meant to. -/
def isSpent (times : Option Nat) (count : Nat) : Bool :=
  match times with
  | some limit => limit < count
  | none => false

/-- The script with a note of the run of a watcher in front, if the watcher has a tag. -/
def noteRun (tag : Option Json) (new : Json) (script : Script) : Script :=
  match tag with
  | some tag => .note (.obj [("new", new), ("watch", tag)]) script
  | none => script

/-- The script that does a deed, and then goes on. -/
def follow (memory : Json) (deed : Deed) (rest : Script) : Script :=
  match deed with
  | .operation op =>
    .perform op fun reply =>
      match reply with
      | .ok _ => rest
      | .error fault => .finish (.failed fault) memory
  | .note entry => .note entry rest
  | .watch id attr first body => .watch id attr first body rest
  | .stop outcome => .finish outcome memory
  | .nothing => rest

/-- The note of a package. -/
def packageNote (package : Option InstalledPackage) : Json :=
  .obj [("package", (package.map InstalledPackage.toJson).getD .null)]

/-- The deed of a binding. -/
def bindDeed (value : Except Fault (Option Json)) (default : Json) (id attr : String)
    (origin : Origin) : Deed :=
  match value with
  | .ok value => .operation (.setAttr id attr (value.getD default) origin)
  | .error fault => .stop (.failed fault)

mutual

/-- What an action amounts to, given what the application is told, the document, and the value
    that the watcher is run for.  Only applications are told something. -/
def deed (ctx : Option ApplicationContext) (d : Document) (new : Json) : Action → Deed
  | .operate op => .operation op
  | .setAttr id attr value origin => .operation (.setAttr id attr (value.eval d new) origin)
  | .note value => .note (value.eval d new)
  | .watch id attr tag times actions =>
    .watch id attr (.int 0) fun memory new =>
      let count := runs memory + 1
      let memory := Json.int count
      noteRun tag new
        (if isSpent times count then .finish .done memory else script none new memory actions)
  | .fail fault => .stop (.failed fault)
  | .panic text => .stop (.panicked text)
  | .bind key kind default id attr origin =>
    match ctx with
    | some ctx => bindDeed (ctx.binding key kind) default id attr origin
    | none => .nothing
  | .notePackage name =>
    match ctx with
    | some ctx => .note (packageNote (ctx.environment.get? name))
    | none => .nothing
  | .noteDescriptor =>
    match ctx with
    | some ctx => .note (.obj [("descriptor", ctx.descriptor.toJson)])
    | none => .nothing

/-- The actions as a script, which remembers `memory`. -/
def script (ctx : Option ApplicationContext) (new memory : Json) : List Action → Script
  | [] => .finish .done memory
  | action :: rest =>
    .look fun d _ => follow memory (deed ctx d new action) (script ctx new memory rest)

end

/-- The actions as an application. -/
def application (actions : List Action) : Application :=
  ⟨fun ctx => script (some ctx) .null .null actions⟩

/-- Takes one action in a scene outside of any cycle: the reply of an operation, or how the
    action ends. -/
def act (s : Scene) (action : Action) : (Except Outcome Reply) × Scene :=
  match deed none s.live.document .null action with
  | .operation op =>
    match s.perform op with
    | (.ok reply, after) => (.ok reply, after)
    | (.error fault, after) => (.error (.failed fault), after)
  | .note entry => (.ok .done, s.note entry)
  | .watch id attr memory body => (.ok .done, s.addWatcher ⟨id, attr, memory, body⟩)
  | .stop outcome => (.error outcome, s)
  | .nothing => (.ok .done, s)

end Recipe

end DocRelay
