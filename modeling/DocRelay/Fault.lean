import DocRelay.Location.Basic
import DocRelay.Package.InstallFault
import DocRelay.Phase
import DocRelay.Text.Split

namespace DocRelay

/-!
# Faults of a worker

What can go wrong while a worker starts and while it relays messages.

* `PatchFault` — why a patch cannot be applied;
* `ScriptFault` — why an application cannot be run;
* `Fault` — all of them; `Fault.message` gives the wording;
* `Fault.isClosed` — the fault that ends a relay.
-/

/-- Why a patch is no patch. -/
inductive PatchMisfit where
  /-- The payload is blank. -/
  | empty
  /-- The payload is no JSON text. -/
  | malformed (fault : Json.Fault)
  /-- The value is no list of events. -/
  | misfit (cause : Json.Misfit)
deriving DecidableEq, Repr

/-- The wording of the fault. -/
def PatchMisfit.message : PatchMisfit → String
  | .empty => "empty patch payload"
  | .malformed fault => fault.message
  | .misfit cause => "malformed document patch: " ++ (Json.Fault.misfit cause).message

/-- Why a document cannot be changed as asked for. -/
inductive PatchFault where
  | unknownModel (id : String)
  | modelExists (id : String)
  | unknownRoot (id : String)
  /-- There is no document yet. -/
  | notExecuted
  /-- A refusal in the words of the application. -/
  | other (text : String)
deriving DecidableEq, Repr

/-- The wording of the fault. -/
def PatchFault.message : PatchFault → String
  | .unknownModel id => "unknown model '" ++ id ++ "'"
  | .modelExists id => "model '" ++ id ++ "' already exists"
  | .unknownRoot id => "unknown root model '" ++ id ++ "'"
  | .notExecuted => "application has not been executed"
  | .other text => text

/-- Why an application cannot be run. -/
inductive ScriptFault where
  | alreadyExecuted
  | unknownEntry (entry : String)
  /-- Required packages are not installed. -/
  | missingPackages (names : List String)
  /-- The application gave up. -/
  | failed (text : String)
  /-- The application broke off with a message, if the message is a text. -/
  | panicked (text : Option String)
deriving DecidableEq, Repr

/-- The text for work that was broken off. -/
def panicText (text : Option String) : String :=
  text.getD "unknown panic"

/-- The wording of the fault. -/
def ScriptFault.message : ScriptFault → String
  | .alreadyExecuted => "application has already been executed"
  | .unknownEntry entry => "unknown entry point '" ++ entry ++ "'"
  | .missingPackages names => "required packages not installed: " ++ Text.joinText ", " names
  | .failed text => text
  | .panicked text => "application panicked: " ++ panicText text

/-- Why reading or writing lines stopped. -/
inductive StreamFault where
  /-- A line of the input is no UTF-8. -/
  | notUtf8 (fault : Text.Utf8Fault)
  /-- The writer takes no more bytes. -/
  | full
deriving DecidableEq, Repr

/-- The wording of the fault. -/
def StreamFault.message : StreamFault → String
  | .notUtf8 fault => fault.message
  | .full => "writer is full"

/-- What can go wrong in a worker. -/
inductive Fault where
  /-- There is no application to run. -/
  | noApplications
  /-- A package, given by its locator, cannot be installed. -/
  | install (package : String) (cause : InstallFault)
  /-- The application cannot be run. -/
  | script (cause : ScriptFault)
  /-- A patch cannot be decoded. -/
  | badPatch (cause : PatchMisfit)
  /-- A patch cannot be applied. -/
  | patch (cause : PatchFault)
  /-- The location cannot be changed. -/
  | location (cause : LocationFault)
  /-- A phase does not follow the other. -/
  | transition (now next : Phase)
  /-- There can be one rendering only. -/
  | alreadyRendered
  /-- A binding is not of the expected kind. -/
  | binding (cause : Json.Misfit)
  /-- Reading or writing stopped. -/
  | stream (cause : StreamFault)
  /-- A transfer failed, in the words of the application. -/
  | http (text : String)
  /-- The other end of a channel is gone. -/
  | closed (channel : String)
deriving DecidableEq, Repr

namespace Fault

/-- The wording of a fault. -/
def message : Fault → String
  | .noApplications => "Runtime acquisition failed: no applications registered"
  | .install package cause => "Failed to install " ++ package ++ ": " ++ cause.message
  | .script cause => "Script execution failed: " ++ cause.message
  | .badPatch cause => "Patch decode error: " ++ cause.message
  | .patch cause => "Patch apply error: " ++ cause.message
  | .location cause => "Location merge error: " ++ cause.message
  | .transition now next => "Invalid phase transition: " ++ now.name ++ " -> " ++ next.name
  | .alreadyRendered => "Render already posted"
  | .binding cause =>
    "Bundle error: json parsing error: " ++ (Json.Fault.misfit cause).message
  | .stream cause => "IO error: " ++ cause.message
  | .http text => "HTTP error: " ++ text
  | .closed channel => "Channel closed: " ++ channel

/-- The other end of a channel is gone. -/
def isClosed : Fault → Bool
  | .closed _ => true
  | _ => false

end Fault

end DocRelay
