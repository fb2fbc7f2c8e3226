import DocRelay.Application.Preview
import DocRelay.Bundle
import DocRelay.Source.Http
import DocRelay.Worker.Transport

/-!
# The command line

Runs the bundled worker: the messages of the host are lines of the standard input, those of the
worker lines of the standard output, and notices go to the standard error.  This build opens no
connection, so its network refuses every address.
-/

namespace DocRelay.Main

/-- A network that refuses every address. -/
def refuse (url : String) : Except TransferFault HttpResponse :=
  .error (.unreachable url)

/-- What the engine of a manifest is made from. -/
def loader (m : WorkerManifest) : Loader :=
  ⟨m.worker.runtime, (HttpSource.ofIndex refuse HttpSource.defaultIndex).toSource,
    Preview.registry⟩

/-- What may be asked for on the command line. -/
inductive Command where
  | serve (verbose : Bool)
  | help
  | unknown (argument : String)

/-- What the arguments ask for. -/
def command : List String → Command
  | [] => .serve false
  | "-v" :: rest | "--verbose" :: rest =>
    match command rest with
    | .serve _ => .serve true
    | other => other
  | "-h" :: _ | "--help" :: _ => .help
  | argument :: _ => .unknown argument

/-- How the command is used. -/
def usage : String := "Usage: docsync-worker [--verbose]"

/-- Tells the notices and writes the messages that came out: the surroundings without them. -/
def flushOutput (output errors : IO.FS.Stream) (s : Surroundings) : IO Surroundings := do
  for notice in s.notices do
    errors.putStrLn (notice.level.name ++ ": " ++ notice.message)
  let (posted, outbox) := s.outbox.drain
  for message in posted do
    output.putStrLn message.toLine
  output.flush
  return { s with outbox := outbox, notes := [], notices := [] }

/-- Relays line after line, until the input ends or nobody listens. -/
partial def relayLines (input output errors : IO.FS.Stream) (r : Relay) (s : Surroundings) :
    IO Unit := do
  let line ← input.getLine
  if line.isEmpty then return ()
  let intake := Transport.readMessages true (Text.utf8 line)
  let told := { s with notices := s.notices ++ intake.notices }
  let (_, relay, after) := r.run told intake.messages
  relayLines input output errors relay (← flushOutput output errors after)

/-- Sets the worker of a manifest up and relays: the exit code. -/
def serve (m : WorkerManifest) (input output errors : IO.FS.Stream) (verbose : Bool) :
    IO UInt32 := do
  if verbose then
    errors.putStrLn ("Starting worker " ++ m.worker.name)
  let (reply, setup) := Setup.bootstrap (loader m) ⟨.ofManifest m, .empty⟩
  let around ← flushOutput output errors setup.around
  match reply with
  | .error fault =>
    errors.putStrLn ("Worker stopped: " ++ fault.message)
    return 1
  | .ok relay =>
    relayLines input output errors relay around
    if verbose then errors.putStrLn "Host closed the connection"
    return 0

end DocRelay.Main

/-- Runs the bundled worker on the standard streams. -/
def main (arguments : List String) : IO UInt32 := do
  let errors ← IO.getStderr
  match DocRelay.Main.command arguments with
  | .unknown argument =>
    errors.putStrLn ("unexpected argument '" ++ argument ++ "' found\n" ++ DocRelay.Main.usage)
    return 2
  | .help =>
    (← IO.getStdout).putStrLn DocRelay.Main.usage
    return 0
  | .serve verbose =>
    match DocRelay.Bundle.manifest with
    | .error _ =>
      errors.putStrLn "bundled worker.toml is invalid"
      return 1
    | .ok m => DocRelay.Main.serve m (← IO.getStdin) (← IO.getStdout) errors verbose
