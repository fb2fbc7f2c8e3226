import DocRelay.Worker.Basic

namespace DocRelay

/-!
# Lines in, lines out

Messages travel as lines of JSON.  A line of the host that is no message is told and passed over,
and so are blank lines; a line that is no text ends the reading.

* `Transport.rawLines`, `Transport.lineText` — the lines of the input;
* `Transport.readMessages` — the messages of the input;
* `Transport.writeMessages` — messages as lines, as far as the writer takes them;
* `Transport.flatten_rawLines`, `Transport.writeMessages_unlimited` — no byte is lost;
* `Transport.serve` — a worker from the lines of the host to the lines for the host.
-/

namespace Transport

/-- The byte that ends a line. -/
def newline : UInt8 := 0x0A

/-- The byte that is dropped right before a newline. -/
def carriageReturn : UInt8 := 0x0D

/-- The lines of the input, each with the newline that ends it; an unended last line counts. -/
def rawLines : Bytes → List Bytes
  | [] => []
  | b :: rest =>
    if b == newline then [b] :: rawLines rest
    else
      match rawLines rest with
      | [] => [[b]]
      | line :: others => (b :: line) :: others

/-- The lines make up the input. -/
@[simp] theorem flatten_rawLines (input : Bytes) : (rawLines input).flatten = input := by
  induction input with
  | nil => rfl
  | cons b rest ih =>
    rw [rawLines]
    split
    · simp [ih]
    · split <;> simp_all

/-- The text without the newline at its end and a carriage return before that. -/
def dropEnding (cs : List Char) : List Char :=
  match cs.reverse with
  | '\n' :: '\r' :: rest => rest.reverse
  | '\n' :: rest => rest.reverse
  | _ => cs

/-- The text of a line. -/
def lineText (line : Bytes) : Except Text.Utf8Fault String :=
  (Text.ofUtf8 line).map fun s => String.ofList (dropEnding s.toList)

/-- What was read of the host's messages. -/
structure Intake where
  messages : List InboundMessage
  notices : List Notice
  /-- What ended the reading before the end of the input. -/
  fault : Option Fault

/-- There is nobody to take a message. -/
def nobodyReads : Fault := .closed "inbound channel"

/-- The messages of lines, for a reader that may be gone. -/
def readLines (isOpen : Bool) : List Bytes → Intake
  | [] => ⟨[], [], none⟩
  | line :: rest =>
    match lineText line with
    | .error fault => ⟨[], [], some (.stream (.notUtf8 fault))⟩
    | .ok text =>
      if Text.isBlankText text then readLines isOpen rest
      else
        match InboundMessage.ofText text with
        | .error fault =>
          let later := readLines isOpen rest
          { later with notices := .lineSkipped fault :: later.notices }
        | .ok message =>
          if isOpen then
            let later := readLines isOpen rest
            { later with messages := message :: later.messages }
          else ⟨[], [], some nobodyReads⟩

/-- The messages of the input, for a reader that may be gone. -/
def readMessages (isOpen : Bool) (input : Bytes) : Intake :=
  readLines isOpen (rawLines input)

/-- How much a writer takes before it refuses. -/
inductive Capacity where
  | unlimited
  | bytes (count : Nat)
  | lines (count : Nat)
deriving DecidableEq, Repr

/-- The bytes of a message on the wire. -/
def lineOf (m : OutboundMessage) : Bytes :=
  Text.utf8 m.toLine ++ [newline]

/-- What a writer takes of a line, and what it takes behind that if it took all of it. -/
def Capacity.take (c : Capacity) (line : Bytes) : Bytes × Option Capacity :=
  match c with
  | .unlimited => (line, some .unlimited)
  | .bytes n =>
    if line.length ≤ n then (line, some (.bytes (n - line.length))) else (line.take n, none)
  | .lines 0 => ([], none)
  | .lines (n + 1) => (line, some (.lines n))

/-- Writes messages as lines: the bytes that were written, and what ended the writing. -/
def writeMessages (c : Capacity) : List OutboundMessage → Bytes × Option Fault
  | [] => ([], none)
  | m :: rest =>
    match c.take (lineOf m) with
    | (taken, none) => (taken, some (.stream .full))
    | (taken, some left) =>
      let (later, fault) := writeMessages left rest
      (taken ++ later, fault)

/-- A writer without a limit takes every line. -/
@[simp] theorem writeMessages_unlimited (messages : List OutboundMessage) :
    writeMessages .unlimited messages = ((messages.map lineOf).flatten, none) := by
  induction messages with
  | nil => rfl
  | cons m rest ih => simp [writeMessages, Capacity.take, ih]

/-- What serving a host came to. -/
structure Served where
  /-- How the worker ended. -/
  result : Except Fault Unit
  /-- What was written. -/
  written : Bytes
  /-- What else came out. -/
  around : Surroundings

/-- Runs a worker on the lines of a host and writes its messages as lines.  Messages that were
    read before the reading stopped are dealt with. -/
def serve (manifest : WorkerManifest) (loader : Loader) (input : Bytes) (c : Capacity)
    (s : Surroundings) : Served :=
  let intake := readMessages true input
  let told := { s with notices := s.notices ++ intake.notices }
  let around :=
    match intake.fault with
    | some fault => told.notify (.readingStopped fault)
    | none => told
  let (result, last) := Setup.run loader intake.messages ⟨.ofManifest manifest, around⟩
  let (posted, outbox) := last.around.outbox.drain
  let (written, fault) := writeMessages c posted
  let after := { last.around with outbox := outbox }
  ⟨result, written,
    match fault with
    | some fault => after.notify (.writingStopped fault)
    | none => after⟩

end Transport

end DocRelay
