import DocRelay.Proofs.Document.Deserted
import DocRelay.Proofs.Relay.Trace

namespace DocRelay

/-!
# Hosts that leave

A host may stop listening at any time, and what it has sent before is still there.  A relay finds
out when it has to acknowledge a patch: it has applied the patch then, as if the host still
listened, and stops.  Nothing else that goes wrong on the way, and nothing that an application
says, stops it.

* `HostAct`, `Relay.attend` — what a host does, and a relay that deals with it;
  `Relay.attend_sends` — a relay whose host stays;
* `Relay.onPatch_deserted`, `Relay.handle_quiet`, `Relay.handle_deserted` — one message when the
  host has left;
* `Relay.handle_goesOn` — one message while it listens;
* `Relay.attend_open`, `Relay.attend_quiet` — messages in order, before and after;
* `Relay.attend_departed` — the whole way.
-/

/-- What a host does. -/
inductive HostAct where
  | sends (m : InboundMessage)
  /-- The host stops listening. -/
  | leaves
deriving DecidableEq, Repr

namespace Relay

/-- Deals with messages in turn, whenever the host may leave: what is left then. -/
def attend (r : Relay) (s : Surroundings) : List HostAct → List HostAct × Relay × Surroundings
  | [] => ([], r, s)
  | .leaves :: rest => r.attend s.deserted rest
  | .sends m :: rest =>
    match r.handle m s with
    | (.ok (), relay, after) => relay.attend after rest
    | (.error fault, relay, after) =>
      if fault.isClosed then (rest, relay, after)
      else relay.attend (after.notify (.notHandled m.kind fault)) rest

/-- As long as the host stays, this is a run. -/
theorem attend_sends (r : Relay) (s : Surroundings) (messages : List InboundMessage) :
    r.attend s (messages.map .sends)
      = ((r.run s messages).1.map .sends, (r.run s messages).2) := by
  induction messages generalizing r s with
  | nil => rfl
  | cons m rest ih =>
    rw [List.map_cons, attend, run]
    generalize r.handle m s = result
    obtain ⟨reply, relay, after⟩ := result
    cases reply with
    | ok done => exact ih relay after
    | error fault =>
      cases hc : fault.isClosed with
      | true => simp [hc]
      | false => simp [hc, ih]

/-- A relay goes on behind a message unless nobody listens. -/
theorem attend_cons {r : Relay} {s : Surroundings} {m : InboundMessage}
    (h : ∀ fault, (r.handle m s).1 = .error fault → fault.isClosed = false)
    (rest : List HostAct) :
    r.attend s (.sends m :: rest) = (turn (r, s) m).1.attend (turn (r, s) m).2 rest := by
  unfold turn
  rw [attend]
  generalize r.handle m s = result at h
  obtain ⟨reply, relay, after⟩ := result
  cases reply with
  | ok done => rfl
  | error fault =>
    dsimp only
    rw [if_neg (by simp [h fault rfl])]

/-! ### One message -/

/-- A failure of a patch itself is not that nobody listens. -/
theorem onPatch_goesOn {r : Relay} {text : String} {s : Surroundings} {fault : Fault}
    (h : (r.onPatch text s).1 = .error fault) : fault.isClosed = false := by
  cases r.undertaken text with
  | refused listening refuses =>
    rw [refuses] at h
    cases h
    exact listening
  | @performed change live read _ performs =>
    rw [performs] at h
    have hreply : ((live.document.perform (.applyPatch change .host)).1.map fun _ => ())
        = .error fault := h
    rw [Document.perform] at hreply
    -- There is a document, so only the patch itself can be at fault.
    cases hc : live.document.content.applied change with
    | error cause =>
      rw [Document.applyPatch_of_error hc] at hreply
      cases hreply
      have hpatched : live.document.content.patched text = .error fault := by
        rw [Content.patched, read]
        exact hc
      exact Content.isClosed_of_patched hpatched
    | ok c =>
      obtain ⟨events, told, -, happ, -⟩ := Document.applyPatch_of_ok hc
      rw [happ] at hreply
      cases hreply

/-- A patch that is dealt with, but not acknowledged, leaves the outbox as open as it was. -/
theorem onPatch_isOpen (r : Relay) (text : String) (s : Surroundings) :
    (r.onPatch text s).2.2.outbox.isOpen = s.outbox.isOpen := by
  cases r.undertaken text with
  | refused _ refuses => rw [refuses]
  | @performed _ live _ _ performs =>
    rw [performs]
    exact Scene.perform_isOpen ⟨live, s⟩ _

/-- A patch when the host has left is dealt with as it is otherwise, and the watchers note the
    same. -/
theorem onPatch_deserted (r : Relay) (text : String) (s : Surroundings) :
    let alone := r.onPatch text s.deserted
    alone.2.1 = (r.onPatch text s).2.1 ∧ alone.2.2.notes = (r.onPatch text s).2.2.notes ∧
      alone.2.2.outbox.isOpen = false ∧ alone.2.2.outbox.posted = [] := by
  cases r.undertaken text with
  | refused _ refuses =>
    rw [refuses, refuses]
    exact ⟨rfl, rfl, rfl, rfl⟩
  | @performed change live _ _ performs =>
    obtain ⟨-, hlive, hrest⟩ := Scene.perform_deserted ⟨live, s⟩ (.applyPatch change .host)
    rw [performs, performs]
    exact ⟨congrArg r.holding hlive, hrest⟩

/-- A failure of a location is not that nobody listens. -/
theorem onLocation_goesOn {r : Relay} {text : String} {fault : Fault}
    (h : (r.onLocation text).1 = .error fault) : fault.isClosed = false := by
  cases hd : r.engine.document with
  | some live =>
    rw [onLocation_eq hd] at h
    exact isClosed_of_relocation h
  | none =>
    unfold onLocation Engine.updateLocation at h
    rw [hd] at h
    split at h <;> cases h <;> rfl

/-- The first word of a rendering does not fail because nobody listens. -/
theorem onRendered_goesOn {r : Relay} {s : Surroundings} {fault : Fault}
    (h : (r.onRendered s).1 = .error fault) : fault.isClosed = false := by
  unfold onRendered Engine.link at h
  split at h
  · cases h
  · cases hd : r.engine.document with
    | none =>
      rw [hd] at h
      cases h
      rfl
    | some live =>
      rw [hd] at h
      cases h

/-- The first word of a rendering posts nothing, and is dealt with whether or not the host has
    left. -/
theorem onRendered_around (r : Relay) (s : Surroundings) :
    (r.onRendered s).2.2.outbox = s.outbox ∧
      r.onRendered s.deserted
        = ((r.onRendered s).1, (r.onRendered s).2.1, (r.onRendered s).2.2.deserted) := by
  unfold onRendered
  split
  · exact ⟨rfl, rfl⟩
  · cases r.engine.link with
    | ok engine => exact ⟨rfl, rfl⟩
    | error fault => exact ⟨rfl, rfl⟩

/-- The acknowledgement of a patch changes neither the relay nor what was noted. -/
theorem handle_patch_rest (r : Relay) (text : String) (s : Surroundings) :
    (r.handle (.patch text) s).2.1 = (r.onPatch text s).2.1 ∧
      (r.handle (.patch text) s).2.2.notes = (r.onPatch text s).2.2.notes := by
  rw [handle]
  dsimp only
  split <;> exact ⟨rfl, rfl⟩

/-- **While the host listens** no message ends the work, and the host listens behind it. -/
theorem handle_goesOn {s : Surroundings} (h : s.outbox.isOpen = true) (r : Relay)
    (m : InboundMessage) :
    (∀ fault, (r.handle m s).1 = .error fault → fault.isClosed = false) ∧
      (r.handle m s).2.2.outbox.isOpen = true := by
  cases m with
  | rendered =>
    refine ⟨fun fault hf => onRendered_goesOn hf, ?_⟩
    show (r.onRendered s).2.2.outbox.isOpen = true
    rw [(r.onRendered_around s).1]
    exact h
  | patch text =>
    have hopen := (r.onPatch_isOpen text s).trans h
    rw [handle_patch_of_isOpen hopen]
    exact ⟨fun fault hf => onPatch_goesOn hf, hopen⟩
  | location text => exact ⟨fun fault hf => onLocation_goesOn hf, h⟩

/-- **When the host has left**, its words of the rendering and its locations are dealt with as they
    are otherwise. -/
theorem handle_quiet {m : InboundMessage} (hm : ∀ text, m ≠ .patch text) (r : Relay)
    (s : Surroundings) :
    r.handle m s.deserted = ((r.handle m s).1, (r.handle m s).2.1, (r.handle m s).2.2.deserted) ∧
      ∀ fault, (r.handle m s).1 = .error fault → fault.isClosed = false := by
  cases m with
  | rendered => exact ⟨(r.onRendered_around s).2, fun fault hf => onRendered_goesOn hf⟩
  | patch text => exact absurd rfl (hm text)
  | location text => exact ⟨rfl, fun fault hf => onLocation_goesOn hf⟩

/-- A patch when the host has left is dealt with as it is otherwise, and then fails because it
    cannot be acknowledged. -/
theorem handle_deserted (r : Relay) (text : String) (s : Surroundings) :
    ∃ around, r.handle (.patch text) s.deserted
        = (.error (Outbox.closedFault "idle"), (r.handle (.patch text) s).2.1, around) ∧
      around.notes = (r.handle (.patch text) s).2.2.notes ∧ around.outbox.isOpen = false ∧
      around.outbox.posted = [] := by
  obtain ⟨hrelay, hnotes, hclosed, hposted⟩ := r.onPatch_deserted text s
  obtain ⟨hkept, hnoted⟩ := r.handle_patch_rest text s
  have hidle : (r.onPatch text s.deserted).2.2.outbox.idle = _ :=
    Outbox.post_of_not_isOpen hclosed .idle
  refine ⟨(r.onPatch text s.deserted).2.2, ?_, hnotes.trans hnoted.symm, hclosed, hposted⟩
  rw [hkept, ← hrelay, handle]
  dsimp only
  rw [hidle]
  rfl

/-! ### Messages in order -/

/-- **While the host listens** every message is dealt with, and it listens behind them. -/
theorem attend_open {r : Relay} {s : Surroundings} (h : s.outbox.isOpen = true)
    (messages : List InboundMessage) (rest : List HostAct) :
    let now := messages.foldl turn (r, s)
    r.attend s (messages.map .sends ++ rest) = now.1.attend now.2 rest ∧
      now.2.outbox.isOpen = true := by
  induction messages generalizing r s with
  | nil => exact ⟨rfl, h⟩
  | cons m others ih =>
    obtain ⟨hgoes, hopen⟩ := handle_goesOn h r m
    have hbehind : (turn (r, s) m).2.outbox.isOpen = true := by
      rw [turn_outbox]
      exact hopen
    rw [List.map_cons, List.cons_append, attend_cons hgoes]
    exact ih hbehind

/-- What is no patch is dealt with as before when the host has left. -/
theorem turn_deserted {m : InboundMessage} (hm : ∀ text, m ≠ .patch text) (r : Relay)
    (s : Surroundings) :
    turn (r, s.deserted) m = ((turn (r, s) m).1, (turn (r, s) m).2.deserted) := by
  unfold turn
  rw [(handle_quiet hm r s).1]
  generalize r.handle m s = result
  obtain ⟨reply, relay, after⟩ := result
  cases reply <;> rfl

/-- **When the host has left**, all is dealt with that is no patch. -/
theorem attend_quiet {messages : List InboundMessage}
    (hm : ∀ text, InboundMessage.patch text ∉ messages) (r : Relay) (s : Surroundings)
    (rest : List HostAct) :
    let now := messages.foldl turn (r, s)
    r.attend s.deserted (messages.map .sends ++ rest) = now.1.attend now.2.deserted rest := by
  induction messages generalizing r s with
  | nil => rfl
  | cons m others ih =>
    have hhead : ∀ text, m ≠ .patch text := fun text he => hm text (he ▸ List.mem_cons_self)
    have hothers : ∀ text, InboundMessage.patch text ∉ others :=
      fun text hmem => hm text (List.mem_cons_of_mem _ hmem)
    obtain ⟨hsame, hgoes⟩ := handle_quiet hhead r s
    have halone : ∀ fault, (r.handle m s.deserted).1 = .error fault → fault.isClosed = false := by
      rw [hsame]
      exact hgoes
    rw [List.map_cons, List.cons_append, attend_cons halone, turn_deserted hhead]
    exact ih hothers _ _

/-- A relay whose host stays deals with all messages. -/
theorem run_open {r : Relay} {s : Surroundings} (h : s.outbox.isOpen = true)
    (messages : List InboundMessage) : r.run s messages = ([], messages.foldl turn (r, s)) := by
  have hrun := r.attend_sends s messages
  have hall := (attend_open (r := r) h messages []).1
  rw [List.append_nil, hrun] at hall
  obtain ⟨hleft, hlast⟩ := Prod.mk.inj hall
  exact Prod.ext (List.map_eq_nil_iff.mp hleft) hlast

/-- Up to the first patch behind the departure all is dealt with as if the host had stayed. -/
theorem attend_leaves {r : Relay} {s : Surroundings} (h : s.outbox.isOpen = true)
    (earlier : List InboundMessage) {quiet : List InboundMessage}
    (hm : ∀ text, InboundMessage.patch text ∉ quiet) (rest : List HostAct) :
    let now := (earlier ++ quiet).foldl turn (r, s)
    r.attend s (earlier.map .sends ++ .leaves :: (quiet.map .sends ++ rest))
      = now.1.attend now.2.deserted rest := by
  dsimp only
  rw [(attend_open h earlier _).1, attend, attend_quiet hm, List.foldl_append]

/-- **The first patch when the host has left** is the last message that is dealt with. -/
theorem attend_patch (now : Relay × Surroundings) (text : String) (rest : List HostAct) :
    let next := turn now (.patch text)
    ∃ around, now.1.attend now.2.deserted (.sends (.patch text) :: rest) = (rest, next.1, around) ∧
      around.notes = next.2.notes ∧ around.outbox.isOpen = false ∧ around.outbox.posted = [] := by
  obtain ⟨around, hhandle, hnotes, hclosed, hposted⟩ := handle_deserted now.1 text now.2
  refine ⟨around, ?_, ?_, hclosed, hposted⟩
  · rw [attend, hhandle, turn_fst]
    rfl
  · rw [turn_notes]
    exact hnotes

/-- **Departure.** A relay whose host stays runs, and deals with all messages.  If the host leaves
    at any point, all that is no patch is dealt with as if it had stayed.  So is the first patch:
    the relay, its document and the notes are as they would be, but nothing is posted, and no
    message behind it is dealt with. -/
theorem attend_departed {r : Relay} {s : Surroundings} (h : s.outbox.isOpen = true)
    (earlier : List InboundMessage) :
    r.attend s (earlier.map .sends) = ((r.run s earlier).1.map .sends, (r.run s earlier).2) ∧
    r.run s earlier = ([], earlier.foldl turn (r, s)) ∧
    (∀ later, (∀ text, InboundMessage.patch text ∉ later) →
      let now := (earlier ++ later).foldl turn (r, s)
      r.attend s (earlier.map .sends ++ .leaves :: later.map .sends)
        = ([], now.1, now.2.deserted)) ∧
    ∀ (quiet rest : List InboundMessage) (text : String),
      (∀ other, InboundMessage.patch other ∉ quiet) →
      let now := (earlier ++ quiet ++ [InboundMessage.patch text]).foldl turn (r, s)
      ∃ around,
        r.attend s (earlier.map .sends ++ .leaves :: (quiet ++ .patch text :: rest).map .sends)
          = (rest.map .sends, now.1, around) ∧
        around.notes = now.2.notes ∧ around.outbox.isOpen = false ∧ around.outbox.posted = [] := by
  refine ⟨r.attend_sends s earlier, run_open h earlier, fun later hm => ?_,
    fun quiet rest text hm => ?_⟩
  · have hall := attend_leaves h earlier hm (r := r) []
    rw [List.append_nil] at hall
    exact hall
  · have hlast : (earlier ++ quiet ++ [InboundMessage.patch text]).foldl turn (r, s)
        = turn ((earlier ++ quiet).foldl turn (r, s)) (.patch text) :=
      List.foldl_append
    dsimp only
    rw [List.map_append, attend_leaves h earlier hm, hlast, List.map_cons]
    exact attend_patch _ text _

/-! ### A slider whose host leaves -/

/-- A watcher that shows the value of a slider, and then claims that nobody listens. -/
def quittingWatcher : Watcher :=
  ⟨"m1", "value", .null, fun _ value =>
    .note value <| .perform (.setAttr "m1" "shown" value .runtime) fun _ =>
      .finish (.failed (.closed "slider")) .null⟩

/-- An application with this watcher. -/
def quittingApplication : Application :=
  ⟨fun _ =>
    .perform (.addRoot "Slider" [("value", .int 1)] .runtime) fun _ =>
      .watch quittingWatcher.id quittingWatcher.attr quittingWatcher.memory quittingWatcher.body
        (.finish .done .null)⟩

/-- The relay of the application. -/
def quitting : Relay := .running quittingApplication

/-- What is around it when it starts. -/
def quittingAround : Surroundings := (Setup.running quittingApplication).around

/-- What the host sends while it listens. -/
def quittingEarlier : List InboundMessage := [.rendered, .patch (sliderMoved "5")]

/-- What it has sent that is no patch, when it leaves. -/
def quittingQuiet : List InboundMessage := [.rendered, .location "\x7b\x7d"]

/-- The relay behind the first patch after the departure. -/
def quittingLast : Relay × Surroundings :=
  (quittingEarlier ++ quittingQuiet ++ [InboundMessage.patch (sliderMoved "7")]).foldl turn
    (quitting, quittingAround)

/-- The slider is moved once more behind the departure of its host, and no second time. -/
theorem attend_departed_slider :
    quittingAround.outbox.isOpen = true ∧
    (∀ other, InboundMessage.patch other ∉ quittingQuiet) ∧
    quittingLast.2.notes.map Json.compact = ["5", "7"] ∧
    quittingLast.1.engine.document.map
        (fun live => (live.document.attr? "m1" "shown").map Json.compact) = some (some "7") ∧
    ∃ around,
      quitting.attend quittingAround (quittingEarlier.map .sends ++ .leaves ::
          (quittingQuiet ++ InboundMessage.patch (sliderMoved "7") ::
            [InboundMessage.patch (sliderMoved "9")]).map .sends)
        = ([InboundMessage.patch (sliderMoved "9")].map .sends, quittingLast.1, around) ∧
      around.notes = quittingLast.2.notes ∧ around.outbox.isOpen = false ∧
      around.outbox.posted = [] := by
  have hopen : quittingAround.outbox.isOpen = true := by decide +kernel
  have hquiet : ∀ other, InboundMessage.patch other ∉ quittingQuiet := by
    intro other
    simp [quittingQuiet]
  obtain ⟨-, -, -, hdeparted⟩ := attend_departed (r := quitting) hopen quittingEarlier
  have hlast := hdeparted quittingQuiet [.patch (sliderMoved "9")] (sliderMoved "7") hquiet
  refine ⟨hopen, hquiet, by decide +kernel, by decide +kernel, ?_⟩
  unfold quittingLast
  exact hlast

end Relay

end DocRelay
