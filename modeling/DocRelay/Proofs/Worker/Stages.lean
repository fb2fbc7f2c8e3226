import DocRelay.Proofs.Document.Past
import DocRelay.Proofs.Worker.Bootstrap
import DocRelay.Worker.Serving

namespace DocRelay

/-!
# Setups in stages

A setup that is made in steps comes to what it comes to at once, and what was posted and told
before makes no difference to it.

* `Relay.handle_behind`, `Relay.run_behind` — relays behind a past;
* `Setup.andThen`, `Setup.IgnoresPast` — parts of a setup one after the other, behind any past;
* `Setup.attempt_eq` — a setup as its parts;
* `Setup.fromStage`, `Setup.fromStage_behind` — what a setup comes to from a stage on;
* `Setup.Leads`, `Setup.step_leads` — a step leads there;
* `Stage.steps`, `Setup.step_steps` — how many steps a setup takes at most.
-/

/-! ### Relays -/

/-- An engine runs an application in the same way behind a past. -/
theorem Engine.execute_behind (e : Engine) (app : ApplicationDescriptor) (s : Surroundings)
    (past : Past) :
    e.execute app (s.behind past)
      = ((e.execute app s).1, (e.execute app s).2.1, (e.execute app s).2.2.behind past) := by
  unfold execute
  cases e.select app with
  | error fault => rfl
  | ok found =>
    have hran := Scene.runScript_behind
      ⟨.ofDocument (blankDocument app (s.documents + 1)), { s with documents := s.documents + 1 }⟩
      past (found.build ⟨app, e.environment⟩)
    dsimp only
    generalize hbehind : Scene.runScript _ _ = ran
    cases hbehind.symm.trans hran
    generalize Scene.runScript _ _ = ran
    obtain ⟨outcome, after⟩ := ran
    cases outcome <;> rfl

namespace Relay

/-- A patch of the host is applied in the same way behind a past. -/
theorem onPatch_behind (r : Relay) (text : String) (s : Surroundings) (past : Past) :
    r.onPatch text (s.behind past)
      = ((r.onPatch text s).1, (r.onPatch text s).2.1, (r.onPatch text s).2.2.behind past) := by
  unfold onPatch Engine.applyPatch
  cases readPatch text with
  | error cause => rfl
  | ok change =>
    cases r.engine.document with
    | none => rfl
    | some live =>
      have hscene : Scene.mk live (s.behind past) = Scene.behind ⟨live, s⟩ past := rfl
      dsimp only
      rw [hscene, Scene.perform_behind]
      rfl

/-- **A message** is dealt with in the same way behind a past. -/
theorem handle_behind (r : Relay) (m : InboundMessage) (s : Surroundings) (past : Past) :
    r.handle m (s.behind past)
      = ((r.handle m s).1, (r.handle m s).2.1, (r.handle m s).2.2.behind past) := by
  cases m with
  | rendered =>
    rw [handle, handle, onRendered, onRendered]
    split
    · rw [Surroundings.notify_behind]
    · cases r.engine.link <;> rfl
  | location text => rfl
  -- The acknowledgement is posted behind the past like the other messages.
  | patch text =>
    have hidle : ∀ s : Surroundings, (s.behind past).outbox.idle = _ := fun s =>
      s.outbox.post_behind past.posted .idle
    rw [handle, handle]
    dsimp only
    rw [onPatch_behind]
    dsimp only
    rw [hidle]
    unfold Outbox.idle
    generalize Outbox.post _ _ = posted
    obtain ⟨reply, after⟩ := posted
    cases reply <;> rfl

/-- **Run.** Messages are dealt with in the same way behind a past. -/
theorem run_behind (r : Relay) (s : Surroundings) (past : Past) (messages : List InboundMessage) :
    r.run (s.behind past) messages
      = ((r.run s messages).1, (r.run s messages).2.1, (r.run s messages).2.2.behind past) := by
  induction messages generalizing r s with
  | nil => rfl
  | cons m rest ih =>
    rw [run, run, handle_behind]
    generalize r.handle m s = handled
    obtain ⟨reply, relay, after⟩ := handled
    cases reply with
    | ok done => exact ih _ _
    | error fault =>
      dsimp only
      split
      · rfl
      · rw [Surroundings.notify_behind, ih]

end Relay

/-! ### The parts of a setup -/

namespace Setup

/-- The setup behind a past. -/
def behind (st : Setup) (past : Past) : Setup := { st with around := st.around.behind past }

/-- A past behind a past is one past. -/
theorem behind_behind (st : Setup) (later earlier : Past) :
    (st.behind later).behind earlier
      = st.behind ⟨earlier.posted ++ later.posted, earlier.notices ++ later.notices⟩ := by
  simp [behind, Surroundings.behind, Outbox.behind]

/-- Goes on with what was reached, unless it failed. -/
def andThen {α β : Type} (reached : Except Fault α × Setup)
    (next : α → Setup → Except Fault β × Setup) : Except Fault β × Setup :=
  match reached with
  | (.ok a, st) => next a st
  | (.error fault, st) => (.error fault, st)

theorem andThen_assoc {α β γ : Type} (reached : Except Fault α × Setup)
    (next : α → Setup → Except Fault β × Setup) (last : β → Setup → Except Fault γ × Setup) :
    andThen (andThen reached next) last
      = andThen reached fun a st => andThen (next a st) last := by
  obtain ⟨reply, after⟩ := reached
  cases reply <;> rfl

/-- The same is done behind any past. -/
def IgnoresPast {α : Type} (f : Setup → α × Setup) : Prop :=
  ∀ st past, f (st.behind past) = ((f st).1, (f st).2.behind past)

theorem IgnoresPast.andThen {α β : Type} {f : Setup → Except Fault α × Setup}
    {next : α → Setup → Except Fault β × Setup} (hf : IgnoresPast f)
    (hnext : ∀ a, IgnoresPast (next a)) : IgnoresPast fun st => andThen (f st) next := by
  intro st past
  dsimp only
  rw [hf st past]
  generalize f st = reached
  obtain ⟨reply, after⟩ := reached
  cases reply with
  | error fault => rfl
  | ok a => exact hnext a after past

/-- A result that is there does not depend on the past. -/
theorem ignoresPast_pure {α : Type} (a : α) : IgnoresPast fun st => (a, st) :=
  fun _ _ => rfl

theorem ignoresPast_advance (next : Phase) : IgnoresPast (·.advance next) := by
  intro st past
  show advance (st.behind past) next
    = ((advance st next).1, (advance st next).2.behind past)
  unfold advance
  rw [show (st.behind past).worker = st.worker from rfl]
  cases st.worker.advance next <;> rfl

theorem ignoresPast_post {message : Outbox → Except Fault Unit × Outbox}
    (h : ∀ (o : Outbox) earlier,
      message (o.behind earlier) = ((message o).1, (message o).2.behind earlier)) :
    IgnoresPast (·.post message) := by
  intro st past
  have hmessage : message (st.behind past).around.outbox = _ := h st.around.outbox past.posted
  show post (st.behind past) message = _
  unfold post
  rw [hmessage]
  rfl

theorem ignoresPast_status (text : String) : IgnoresPast (·.post (·.status text)) :=
  ignoresPast_post fun o earlier => o.post_behind earlier _

/-- A phase is entered, and then the progress is posted. -/
theorem enter_eq (st : Setup) (phase : Phase) (text : String) :
    st.enter phase text = andThen (st.advance phase) fun _ st => st.post (·.status text) := by
  unfold enter
  generalize st.advance phase = entered
  obtain ⟨reply, after⟩ := entered
  cases reply <;> rfl

theorem ignoresPast_enter (phase : Phase) (text : String) : IgnoresPast (·.enter phase text) := by
  simp only [enter_eq]
  exact (ignoresPast_advance phase).andThen fun _ => ignoresPast_status text

/-- The setup with one more sink. -/
def sinking (st : Setup) : Setup :=
  { st with around := { st.around with outbox := st.around.outbox.newSink.2 } }

/-- An engine is made, and then the next phase is reached. -/
theorem makeEngine_eq (loader : Loader) (st : Setup) :
    st.makeEngine loader
      = andThen (loader.load st.around.outbox.newSink.1, st.sinking) fun e st =>
          andThen (st.advance .installingPackages) fun _ st => (.ok e, st) := by
  unfold makeEngine sinking
  dsimp only
  cases loader.load st.around.outbox.newSink.1 with
  | error fault => rfl
  | ok e =>
    dsimp only [andThen]
    generalize Setup.advance _ _ = entered
    obtain ⟨reply, after⟩ := entered
    cases reply <;> rfl

theorem ignoresPast_makeEngine (loader : Loader) : IgnoresPast (·.makeEngine loader) := by
  simp only [makeEngine_eq]
  have hload : IgnoresPast fun st => (loader.load st.around.outbox.newSink.1, st.sinking) :=
    fun _ _ => rfl
  exact hload.andThen fun e => (ignoresPast_advance _).andThen fun _ => ignoresPast_pure _

/-- A package is installed behind its progress, and then those that are left. -/
theorem installEach_cons (e : Engine) (st : Setup) (spec : PackageSpec)
    (left : List PackageSpec) :
    st.installEach e (spec :: left)
      = andThen (st.post (·.status (installingText spec))) fun _ st =>
          andThen (e.install spec, st) fun e st => st.installEach e left := by
  rw [installEach]
  generalize st.post _ = posted
  obtain ⟨reply, after⟩ := posted
  cases reply with
  | error fault => rfl
  | ok done =>
    dsimp only [andThen]
    cases e.install spec <;> rfl

theorem ignoresPast_installEach (e : Engine) (specs : List PackageSpec) :
    IgnoresPast (·.installEach e specs) := by
  induction specs generalizing e with
  | nil => exact fun _ _ => rfl
  | cons spec rest ih =>
    simp only [installEach_cons]
    exact (ignoresPast_status _).andThen fun _ => (ignoresPast_pure _).andThen fun e => ih e

theorem ignoresPast_runApplication (e : Engine) : IgnoresPast (·.runApplication e) := by
  intro st past
  have hexecute : e.execute st.worker.manifest.application (st.behind past).around = _ :=
    e.execute_behind _ st.around past
  show runApplication e (st.behind past) = _
  unfold runApplication
  rw [show (st.behind past).worker = st.worker from rfl, hexecute]
  rfl

/-- The rendering is posted, and then the last phase is entered. -/
theorem finish_eq_andThen (payload : RenderPayload) (e : Engine) (st : Setup) :
    st.finish payload e
      = andThen (st.post (·.render payload)) fun _ st =>
          andThen (st.advance .ready) fun _ st => (.ok (.ofEngine e), st) := by
  unfold finish
  generalize st.post _ = posted
  obtain ⟨reply, after⟩ := posted
  cases reply with
  | error fault => rfl
  | ok done =>
    dsimp only [andThen]
    generalize after.advance .ready = entered
    obtain ⟨reply, last⟩ := entered
    cases reply <;> rfl

theorem ignoresPast_finish (payload : RenderPayload) (e : Engine) :
    IgnoresPast (·.finish payload e) := by
  simp only [finish_eq_andThen]
  have hrender : IgnoresPast (·.post (·.render payload)) :=
    ignoresPast_post fun o earlier => o.render_behind earlier payload
  exact hrender.andThen fun _ => (ignoresPast_advance _).andThen fun _ => ignoresPast_pure _

/-- The application is run behind its progress, and then rendered. -/
theorem fill_eq (e : Engine) (st : Setup) :
    st.fill e
      = andThen (st.enter .executing executingText) fun _ st =>
          andThen (st.runApplication e) fun made st => st.finish made.1 made.2 := by
  -- The steps stop at the same fault on both sides, so each result is split once.
  unfold fill execute enter
  generalize st.advance .executing = entered
  obtain ⟨reply, after⟩ := entered
  cases reply with
  | error fault => rfl
  | ok done =>
    dsimp only
    generalize after.post _ = posted
    obtain ⟨reply, last⟩ := posted
    cases reply with
    | error fault => rfl
    | ok done =>
      dsimp only [andThen, runApplication]
      cases (e.execute last.worker.manifest.application last.around).1 <;> rfl

/-- **A setup** is made of its parts, one after the other. -/
theorem attempt_eq (loader : Loader) (st : Setup) :
    st.attempt loader
      = andThen (st.enter .loadingRuntime (loadingText loader.label)) fun _ st =>
          andThen (st.makeEngine loader) fun e st =>
            andThen (st.installEach e st.worker.manifest.packages) fun e st => st.fill e := by
  -- A step that fails ends both sides alike, so the results are split in the order of the steps.
  unfold attempt load enter
  generalize st.advance .loadingRuntime = entered
  obtain ⟨reply, after⟩ := entered
  cases reply with
  | error fault => rfl
  | ok done =>
    dsimp only
    generalize after.post _ = posted
    obtain ⟨reply, last⟩ := posted
    cases reply with
    | error fault => rfl
    | ok done =>
      dsimp only [andThen, makeEngine]
      cases loader.load last.around.outbox.newSink.1 with
      | error fault => rfl
      | ok e =>
        dsimp only [install]
        generalize Setup.advance _ .installingPackages = entered
        obtain ⟨reply, ready⟩ := entered
        cases reply with
        | error fault => rfl
        | ok done =>
          dsimp only
          generalize installEach _ _ _ = installed
          obtain ⟨reply, prepared⟩ := installed
          cases reply <;> rfl

/-! ### From a stage on -/

/-- What a setup comes to from a stage on, before a failure is told. -/
def rest (loader : Loader) (st : Setup) : Stage → Except Fault Relay × Setup
  | .fresh => st.attempt loader
  | .loading =>
    andThen (st.makeEngine loader) fun e st =>
      andThen (st.installEach e st.worker.manifest.packages) fun e st => st.fill e
  | .preparing e left => andThen (st.installEach e left) fun e st => st.fill e
  | .installing e spec left =>
    andThen (e.install spec, st) fun e st =>
      andThen (st.installEach e left) fun e st => st.fill e
  | .executing e => andThen (st.runApplication e) fun made st => st.finish made.1 made.2
  | .rendering payload e => st.finish payload e

/-- A failure is told. -/
def telling {α : Type} (reached : Except Fault α × Setup) : Except Fault α × Setup :=
  match reached with
  | (.ok a, st) => (.ok a, st)
  | (.error fault, st) => (.error fault, st.report fault)

/-- What a setup comes to from a stage on. -/
def fromStage (loader : Loader) (st : Setup) : Stage → Except Fault Relay × Setup
  | .fresh => st.bootstrap loader
  | stage => telling (st.rest loader stage)

theorem bootstrap_eq (loader : Loader) (st : Setup) (h : st.worker.phase = .uninitialized) :
    st.bootstrap loader = telling (st.attempt loader) := by
  rw [bootstrap, if_pos h]
  generalize st.attempt loader = reached
  obtain ⟨reply, after⟩ := reached
  cases reply <;> rfl

theorem ignoresPast_fill (e : Engine) : IgnoresPast (·.fill e) := by
  simp only [fill_eq]
  exact (ignoresPast_enter _ _).andThen fun _ =>
    (ignoresPast_runApplication e).andThen fun made => ignoresPast_finish _ _

theorem ignoresPast_installAll (e : Engine) :
    IgnoresPast fun st => st.installEach e st.worker.manifest.packages :=
  fun st past => ignoresPast_installEach e st.worker.manifest.packages st past

theorem ignoresPast_rest (loader : Loader) (stage : Stage) :
    IgnoresPast (·.rest loader stage) := by
  cases stage with
  -- Each part ignores the past, and so does the one after the other.
  | fresh =>
    simp only [rest, attempt_eq]
    exact (ignoresPast_enter _ _).andThen fun _ => (ignoresPast_makeEngine loader).andThen
      fun e => (ignoresPast_installAll e).andThen ignoresPast_fill
  | loading =>
    exact (ignoresPast_makeEngine loader).andThen
      fun e => (ignoresPast_installAll e).andThen ignoresPast_fill
  | preparing e left => exact (ignoresPast_installEach e left).andThen ignoresPast_fill
  | installing e spec left =>
    exact (ignoresPast_pure _).andThen
      fun e => (ignoresPast_installEach e left).andThen ignoresPast_fill
  | executing e =>
    exact (ignoresPast_runApplication e).andThen fun made => ignoresPast_finish _ _
  | rendering payload e => exact ignoresPast_finish payload e

theorem report_behind (st : Setup) (past : Past) (fault : Fault) :
    (st.behind past).report fault = (st.report fault).behind past := by
  have htold : Setup.mk st.worker
        ((st.behind past).around.notify (.setupFailed st.worker.phase fault))
      = Setup.behind ⟨st.worker, st.around.notify (.setupFailed st.worker.phase fault)⟩ past :=
    congrArg (Setup.mk st.worker) (st.around.notify_behind past _)
  have hworker : (st.behind past).worker = st.worker := rfl
  have hpost : ∀ st : Setup, (st.behind past).post (·.error st.worker.phase fault.message) = _ :=
    fun st => ignoresPast_post (fun o earlier => o.post_behind earlier _) st past
  unfold report
  dsimp only
  rw [hworker, htold]
  rw [hpost ⟨st.worker, _⟩]
  dsimp only
  generalize Setup.post _ _ = posted
  obtain ⟨reply, after⟩ := posted
  cases reply with
  | ok done => rfl
  | error second => exact congrArg (Setup.mk after.worker) (after.around.notify_behind past _)

theorem IgnoresPast.telling {α : Type} {f : Setup → Except Fault α × Setup}
    (hf : IgnoresPast f) : IgnoresPast fun st => telling (f st) := by
  intro st past
  dsimp only
  rw [hf st past]
  generalize f st = reached
  obtain ⟨reply, after⟩ := reached
  cases reply with
  | ok a => rfl
  | error fault =>
    show (Except.error fault, (after.behind past).report fault) = _
    rw [report_behind]
    rfl

/-- **Frame.** What a setup comes to from a stage on does not depend on the past. -/
theorem fromStage_behind (loader : Loader) (st : Setup) (stage : Stage) (past : Past) :
    (st.behind past).fromStage loader stage
      = ((st.fromStage loader stage).1, (st.fromStage loader stage).2.behind past) := by
  have htelling := (ignoresPast_rest loader stage).telling st past
  cases stage with
  | fresh =>
    show (st.behind past).bootstrap loader
      = ((st.bootstrap loader).1, (st.bootstrap loader).2.behind past)
    by_cases h : st.worker.phase = .uninitialized
    · rw [bootstrap_eq loader st h, bootstrap_eq loader (st.behind past) h]
      exact htelling
    · rw [bootstrap, if_neg (show (st.behind past).worker.phase ≠ _ from h), bootstrap, if_neg h]
      rfl
  | _ => exact htelling

/-! ### Steps of a setup -/

theorem advance_manifest (st : Setup) (next : Phase) :
    (st.advance next).2.worker.manifest = st.worker.manifest := by
  unfold advance Worker.advance
  split
  · rename_i h
    split at h <;> cases h
    rfl
  · rfl

theorem enter_manifest (st : Setup) (phase : Phase) (text : String) :
    (st.enter phase text).2.worker.manifest = st.worker.manifest := by
  have hadvance := st.advance_manifest phase
  rw [enter_eq]
  generalize st.advance phase = entered at hadvance ⊢
  obtain ⟨reply, after⟩ := entered
  cases reply <;> exact hadvance

theorem makeEngine_manifest (loader : Loader) (st : Setup) :
    (st.makeEngine loader).2.worker.manifest = st.worker.manifest := by
  have hadvance := st.sinking.advance_manifest .installingPackages
  rw [makeEngine_eq]
  cases loader.load st.around.outbox.newSink.1 with
  | error fault => rfl
  | ok e =>
    dsimp only [andThen]
    generalize st.sinking.advance .installingPackages = entered at hadvance ⊢
    obtain ⟨reply, after⟩ := entered
    cases reply <;> exact hadvance

/-- A setup has got as far as leads to what it comes to. -/
inductive Leads (loader : Loader) (whole : Except Fault Relay × Setup) :
    Progress × Setup → Prop where
  | settingUp {stage : Stage} {st : Setup} (onward : st.fromStage loader stage = whole) :
    Leads loader whole (.settingUp stage, st)
  | relaying {r : Relay} {st : Setup} (ready : whole = (.ok r, st)) :
    Leads loader whole (.relaying r, st)
  | ended {fault : Fault} {st : Setup} (failed : whole = (.error fault, st)) :
    Leads loader whole (.ended (.error fault), st)

/-- A part of a setup leads to what the parts behind it come to, or fails. -/
theorem goOn_leads {α : Type} {loader : Loader} {reached : Except Fault α × Setup}
    {next : α → Progress} {later : α → Setup → Except Fault Relay × Setup}
    (h : ∀ a st, reached = (.ok a, st) → Leads loader (telling (later a st)) (next a, st)) :
    Leads loader (telling (andThen reached later)) (goOn reached next) := by
  obtain ⟨reply, st⟩ := reached
  cases reply with
  | ok a => exact h a st rfl
  | error fault => exact .ended rfl

/-- **Step.** A step of a setup leads to what the setup comes to. -/
theorem step_leads (loader : Loader) (st : Setup) (stage : Stage) :
    Leads loader (st.fromStage loader stage) (st.step loader stage) := by
  cases stage with
  | fresh =>
    rw [step, fromStage]
    split
    · rename_i h
      rw [bootstrap_eq loader st h, attempt_eq]
      exact goOn_leads fun _ after _ => .settingUp rfl
    · rename_i h
      rw [bootstrap, if_neg h]
      exact .ended rfl
  | loading =>
    refine goOn_leads fun e after hmade => .settingUp ?_
    -- The packages to install are those of the manifest, which making the engine does not change.
    have hmanifest := st.makeEngine_manifest loader
    rw [hmade] at hmanifest
    dsimp only at hmanifest
    rw [← hmanifest]
    rfl
  | preparing e left =>
    cases left with
    | nil =>
      show Leads loader (telling (st.fill e)) _
      rw [fill_eq]
      exact goOn_leads fun _ after _ => .settingUp rfl
    | cons spec left =>
      show Leads loader (telling (andThen (st.installEach e (spec :: left)) _)) _
      rw [installEach_cons, andThen_assoc]
      refine goOn_leads fun _ after _ => ?_
      rw [andThen_assoc]
      exact .settingUp rfl
  | installing e spec left => exact goOn_leads fun e after _ => .settingUp rfl
  | executing e => exact goOn_leads fun made after _ => .settingUp rfl
  | rendering payload e =>
    show Leads loader (telling (st.finish payload e)) (goOn (st.finish payload e) .relaying)
    generalize st.finish payload e = finished
    obtain ⟨reply, after⟩ := finished
    cases reply with
    | ok relay => exact .relaying rfl
    | error fault => exact .ended rfl

end Setup

/-! ### How many steps a setup takes -/

/-- The steps that a setup takes at most from a stage on, given the number of its packages; the
    end of the relaying is counted as one more. -/
def Stage.steps (packages : Nat) : Stage → Nat
  | .fresh => 2 * packages + 6
  | .loading => 2 * packages + 5
  | .preparing _ left => 2 * left.length + 4
  | .installing _ _ left => 2 * left.length + 5
  | .executing _ => 3
  | .rendering _ _ => 2

/-- The steps of a worker, apart from those that deal with messages. -/
def Progress.steps (st : Setup) : Progress → Nat
  | .settingUp stage => stage.steps st.worker.manifest.packages.length
  | .relaying _ => 1
  | .ended _ => 0

theorem Stage.steps_pos (packages : Nat) (stage : Stage) : 0 < stage.steps packages := by
  cases stage <;> exact Nat.succ_pos _

namespace Setup

/-- A part of a setup leaves less to do if what comes next does. -/
theorem goOn_steps {α : Type} {n : Nat} {reached : Except Fault α × Setup}
    {next : α → Progress} (hn : 0 < n)
    (h : ∀ a st, reached = (.ok a, st) → (next a).steps st < n) :
    (goOn reached next).1.steps (goOn reached next).2 < n := by
  obtain ⟨reply, st⟩ := reached
  cases reply with
  | ok a => exact h a st rfl
  | error fault => exact hn

/-- **Step.** Every step of a setup leaves less to do. -/
theorem step_steps (loader : Loader) (st : Setup) (stage : Stage) :
    (st.step loader stage).1.steps (st.step loader stage).2
      < stage.steps st.worker.manifest.packages.length := by
  cases stage with
  | fresh =>
    rw [step]
    split
    · refine goOn_steps (Stage.steps_pos _ _) fun _ after hentered => ?_
      have hmanifest := st.enter_manifest .loadingRuntime (loadingText loader.label)
      rw [hentered] at hmanifest
      show 2 * after.worker.manifest.packages.length + 5 < _
      rw [hmanifest]
      exact Nat.lt_succ_self _
    · exact Stage.steps_pos _ _
  | loading => exact goOn_steps (Stage.steps_pos _ _) fun _ _ _ => Nat.lt_succ_self _
  | preparing e left =>
    cases left with
    | nil => exact goOn_steps (Stage.steps_pos _ _) fun _ _ _ => Nat.lt_succ_self _
    | cons spec left =>
      -- A package takes two steps: it is announced, and then installed.
      refine goOn_steps (Stage.steps_pos _ _) fun _ _ _ => ?_
      show 2 * left.length + 5 < 2 * (left.length + 1) + 4
      omega
  | installing e spec left =>
    exact goOn_steps (Stage.steps_pos _ _) fun _ _ _ => Nat.lt_succ_self _
  | executing e => exact goOn_steps (Stage.steps_pos _ _) fun _ _ _ => Nat.lt_succ_self _
  | rendering payload e =>
    exact goOn_steps (Stage.steps_pos _ _) fun _ _ _ => Nat.lt_succ_self _

end Setup

end DocRelay
