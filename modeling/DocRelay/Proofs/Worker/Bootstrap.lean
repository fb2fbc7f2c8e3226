import DocRelay.Proofs.Application.Building
import DocRelay.Proofs.Package.Installing
import DocRelay.Worker.Basic

namespace DocRelay

/-!
# The setup of a worker

A setup with an open outbox posts its progress and then exactly one last message: the rendering,
or the failure of the phase that it has reached.

* `Setup.installEach_installing` — progress and installations, package by package;
* `Setup.Course` — how a setup can go: its progress, the phase it reaches, and what comes of it;
* `Setup.attempt_course`, `Setup.exists_of_bootstrap` — every setup goes so;
* `Setup.Renders` — what a rendering takes;
* `Setup.bootstrap_trace` — what is posted, and when it is a rendering.
-/

/-! ### Phases -/

namespace Setup

/-- The setup with more messages posted. -/
def posting (st : Setup) (messages : List OutboundMessage) : Setup :=
  { st with around := { st.around with outbox :=
    { st.around.outbox with posted := st.around.outbox.posted ++ messages } } }

/-- The setup in another phase. -/
def entering (st : Setup) (phase : Phase) : Setup :=
  { st with worker := { st.worker with phase := phase } }

/-- Posts one after the other. -/
theorem posting_posting (st : Setup) (first second : List OutboundMessage) :
    (st.posting first).posting second = st.posting (first ++ second) := by
  unfold posting
  dsimp only
  rw [List.append_assoc]

/-- Progress can be posted while somebody listens. -/
theorem post_status {st : Setup} (h : st.around.outbox.isOpen = true) (text : String) :
    st.post (·.status text) = (.ok (), st.posting [.status text]) := by
  have hpost : st.around.outbox.status text = _ := Outbox.post_of_isOpen h (.status text)
  unfold post
  dsimp only
  rw [hpost]
  rfl

/-- The next phase can be entered. -/
theorem advance_next {st : Setup} {next : Phase} (h : st.worker.phase.next = some next) :
    st.advance next = (.ok (), st.entering next) := by
  unfold advance
  rw [Worker.advance, Phase.canAdvanceTo, h, if_pos (beq_self_eq_true _)]
  rfl

/-- **Run.** Packages are installed in order, each after its progress was posted, up to the first
    that fails. -/
theorem installEach_installing (e : Engine) {st : Setup} (ho : st.around.outbox.isOpen = true)
    (specs : List PackageSpec) :
    ∃ begun result, Installing e.source e.environment specs begun result ∧
      st.installEach e specs
        = (result.map fun env => { e with environment := env },
            st.posting (begun.map fun spec => .status (installingText spec))) := by
  induction specs generalizing e st with
  | nil =>
    refine ⟨[], _, .all rfl, ?_⟩
    unfold installEach posting
    rw [List.map_nil, List.append_nil]
    rfl
  | cons spec rest ih =>
    rw [installEach, post_status ho]
    dsimp only
    rw [Engine.install_eq]
    cases hi : e.environment.installFrom e.source spec with
    | error fault =>
      -- Its progress was posted, although it is not installed.
      have hstopped : Installing e.source e.environment (spec :: rest) ([] ++ [spec])
          (.error fault) := .stopped rfl rfl hi
      exact ⟨_, _, hstopped, rfl⟩
    | ok env =>
      have hopen : (st.posting [.status (installingText spec)]).around.outbox.isOpen = true := ho
      obtain ⟨begun, result, hrest, heq⟩ := ih { e with environment := env } hopen
      refine ⟨spec :: begun, result, hrest.cons hi, ?_⟩
      show installEach { e with environment := env } _ rest = _
      rw [heq, posting_posting]
      rfl

/-! ### The course of a setup -/

/-- How a setup can go whose application finds the `n`-th document: the progress that is posted,
    the phase that is reached, and the document or the failure that comes of it. -/
inductive Course (l : Loader) (m : WorkerManifest) (n : Nat) :
    List String → Phase → Except Fault LiveDocument → Prop where
  | unloaded (empty : l.registry.isEmpty = true) :
    Course l m n [loadingText l.label] .loadingRuntime (.error .noApplications)
  | uninstalled {begun : List PackageSpec} {fault : Fault}
    (loaded : l.registry.isEmpty = false)
    (stopped : Installing l.source .empty m.packages begun (.error fault)) :
    Course l m n (loadingText l.label :: begun.map installingText) .installingPackages
      (.error fault)
  | unbuilt {env : Environment} {fault : ScriptFault} (loaded : l.registry.isEmpty = false)
    (installed : Environment.empty.installAll l.source m.packages = .ok env)
    (stopped : Building l.registry env m.application n (.error fault)) :
    Course l m n (loadingText l.label :: m.packages.map installingText ++ [executingText])
      .executing (.error (.script fault))
  | rendered {env : Environment} {live : LiveDocument} (loaded : l.registry.isEmpty = false)
    (installed : Environment.empty.installAll l.source m.packages = .ok env)
    (built : Building l.registry env m.application n (.ok live)) :
    Course l m n (loadingText l.label :: m.packages.map installingText ++ [executingText])
      .ready (.ok live)

/-- The setup failed: nothing but its progress was posted. -/
structure Failed (st : Setup) (progress : List String) (phase : Phase) (after : Setup) : Prop where
  phase : after.worker.phase = phase
  isOpen : after.around.outbox.isOpen = true
  posted : after.around.outbox.posted = st.around.outbox.posted ++ progress.map .status

/-- The setup is about to post the rendering: nothing but its progress was posted, and there is a
    sink that numbers its patches from one. -/
structure Prepared (st : Setup) (progress : List String) (ready : Setup) : Prop where
  phase : ready.worker.phase = .executing
  outbox : ready.around.outbox = { st.around.outbox with
    posted := st.around.outbox.posted ++ progress.map .status
    counters := st.around.outbox.counters ++ [1] }

/-- The setup succeeded: behind its progress the rendering was posted. -/
structure Succeeded (st : Setup) (progress : List String) (live : LiveDocument)
    (after : Setup) : Prop where
  phase : after.worker.phase = .ready
  outbox : after.around.outbox = ⟨true, true,
    st.around.outbox.posted ++ progress.map .status ++ [.render (.ofDocument live.document)],
    st.around.outbox.counters ++ [1]⟩

/-- The setup behind the making of the engine. -/
def loaded (st : Setup) (label : String) : Setup :=
  let posted := (st.entering .loadingRuntime).posting [.status (loadingText label)]
  { posted with around := { posted.around with outbox := posted.around.outbox.newSink.2 } }

/-- An engine is made of a loader that has applications. -/
theorem load_eq (l : Loader) {st : Setup} (hp : st.worker.phase = .uninitialized)
    (ho : st.around.outbox.isOpen = true) :
    st.load l = (l.load ⟨st.around.outbox.counters.length⟩, st.loaded l.label) := by
  have hnext : st.worker.phase.next = some .loadingRuntime := by rw [hp]; rfl
  have hopen : (st.entering .loadingRuntime).around.outbox.isOpen = true := ho
  unfold load
  rw [advance_next hnext]
  dsimp only
  rw [post_status hopen]
  rfl

/-- The setup behind the making of the engine and the packages that were begun. -/
def begun (st : Setup) (label : String) (packages : List PackageSpec) : Setup :=
  ((st.loaded label).entering .installingPackages).posting
    (packages.map fun spec => .status (installingText spec))

/-- The progress up to there, in the order in which it was posted. -/
theorem begun_posted (st : Setup) (label : String) (packages : List PackageSpec) :
    (st.begun label packages).around.outbox.posted
      = st.around.outbox.posted
        ++ (loadingText label :: packages.map installingText).map .status := by
  show (st.around.outbox.posted ++ [.status (loadingText label)]) ++ _ = _
  rw [List.append_assoc, List.map_cons, List.map_map]
  rfl

/-- The packages are installed one after the other. -/
theorem install_eq (e : Engine) {st : Setup} (hp : st.worker.phase = .loadingRuntime) :
    st.install e
      = (st.entering .installingPackages).installEach e st.worker.manifest.packages := by
  have hnext : st.worker.phase.next = some .installingPackages := by rw [hp]; rfl
  unfold install
  rw [advance_next hnext]
  rfl

/-- The application is run behind its progress. -/
theorem execute_eq (e : Engine) {st : Setup} (hp : st.worker.phase = .installingPackages)
    (ho : st.around.outbox.isOpen = true) :
    let ready := (st.entering .executing).posting [.status executingText]
    let r := e.execute st.worker.manifest.application ready.around
    st.execute e = (r.1.map fun payload => (payload, r.2.1), { ready with around := r.2.2 }) := by
  have hnext : st.worker.phase.next = some .executing := by rw [hp]; rfl
  have hopen : (st.entering .executing).around.outbox.isOpen = true := ho
  unfold execute
  rw [advance_next hnext]
  dsimp only
  rw [post_status hopen]
  rfl

/-- The setup with the rendering posted. -/
def rendering (st : Setup) (payload : RenderPayload) : Setup :=
  { st with around := { st.around with outbox :=
    { st.around.outbox with
      isRendered := true
      posted := st.around.outbox.posted ++ [.render payload] } } }

/-- The rendering can be posted if it is the first. -/
theorem post_render {st : Setup} (ho : st.around.outbox.isOpen = true)
    (hr : st.around.outbox.isRendered = false) (payload : RenderPayload) :
    st.post (·.render payload) = (.ok (), st.rendering payload) := by
  have hpost : st.around.outbox.render payload
      = (.ok (), (st.rendering payload).around.outbox) := by
    rw [Outbox.render, if_neg (by simp [hr])]
    exact Outbox.post_of_isOpen (o := { st.around.outbox with isRendered := true }) ho _
  unfold post
  dsimp only
  rw [hpost]
  rfl

/-- The setup ends with the rendering. -/
theorem finish_eq (payload : RenderPayload) (e : Engine) {st : Setup}
    (hp : st.worker.phase = .executing) (ho : st.around.outbox.isOpen = true)
    (hr : st.around.outbox.isRendered = false) :
    st.finish payload e = (.ok (.ofEngine e), (st.rendering payload).entering .ready) := by
  have hnext : (st.rendering payload).worker.phase.next = some .ready := by
    show st.worker.phase.next = _
    rw [hp]
    rfl
  unfold finish
  rw [post_render ho hr]
  dsimp only
  rw [advance_next hnext]

/-- The last part of the setup, with the packages installed: the application and the
    rendering. -/
def fill (e : Engine) (st : Setup) : Except Fault Relay × Setup :=
  match st.execute e with
  | (.error fault, st) => (.error fault, st)
  | (.ok (payload, engine), st) => st.finish payload engine

/-- The last part of the setup goes as the application does. -/
theorem fill_course (e : Engine) (hd : e.document = none) (st : Setup)
    (hp : st.worker.phase = .installingPackages) (ho : st.around.outbox.isOpen = true) :
    (∃ fault after,
      Building e.registry e.environment st.worker.manifest.application
        (st.around.documents + 1) (.error fault) ∧
      st.fill e = (.error (.script fault), after) ∧
      st.Failed [executingText] .executing after) ∨
    ∃ (live : LiveDocument) (ready : Setup),
      Building e.registry e.environment st.worker.manifest.application
        (st.around.documents + 1) (.ok live) ∧
      st.fill e
        = ready.finish (.ofDocument live.document) { e with document := some live } ∧
      ready.worker.phase = .executing ∧
      ready.around.outbox = (st.posting [.status executingText]).around.outbox := by
  unfold fill
  rw [execute_eq e hp ho]
  rcases Engine.execute_building hd st.worker.manifest.application
      ((st.entering .executing).posting [.status executingText]).around with
    ⟨fault, after, hbuilding, hexec, hbox⟩ | ⟨live, after, hbuilding, hexec, hbox⟩
  · rw [hexec]
    refine .inl ⟨fault, _, hbuilding, rfl, rfl, ?_, ?_⟩
    · rw [hbox]
      exact ho
    · rw [hbox]
      rfl
  · rw [hexec]
    exact .inr ⟨live, _, hbuilding, rfl, rfl, hbox⟩

/-- **Setup.** A setup goes by the course up to the rendering. -/
theorem attempt_prepares (l : Loader) {st : Setup} (hp : st.worker.phase = .uninitialized)
    (ho : st.around.outbox.isOpen = true) :
    (∃ progress phase fault after,
      Course l st.worker.manifest (st.around.documents + 1) progress phase (.error fault) ∧
      st.attempt l = (.error fault, after) ∧ st.Failed progress phase after) ∨
    ∃ progress live env ready,
      Course l st.worker.manifest (st.around.documents + 1) progress .ready (.ok live) ∧
      Environment.empty.installAll l.source st.worker.manifest.packages = .ok env ∧
      st.attempt l = ready.finish (.ofDocument live.document)
        ⟨l.source, l.registry, env, some live, ⟨st.around.outbox.counters.length⟩⟩ ∧
      st.Prepared progress ready := by
  unfold attempt
  rw [load_eq l hp ho, Loader.load]
  cases hl : l.registry.isEmpty with
  -- Each phase fails with what was posted so far, or hands an engine to the next one.
  | true => exact .inl ⟨_, _, _, _, .unloaded hl, rfl, rfl, ho, rfl⟩
  | false =>
    rw [if_neg Bool.false_ne_true]
    dsimp only
    have hopen : ((st.loaded l.label).entering .installingPackages).around.outbox.isOpen = true :=
      ho
    obtain ⟨begun, result, hinstalling, heq⟩ := installEach_installing
      ⟨l.source, l.registry, .empty, none, ⟨st.around.outbox.counters.length⟩⟩ hopen
      st.worker.manifest.packages
    rw [install_eq _ rfl, show (st.loaded l.label).worker.manifest = st.worker.manifest from rfl,
      heq]
    have hposted := st.begun_posted l.label begun
    cases result with
    | error fault => exact .inl ⟨_, _, _, _, .uninstalled hl hinstalling, rfl, rfl, ho, hposted⟩
    | ok env =>
      cases hinstalling with
      | all installed =>
        rcases fill_course
            ⟨l.source, l.registry, env, none, ⟨st.around.outbox.counters.length⟩⟩ rfl
            (st.begun l.label st.worker.manifest.packages) rfl ho with
          ⟨fault, after, hbuilding, hfill, hfailed⟩ | ⟨live, ready, hbuilding, hfill, hphase, hbox⟩
        · refine .inl ⟨_, _, _, _, .unbuilt hl installed hbuilding, hfill, hfailed.phase,
            hfailed.isOpen, ?_⟩
          rw [hfailed.posted, hposted, List.append_assoc, ← List.map_append]
        · refine .inr ⟨_, live, env, ready, .rendered hl installed hbuilding, installed, hfill,
            hphase, ?_⟩
          rw [hbox]
          unfold posting
          rw [hposted, List.append_assoc, List.map_append]
          rfl

/-- Every setup that starts with an open outbox without a rendering goes by the course. -/
theorem attempt_course (l : Loader) {st : Setup} (hp : st.worker.phase = .uninitialized)
    (ho : st.around.outbox.isOpen = true) (hr : st.around.outbox.isRendered = false) :
    (∃ progress phase fault after,
      Course l st.worker.manifest (st.around.documents + 1) progress phase (.error fault) ∧
      st.attempt l = (.error fault, after) ∧ st.Failed progress phase after) ∨
    ∃ progress live env after,
      Course l st.worker.manifest (st.around.documents + 1) progress .ready (.ok live) ∧
      st.attempt l = (.ok (.ofEngine
        ⟨l.source, l.registry, env, some live, ⟨st.around.outbox.counters.length⟩⟩), after) ∧
      st.Succeeded progress live after := by
  rcases attempt_prepares l hp ho with
    hfailed | ⟨progress, live, env, ready, hcourse, -, heq, hready⟩
  · exact .inl hfailed
  · have hbox := hready.outbox
    rw [finish_eq _ _ hready.phase (by rw [hbox]; exact ho) (by rw [hbox]; exact hr)] at heq
    refine .inr ⟨progress, live, env, _, hcourse, heq, rfl, ?_⟩
    show Outbox.mk ready.around.outbox.isOpen true (ready.around.outbox.posted ++ _)
      ready.around.outbox.counters = _
    rw [hbox, ho]

/-- A setup succeeds only if somebody listens and there was no rendering before. -/
theorem isFresh_of_attempt {l : Loader} {st after : Setup} {relay : Relay}
    (hp : st.worker.phase = .uninitialized) (h : st.attempt l = (.ok relay, after)) :
    st.around.outbox.isOpen = true ∧ st.around.outbox.isRendered = false := by
  cases ho : st.around.outbox.isOpen with
  | false =>
    -- Already the first progress cannot be posted.
    have hnext : st.worker.phase.next = some .loadingRuntime := by rw [hp]; rfl
    have hpost : ∀ text, st.around.outbox.status text
        = (.error (Outbox.closedFault "status"), st.around.outbox) := by
      intro text
      rw [Outbox.status, Outbox.post, ho]
      rfl
    unfold attempt load at h
    rw [advance_next hnext] at h
    unfold post entering at h
    dsimp only at h
    rw [hpost] at h
    cases h
  | true =>
    refine ⟨rfl, ?_⟩
    rcases attempt_prepares l hp ho with
      ⟨progress, phase, fault, last, hcourse, heq, hfailed⟩ |
      ⟨progress, live, env, ready, hcourse, -, heq, hready⟩
    · rw [heq] at h
      cases h
    · rw [heq] at h
      cases hr : st.around.outbox.isRendered with
      | false => rfl
      | true =>
        -- The setup gets as far as the rendering, which is refused.
        have hrendered : ready.around.outbox.isRendered = true := by
          rw [hready.outbox]
          exact hr
        unfold finish post at h
        dsimp only at h
        rw [Outbox.render, if_pos hrendered] at h
        cases h

/-- A setup that ends with a relay had not started before, and went through at one attempt. -/
theorem attempt_of_bootstrap {l : Loader} {st after : Setup} {relay : Relay}
    (h : st.bootstrap l = (.ok relay, after)) :
    st.worker.phase = .uninitialized ∧ st.attempt l = (.ok relay, after) := by
  rw [bootstrap] at h
  split at h
  · rename_i hp
    refine ⟨hp, ?_⟩
    cases ha : st.attempt l with
    | mk reply last =>
      rw [ha] at h
      cases reply with
      | error fault => cases h
      | ok made => exact h
  · cases h

/-- A setup that ends with a relay went by the course up to the rendering. -/
theorem exists_of_bootstrap {l : Loader} {st after : Setup} {relay : Relay}
    (h : st.bootstrap l = (.ok relay, after)) :
    ∃ progress live env,
      Course l st.worker.manifest (st.around.documents + 1) progress .ready (.ok live) ∧
      relay = .ofEngine
        ⟨l.source, l.registry, env, some live, ⟨st.around.outbox.counters.length⟩⟩ ∧
      st.Succeeded progress live after := by
  obtain ⟨hp, ha⟩ := attempt_of_bootstrap h
  obtain ⟨ho, hr⟩ := isFresh_of_attempt hp ha
  rcases attempt_course l hp ho hr with
    ⟨_, _, _, _, _, heq, _⟩ | ⟨progress, live, env, last, hcourse, heq, hsucceeded⟩
  · cases ha.symm.trans heq
  · cases ha.symm.trans heq
    exact ⟨progress, live, env, hcourse, rfl, hsucceeded⟩

/-- The document of a rendering is reachable, and not linked yet. -/
theorem Course.reachable {l : Loader} {m : WorkerManifest} {n : Nat} {progress : List String}
    {phase : Phase} {live : LiveDocument} (h : Course l m n progress phase (.ok live)) :
    live.Reachable ∧ live.link = none := by
  cases h with
  | @rendered env _ _ _ built =>
    cases built with
    | @done found _ _ _ built =>
      have hreachable := found.built_reachable ⟨m.application, env⟩ n
      rw [built] at hreachable
      exact hreachable

/-! ### What a rendering takes -/

/-- What a rendering of the document takes: there are applications, every package is fetched and
    installed in order, the application is registered, the packages that it requires are there
    under some spelling of their names, and the application is done with its document. -/
inductive Renders (l : Loader) (m : WorkerManifest) (n : Nat) (live : LiveDocument) : Prop where
  | intro {env : Environment} {app : Application} (loaded : l.registry.isEmpty = false)
    (installed : Environment.empty.installAll l.source m.packages = .ok env)
    (registered : l.registry.get? m.application.entry = some app)
    (required : ∀ name ∈ m.application.requires, ∃ spec ∈ m.packages, ∃ wheel,
      l.source.Provides spec wheel ∧ wheel.normalizedName = Wheel.normalizeName name)
    (done : app.built ⟨m.application, env⟩ n = (.done, live)) : Renders l m n live

/-- No required package is lacking if each is there under some spelling of its name. -/
theorem lacking_eq_nil_iff {source : PackageSource} {specs : List PackageSpec}
    {env : Environment} (h : Environment.empty.installAll source specs = .ok env)
    (app : ApplicationDescriptor) :
    env.lacking app = [] ↔ ∀ name ∈ app.requires, ∃ spec ∈ specs, ∃ wheel,
      source.Provides spec wheel ∧ wheel.normalizedName = Wheel.normalizeName name := by
  rw [Environment.lacking, List.filter_eq_nil_iff]
  refine forall₂_congr fun name _ => ?_
  rw [Bool.not_eq_true, Bool.not_eq_false', Environment.isInstalled_installAll h]
  exact or_iff_right Bool.false_ne_true

/-- A setup that ends with a document has what its rendering takes. -/
theorem Course.renders {l : Loader} {m : WorkerManifest} {n : Nat} {progress : List String}
    {phase : Phase} {live : LiveDocument} (h : Course l m n progress phase (.ok live)) :
    Renders l m n live := by
  cases h with
  | rendered loaded installed built =>
    cases built with
    | done known lacking built =>
      exact .intro loaded installed known ((lacking_eq_nil_iff installed _).mp lacking) built

/-- A setup that has what a rendering takes ends with the document. -/
theorem Course.eq_of_renders {l : Loader} {m : WorkerManifest} {n : Nat}
    {progress : List String} {phase : Phase} {result : Except Fault LiveDocument}
    (h : Course l m n progress phase result) {live : LiveDocument} (hr : Renders l m n live) :
    result = .ok live := by
  obtain ⟨loaded, installed, registered, required, done⟩ := hr
  have hlack := (lacking_eq_nil_iff installed m.application).mpr required
  cases h with
  | unloaded empty =>
    rw [loaded] at empty
    cases empty
  | uninstalled _ stopped =>
    -- Installing is determined, so it cannot both stop and go through.
    cases installed.symm.trans stopped.eq_installAll
  | unbuilt _ others stopped =>
    obtain rfl := Except.ok.inj (installed.symm.trans others)
    cases stopped with
    | unknownEntry unknown => cases registered.symm.trans unknown
    | missingPackages _ lacking => exact absurd hlack lacking
    | failed known _ built =>
      obtain rfl := Option.some.inj (registered.symm.trans known)
      cases done.symm.trans built
    | panicked known _ built =>
      obtain rfl := Option.some.inj (registered.symm.trans known)
      cases done.symm.trans built
  | rendered _ others built =>
    obtain rfl := Except.ok.inj (installed.symm.trans others)
    cases built with
    | done known _ built =>
      obtain rfl := Option.some.inj (registered.symm.trans known)
      cases done.symm.trans built
      rfl

/-- A setup that has not started ends with a relay if it has what a rendering takes. -/
theorem exists_bootstrap_of_renders {l : Loader} {st : Setup}
    (hp : st.worker.phase = .uninitialized) (ho : st.around.outbox.isOpen = true)
    (hr : st.around.outbox.isRendered = false) {live : LiveDocument}
    (h : Renders l st.worker.manifest (st.around.documents + 1) live) :
    ∃ relay after, st.bootstrap l = (.ok relay, after) := by
  rw [bootstrap, if_pos hp]
  rcases attempt_course l hp ho hr with
    ⟨progress, phase, fault, after, hcourse, -⟩ | ⟨progress, other, env, after, -, heq, -⟩
  · cases hcourse.eq_of_renders h
  · rw [heq]
    exact ⟨_, _, rfl⟩

/-! ### What is posted -/

/-- The last message of a setup. -/
def closing (phase : Phase) : Except Fault LiveDocument → OutboundMessage
  | .ok live => .render (.ofDocument live.document)
  | .error fault => .error phase fault.message

/-- The failure of a setup is posted while somebody listens. -/
theorem report_posted (fault : Fault) {st : Setup} (ho : st.around.outbox.isOpen = true) :
    (st.report fault).worker = st.worker ∧
      (st.report fault).around.outbox.posted
        = st.around.outbox.posted ++ [.error st.worker.phase fault.message] := by
  have hpost : st.around.outbox.error st.worker.phase fault.message = _ :=
    Outbox.post_of_isOpen ho _
  unfold report post Surroundings.notify
  dsimp only
  rw [hpost]
  exact ⟨rfl, rfl⟩

/-- **Bootstrap.** A worker that has started is left alone.  Any other, with an open outbox, posts
    its progress and then one last message: the rendering, if and only if there is all that it
    takes, and else the failure of the phase that it has reached.  Nothing else is posted, whatever
    the application does. -/
theorem bootstrap_trace (l : Loader) (st : Setup) :
    (st.worker.phase ≠ .uninitialized →
      st.bootstrap l = (.error (.transition st.worker.phase .loadingRuntime), st)) ∧
    (st.worker.phase = .uninitialized → st.around.outbox.isOpen = true →
      st.around.outbox.isRendered = false →
      ∃ progress phase result,
        Course l st.worker.manifest (st.around.documents + 1) progress phase result ∧
        (st.bootstrap l).2.around.outbox.posted
          = st.around.outbox.posted ++ progress.map .status ++ [closing phase result] ∧
        (st.bootstrap l).2.worker.phase = phase ∧
        (st.bootstrap l).1.map (·.engine.document) = result.map some ∧
        ∀ live, result = .ok live ↔
          Renders l st.worker.manifest (st.around.documents + 1) live) := by
  refine ⟨fun hp => ?_, fun hp ho hr => ?_⟩
  · rw [bootstrap, if_neg hp]
  · rw [bootstrap, if_pos hp]
    -- The setup stops at a fault, which is reported, or it renders, and nothing more is posted.
    rcases attempt_course l hp ho hr with
      ⟨progress, phase, fault, after, hcourse, heq, hfailed⟩ |
      ⟨progress, live, env, after, hcourse, heq, hsucceeded⟩
    · obtain ⟨hworker, hposted⟩ := report_posted fault hfailed.isOpen
      rw [heq]
      refine ⟨progress, phase, _, hcourse, ?_, ?_, rfl, fun live => ⟨?_, hcourse.eq_of_renders⟩⟩
      · rw [hposted, hfailed.posted, hfailed.phase]
        rfl
      · rw [hworker, hfailed.phase]
      · intro h
        cases h
    · rw [heq]
      refine ⟨progress, .ready, _, hcourse, ?_, hsucceeded.phase, rfl,
        fun other => ⟨fun h => ?_, hcourse.eq_of_renders⟩⟩
      · rw [hsucceeded.outbox]
        rfl
      · obtain rfl := Except.ok.inj h
        exact hcourse.renders

end Setup

/-! ### A worker with a slider -/

/-- A watcher that shows the value of a slider when it changes. -/
def Watcher.slider : Watcher :=
  ⟨"m1", "value", .null, fun _ value =>
    .perform (.setAttr "m1" "shown" value .runtime) fun _ => .finish .done .null⟩

/-- An application with a slider that is watched.  Its value changes while the application is
    still at work. -/
def Application.slider : Application :=
  ⟨fun _ =>
    .perform (.addRoot "Slider" [("value", .int 1)] .runtime) fun _ =>
      .watch Watcher.slider.id Watcher.slider.attr Watcher.slider.memory Watcher.slider.body
        (.perform (.setAttr "m1" "value" (.int 2) .runtime) fun _ => .finish .done .null)⟩

/-- A loader with one application, and no packages. -/
def Loader.slider : Loader :=
  ⟨Loader.defaultLabel, (MemorySource.ofPairs []).toSource, .ofPairs [("slider", .slider)]⟩

/-- A worker that is to run the application. -/
def Setup.slider : Setup :=
  ⟨.ofManifest ⟨⟨"slider", Loader.defaultLabel⟩, [], ⟨"slider", [], false, []⟩⟩, .empty⟩

/-- The setup with the slider rendered. -/
def Setup.sliderReady : Setup := (Setup.slider.bootstrap .slider).2

/-- The relay of the slider. -/
def Relay.slider : Relay :=
  match (Setup.slider.bootstrap .slider).1 with
  | .ok relay => relay
  | .error _ =>
    .ofEngine ⟨Loader.slider.source, Loader.slider.registry, .empty, none, ⟨0⟩⟩

/-- The slider can be set up. -/
theorem Setup.bootstrap_slider :
    Setup.slider.bootstrap .slider = (.ok .slider, Setup.sliderReady) := rfl

/-- A loader with one application in the place of the slider. -/
def Loader.running (app : Application) : Loader :=
  { Loader.slider with registry := .ofPairs [("slider", app)] }

/-- The setup with the application run. -/
def Setup.running (app : Application) : Setup := (Setup.slider.bootstrap (.running app)).2

/-- The relay of the application, if it is done. -/
def Relay.running (app : Application) : Relay :=
  match (Setup.slider.bootstrap (.running app)).1 with
  | .ok relay => relay
  | .error _ => .slider

/-- The slider is rendered. -/
theorem Setup.bootstrap_trace_slider :
    Setup.slider.worker.phase = .uninitialized ∧ Setup.slider.around.outbox.isOpen = true ∧
      Setup.slider.around.outbox.isRendered = false ∧
      (Setup.slider.bootstrap .slider).2.worker.phase = .ready ∧
      ∃ progress phase result,
        Setup.Course .slider Setup.slider.worker.manifest 1 progress phase result ∧
        (Setup.slider.bootstrap .slider).2.around.outbox.posted
          = progress.map .status ++ [Setup.closing phase result] ∧
        (Setup.slider.bootstrap .slider).2.worker.phase = phase ∧
        (Setup.slider.bootstrap .slider).1.map (·.engine.document) = result.map some ∧
        ∀ live, result = .ok live ↔
          Setup.Renders .slider Setup.slider.worker.manifest 1 live :=
  ⟨rfl, rfl, rfl, by rfl, (Setup.bootstrap_trace .slider .slider).2 rfl rfl rfl⟩

end DocRelay
