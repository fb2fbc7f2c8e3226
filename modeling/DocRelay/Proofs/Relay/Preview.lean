import DocRelay.Proofs.Application.Preview
import DocRelay.Proofs.Relay.Binary

namespace DocRelay

/-!
# The preview relayed

A host that edits the text of the preview sees it annotated in the pane.  The pane is in step with
the editor unless one patch has changed the text more often than watchers are run in a cycle; then
it shows the text of the last change for which they were run, until the text is changed again.

* `InboundMessage.asked` — the events that a message of the host asks for;
* `Preview.renew`, `Preview.recent` — the values that the editor was given by the last patch that
  changed it;
* `Relay.turn_shows`, `Relay.foldl_shows` — one message of a host that edits the text, and a run;
* `Setup.preview_inStep` — the pane is in step with the editor;
* `Setup.preview_behind` — a patch after which it is not.
-/

/-- The events that a message of the host asks for. -/
def InboundMessage.asked : InboundMessage → List Event
  | .patch text =>
    match Relay.readPatch text with
    | .ok change => Patch.events change
    | .error _ => []
  | .rendered | .location _ => []

namespace InboundMessage

variable {text : String} {change : Json} {c after : Content}

/-- A patch that can be decoded asks for its events. -/
theorem asked_of_decode (read : Relay.readPatch text = .ok change) {events : List Event}
    (hj : Patch.decode change = .ok events) : (InboundMessage.patch text).asked = events := by
  rw [asked, read]
  show Patch.events change = events
  rw [Patch.events, hj]

/-- A patch that is applied consists of what the message asks for. -/
theorem decode_of_applied (read : Relay.readPatch text = .ok change)
    (applied : c.applied change = .ok after) :
    Patch.decode change = .ok (InboundMessage.patch text).asked := by
  obtain ⟨events, hj, -⟩ := Content.exists_of_applied applied
  rw [asked_of_decode read hj]
  exact hj

/-- A patch that is refused although what it asks for is possible asks for nothing. -/
theorem asked_of_refused {fault : Fault} (refused : c.patched text = .error fault)
    (possible : c.followAll (InboundMessage.patch text).asked = .ok after) :
    (InboundMessage.patch text).asked = [] := by
  rw [Content.patched] at refused
  cases hread : Relay.readPatch text with
  | error cause => rw [asked, hread]
  | ok change =>
    rw [hread] at refused
    cases hj : Patch.decode change with
    | error cause =>
      rw [asked, hread]
      show Patch.events change = []
      rw [Patch.events, hj]
    | ok events =>
      rw [asked_of_decode hread hj] at possible
      cases refused.symm.trans ((Content.applied_eq_ok_iff hj).mpr possible)

end InboundMessage

namespace Preview

variable {first : Json} {made values : List Json}

/-- The new values of the last patch that changed the editor, when one more patch asks for values;
    before the first patch the editor has the first value. -/
def renew (first : Json) (made values : List Json) : List Json :=
  match (made.getLastD first).news values with
  | [] => made
  | value :: rest => value :: rest

/-- The new values of the last patch that changed the editor, if patches ask for values in turn. -/
def recent (first : Json) (batches : List (List Json)) : List Json :=
  batches.foldl (renew first) []

/-- The last of the new values is the value of the editor. -/
theorem getLastD_renew :
    (renew first made values).getLastD first
      = ((made.getLastD first).news values).getLastD (made.getLastD first) := by
  rw [renew]
  cases (made.getLastD first).news values with
  | nil => rfl
  | cons value rest => rw [List.getLastD_cons, List.getLastD_cons]

/-- Of the new values that are taken, the last is the one that is shown. -/
theorem getLastD_take_renew {limit : Nat} (h : 0 < limit) :
    ((renew first made values).take limit).getLastD first
      = (((made.getLastD first).news values).take limit).getLastD
          ((made.take limit).getLastD first) := by
  obtain ⟨n, rfl⟩ := Nat.exists_eq_add_one.mpr h
  rw [renew]
  cases (made.getLastD first).news values with
  | nil => rfl
  | cons value rest => rw [List.take_succ_cons, List.getLastD_cons, List.getLastD_cons]

/-- There are no more new values than a patch asks for. -/
theorem length_recent_le {batches : List (List Json)} {limit : Nat}
    (h : ∀ values ∈ batches, values.length ≤ limit) : (recent first batches).length ≤ limit := by
  suffices ∀ made : List Json, made.length ≤ limit →
      (batches.foldl (renew first) made).length ≤ limit from this [] (Nat.zero_le _)
  induction batches with
  | nil => exact fun made hmade => hmade
  | cons values rest ih =>
    intro made hmade
    refine ih (fun others hothers => h others (List.mem_cons_of_mem _ hothers)) _ ?_
    have hnews := (Json.news_sublist (made.getLastD first) values).length_le
    rw [renew]
    split
    · exact hmade
    · rename_i value others heq
      rw [← heq]
      exact Nat.le_trans hnews (h values List.mem_cons_self)

end Preview

namespace Relay

open Preview

variable {r : Relay} {s : Surroundings} {live : LiveDocument} {value shown : Json}

/-- A patch that gives the editor values in turn, and all that follows from it. -/
theorem made_shows (h : r.Serves s live) (shows : Shows live value shown) {change : Json}
    {values : List Json} (hj : Patch.decode change = .ok (values.map edit)) :
    Shows (made live s change).cycleEnd.live ((value.news values).getLastD value)
      (((value.news values).take cycleLimit).getLastD shown) := by
  obtain ⟨c, hfollowed, heffects, hroots, heditor⟩ :=
    Content.exists_followAll_modelChanged shows.editor values
  -- The patch changes the editor only, so the pane is as it was.
  have hpane : c.attr? "m2" "object" = live.document.content.attr? "m2" "object" := by
    refine Content.attr?_followAll hfollowed fun event hevent => ?_
    obtain ⟨new, -, rfl⟩ := List.mem_map.mp hevent
    rfl
  have hmade : made live s change
      = Scene.changed ⟨live, s⟩ c ((value.news values).map edit) .host := by
    rw [← heffects]
    exact congrArg Prod.snd (Scene.enqueue_applyPatch_of_ok (s := ⟨live, s⟩) hj hfollowed .host)
  have hchanged : Shows (made live s change).live ((value.news values).getLastD value) shown := by
    rw [hmade]
    exact ⟨shows.watchers, hroots.trans shows.roots, heditor, hpane.trans shows.pane⟩
  refine cycleEnd_shows hchanged ?_
  rw [hmade]
  show live.queue ++ _ = _
  rw [h.reachable.atRest.1, List.map_map]
  rfl

/-- **Step.** A message that asks for nothing but values of the editor. -/
theorem turn_shows (h : r.Serves s live) (shows : Shows live value shown) {m : InboundMessage}
    {values : List Json} (asks : m.asked = values.map edit) :
    ∃ after, (turn (r, s) m).1.Serves (turn (r, s) m).2 after ∧
      Shows after ((value.news values).getLastD value)
        (((value.news values).take cycleLimit).getLastD shown) := by
  have hnothing : m.asked = [] → Shows live ((value.news values).getLastD value)
      (((value.news values).take cycleLimit).getLastD shown) := by
    intro hasked
    obtain rfl := List.map_eq_nil_iff.mp (asks.symm.trans hasked)
    exact shows
  cases m with
  | rendered =>
    obtain ⟨after, hserves, -, -, hdocument, hwatchers⟩ := turn_rendered h
    exact ⟨after, hserves, (hnothing rfl).congr (congrArg Document.content hdocument) hwatchers⟩
  | location text =>
    obtain ⟨after, hserves, -, -, hcontent, hwatchers⟩ := turn_location h text
    exact ⟨after, hserves, (hnothing rfl).congr hcontent hwatchers⟩
  | patch text =>
    cases turn_answered h text with
    | refused refused _ _ serves =>
      -- Values of the editor can always be set, so there are none.
      obtain ⟨c, hfollowed, -⟩ := Content.exists_followAll_modelChanged shows.editor values
      rw [← asks] at hfollowed
      exact ⟨live, serves, hnothing (InboundMessage.asked_of_refused refused hfollowed)⟩
    | quiet read applied _ _ _ serves =>
      have hj := InboundMessage.decode_of_applied read applied
      exact ⟨_, serves, made_shows h shows (asks ▸ hj)⟩
    | forwarded read applied _ _ _ _ serves =>
      have hj := InboundMessage.decode_of_applied read applied
      exact ⟨_, serves, made_shows h shows (asks ▸ hj)⟩

/-- **Run.** Messages that ask for nothing but values of the editor. -/
theorem foldl_shows (h : r.Serves s live) (first : Json) (made : List Json)
    (shows : Shows live (made.getLastD first) ((made.take cycleLimit).getLastD first))
    {messages : List InboundMessage} {batches : List (List Json)}
    (asks : messages.map InboundMessage.asked = batches.map (·.map edit)) :
    let last := messages.foldl turn (r, s)
    let recent := batches.foldl (renew first) made
    ∃ after, last.1.Serves last.2 after ∧
      Shows after (recent.getLastD first) ((recent.take cycleLimit).getLastD first) := by
  induction messages generalizing r s live made batches with
  | nil =>
    obtain rfl := List.map_eq_nil_iff.mp asks.symm
    exact ⟨live, h, shows⟩
  | cons m rest ih =>
    obtain ⟨values, others, rfl, hm, hrest⟩ := List.map_eq_cons_iff.mp asks.symm
    obtain ⟨next, hserves, hshows⟩ := turn_shows h shows hm.symm
    rw [← getLastD_renew, ← getLastD_take_renew (by decide)] at hshows
    exact ih hserves _ hshows hrest.symm

end Relay

namespace Setup

open Preview

variable {l : Loader} {st : Setup}

/-- There is a relay of the preview as soon as the packages are installed. -/
theorem exists_bootstrap_preview (registered : l.registry = registry)
    (entry : st.worker.manifest.application.entry = "mirror")
    (texts : GivesTexts st.worker.manifest.application)
    (hp : st.worker.phase = .uninitialized) (ho : st.around.outbox.isOpen = true)
    (hr : st.around.outbox.isRendered = false) {env : Environment}
    (installed : Environment.empty.installAll l.source st.worker.manifest.packages = .ok env)
    (lacking : env.lacking st.worker.manifest.application = []) :
    ∃ relay after, st.bootstrap l = (.ok relay, after) := by
  have loaded : l.registry.isEmpty = false := by
    rw [registered]
    rfl
  have found : l.registry.get? st.worker.manifest.application.entry = some ⟨script⟩ := by
    rw [registered, entry]
    rfl
  obtain ⟨live, built, -⟩ := built_shows ⟨st.worker.manifest.application, env⟩ texts
    (st.around.documents + 1)
  exact exists_bootstrap_of_renders hp ho hr
    (.intro loaded installed found ((lacking_eq_nil_iff installed _).mp lacking) built)

/-- A relay of the preview serves a document with the first text of the editor in the pane. -/
theorem serves_preview (registered : l.registry = registry)
    (entry : st.worker.manifest.application.entry = "mirror")
    (texts : GivesTexts st.worker.manifest.application) {relay : Relay} {after : Setup}
    (h : st.bootstrap l = (.ok relay, after)) :
    ∃ live, relay.Serves after.around live ∧
      Shows live (firstValue st.worker.manifest.application)
        (firstValue st.worker.manifest.application) := by
  obtain ⟨progress, live, env, hcourse, rfl, -⟩ := exists_of_bootstrap h
  obtain ⟨started, hserves, -⟩ := serves_of_bootstrap h
  obtain rfl : live = started := Option.some.inj hserves.document
  obtain @⟨env, found, -, -, known, -, done⟩ := hcourse.renders
  rw [registered, entry] at known
  obtain rfl : ⟨script⟩ = found := Option.some.inj known
  obtain ⟨other, built, hshows⟩ := built_shows ⟨st.worker.manifest.application, env⟩ texts
    (st.around.documents + 1)
  obtain rfl := congrArg Prod.snd (done.symm.trans built)
  exact ⟨_, hserves, hshows⟩

/-- **In step.** Let the application of a manifest be the preview, with texts for what it is given.
    There is a relay as soon as the packages are installed.  Let a host then send any messages that
    ask for nothing but values of the editor, any number of them by each patch.  The editor has the
    last value, and the pane shows the text of the last new value that the last patch to change the
    editor has given it within the limit of a cycle: that of the editor, if there were no more. -/
theorem preview_inStep (registered : l.registry = registry)
    (entry : st.worker.manifest.application.entry = "mirror")
    (texts : GivesTexts st.worker.manifest.application) :
    let app := st.worker.manifest.application
    (st.worker.phase = .uninitialized → st.around.outbox.isOpen = true →
      st.around.outbox.isRendered = false →
      ∀ env, Environment.empty.installAll l.source st.worker.manifest.packages = .ok env →
        env.lacking app = [] → ∃ relay after, st.bootstrap l = (.ok relay, after)) ∧
    ∀ relay after, st.bootstrap l = (.ok relay, after) → ∀ (messages : List InboundMessage)
      (batches : List (List Json)),
      messages.map InboundMessage.asked = batches.map (·.map edit) →
      let first := firstValue app
      let made := recent first batches
      let last := messages.foldl Relay.turn (relay, after.around)
      ∃ live, last.1.engine.document = some live ∧ live.document.roots = ["m1", "m2"] ∧
        live.document.attr? "m1" "value" = some (made.getLastD first) ∧
        live.document.attr? "m2" "object"
          = some (.str (annotate (editorText ((made.take cycleLimit).getLastD first)))) ∧
        -- The pane is in step if no more values were new than watchers are run for.
        (made.length ≤ cycleLimit → live.document.attr? "m2" "object"
          = some (.str (annotate (editorText (made.getLastD first))))) ∧
        ((∀ values ∈ batches, values.length ≤ cycleLimit) → made.length ≤ cycleLimit) := by
  intro app
  refine ⟨fun hp ho hr env installed lacking => ?_, fun relay after h messages batches asks => ?_⟩
  · exact exists_bootstrap_preview registered entry texts hp ho hr installed lacking
  · intro first made last
    obtain ⟨live, hserves, hshows⟩ := serves_preview registered entry texts h
    obtain ⟨here, hhere, hend⟩ := Relay.foldl_shows hserves first [] hshows asks
    refine ⟨here, hhere.document, hend.roots, hend.editor, hend.pane, fun hle => ?_,
      length_recent_le⟩
    have htaken : made.take cycleLimit = made := List.take_of_length_le hle
    rw [← htaken]
    exact hend.pane

end Setup

/-! ### A preview that is edited -/

/-- A loader with the applications of the command line, and no packages. -/
def Loader.preview : Loader := { Loader.slider with registry := Preview.registry }

/-- A worker that is to run the preview, with a first text. -/
def Setup.preview : Setup :=
  ⟨.ofManifest ⟨⟨"preview", Loader.defaultLabel⟩, [],
    ⟨"mirror", [], false, [("placeholder", .str "x = 1")]⟩⟩, .empty⟩

namespace Preview

/-- The manifest gives texts. -/
theorem givesTexts_preview : GivesTexts Setup.preview.worker.manifest.application := by
  intro key hkey value hvalue
  rcases List.mem_cons.mp hkey with rfl | hkey
  · cases hvalue
  · obtain rfl := List.mem_singleton.mp hkey
    exact ⟨_, (Option.some.inj hvalue).symm⟩

/-- The patch that gives the editor values in turn. -/
def editing (values : List Json) : InboundMessage :=
  .patch (Patch.toJson (values.map edit)).compact

/-- It asks for the values, if they are in canonical form and a text carries them. -/
theorem asked_editing {values : List Json} (canonical : ∀ value ∈ values, value.IsCanonical)
    (portable : ∀ value ∈ values, value.IsPortable (Json.depthLimit - 3)) :
    (editing values).asked = values.map edit := by
  have tidy : ∀ event ∈ values.map edit, event.IsTidy := by
    intro event hevent
    obtain ⟨value, hvalue, rfl⟩ := List.mem_map.mp hevent
    exact canonical value hvalue
  have hread : Relay.readPatch (Patch.toJson (values.map edit)).compact
      = .ok (Patch.toJson (values.map edit)) := by
    refine Relay.readPatch_toJson tidy fun event hevent => ?_
    obtain ⟨value, hvalue, rfl⟩ := List.mem_map.mp hevent
    have hvalue := portable value hvalue
    simp [Json.IsPortable, Json.depthLimit, Event.toJson, Model.reference] at hvalue ⊢
    exact hvalue
  exact InboundMessage.asked_of_decode hread (Patch.decode_toJson tidy)

end Preview

namespace Setup

open Preview

/-- Two patches edit the text of the preview, the second one in two steps. -/
theorem preview_inStep_edited :
    let one : List Json := [.str "x = 1", .str "x"]
    let two : List Json := [.null, .str "x = 2\ny"]
    let messages := [.rendered, editing one, editing two]
    Loader.preview.registry = registry ∧
      Setup.preview.worker.manifest.application.entry = "mirror" ∧
      GivesTexts Setup.preview.worker.manifest.application ∧
      messages.map InboundMessage.asked = [[], one, two].map (·.map edit) ∧
      ∃ relay after live, Setup.preview.bootstrap .preview = (.ok relay, after) ∧
        (messages.foldl Relay.turn (relay, after.around)).1.engine.document = some live ∧
        live.document.attr? "m1" "value" = some (.str "x = 2\ny") ∧
        live.document.attr? "m2" "object"
          = some (.str "```python\nx = 2\ny\n```\n\n_2 lines_") := by
  intro one two messages
  have registered : Loader.preview.registry = registry := rfl
  have entry : Setup.preview.worker.manifest.application.entry = "mirror" := rfl
  have hone : (editing one).asked = one.map edit := by
    refine asked_editing ?_ ?_ <;> simp [one, Json.IsCanonical, Json.canonical, Json.IsPortable]
  have htwo : (editing two).asked = two.map edit := by
    refine asked_editing ?_ ?_ <;> simp [two, Json.IsCanonical, Json.canonical, Json.IsPortable]
  have asks : messages.map InboundMessage.asked = [[], one, two].map (·.map edit) := by
    rw [List.map_cons, List.map_cons, List.map_cons, hone, htwo]
    rfl
  obtain ⟨hready, hrun⟩ := preview_inStep registered entry givesTexts_preview
  obtain ⟨relay, after, h⟩ := hready rfl rfl rfl .empty rfl rfl
  obtain ⟨live, hlive, -, heditor, hpane, -⟩ := hrun relay after h messages _ asks
  have hshown : annotate (editorText (.str "x = 2\ny"))
      = "```python\nx = 2\ny\n```\n\n_2 lines_" := by decide +kernel
  rw [← hshown]
  exact ⟨registered, entry, givesTexts_preview, asks, relay, after, live, h, hlive, heditor, hpane⟩

/-- More values than watchers are run for in a cycle: numbers, and then a text. -/
def manyValues : List Json := (List.range cycleLimit).map (fun n => .int n) ++ [.str "x = 2"]

/-- A patch can ask for all of them. -/
theorem asked_manyValues : (editing manyValues).asked = manyValues.map edit := by
  refine asked_editing (fun value hvalue => ?_) fun value hvalue => ?_
  · rcases List.mem_append.mp hvalue with hvalue | hvalue
    · obtain ⟨n, -, rfl⟩ := List.mem_map.mp hvalue
      rfl
    · obtain rfl := List.mem_singleton.mp hvalue
      rfl
  · rcases List.mem_append.mp hvalue with hvalue | hvalue
    · obtain ⟨n, hn, rfl⟩ := List.mem_map.mp hvalue
      have hlt : n < 1024 := List.mem_range.mp hn
      show Json.IsWord n
      unfold Json.IsWord Json.maxWord
      omega
    · obtain rfl := List.mem_singleton.mp hvalue
      trivial

/-- **Out of step.** One patch gives the editor a thousand and twenty-four numbers and then a text:
    the text is in the editor, but not in the pane. -/
theorem preview_behind :
    let messages := [.rendered, editing manyValues]
    messages.map InboundMessage.asked = [[], manyValues].map (·.map edit) ∧
      ∃ relay after live, Setup.preview.bootstrap .preview = (.ok relay, after) ∧
        (messages.foldl Relay.turn (relay, after.around)).1.engine.document = some live ∧
        live.document.attr? "m1" "value" = some (.str "x = 2") ∧
        live.document.attr? "m2" "object" = some (.str (annotate "")) ∧
        annotate "" ≠ annotate "x = 2" := by
  intro messages
  have registered : Loader.preview.registry = registry := rfl
  have entry : Setup.preview.worker.manifest.application.entry = "mirror" := rfl
  have asks : messages.map InboundMessage.asked = [[], manyValues].map (·.map edit) := by
    rw [List.map_cons, List.map_cons, asked_manyValues]
    rfl
  obtain ⟨relay, after, h⟩ :=
    exists_bootstrap_preview registered entry givesTexts_preview rfl rfl rfl rfl rfl
  obtain ⟨start, hserves, hshows⟩ := serves_preview registered entry givesTexts_preview h
  obtain ⟨live, hlive, hlast⟩ := Relay.foldl_shows hserves (.str "x = 1") [] hshows asks
  have hnone : renew (.str "x = 1") [] [] = [] := rfl
  rw [List.foldl_cons, List.foldl_cons, List.foldl_nil, hnone, getLastD_renew,
    getLastD_take_renew (by decide)] at hlast
  -- Every value is another one than that before it, so all of them are news.
  have hnews : (([] : List Json).getLastD (.str "x = 1")).news manyValues = manyValues :=
    (Json.news_sublist _ _).eq_of_length (by decide +kernel)
  have hvalue : manyValues.getLastD (([] : List Json).getLastD (.str "x = 1")) = .str "x = 2" :=
    List.getLastD_concat
  have hshown : editorText ((manyValues.take cycleLimit).getLastD
      ((([] : List Json).take cycleLimit).getLastD (.str "x = 1"))) = "" := by decide +kernel
  rw [hnews, hvalue] at hlast
  refine ⟨asks, relay, after, live, h, hlive.document, hlast.editor, ?_, by decide +kernel⟩
  rw [← hshown]
  exact hlast.pane

end Setup

end DocRelay
