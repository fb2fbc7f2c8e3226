import DocRelay.Application.Preview
import DocRelay.Proofs.Application.Building
import DocRelay.Proofs.Document.Patching
import DocRelay.Proofs.Document.Retrace

namespace DocRelay

/-!
# The preview at work

The editor is the root `m1`, the pane is the root `m2`.  A patch may give the editor several texts,
one after the other: the editor has the last of them at once, and the pane follows text by text, as
far as a cycle runs watchers.

* `Json.news` — the values that are other ones than those before them;
  `Content.exists_followAll_modelChanged` — an attribute that is given values in turn;
* `Scene.run_ofDocument` — a script on a document without watchers;
* `Preview.Shows` — what the editor has and what the pane shows;
* `Preview.built_shows` — the application is done, whatever texts the manifest gives;
* `Preview.react_shows`, `Preview.deliver_shows`, `Preview.cycleEnd_shows` — the pane behind one
  change of the editor, and behind several.
-/

/-! ### Values of an attribute in turn -/

/-- The values that are news: each is another one than the value before it. -/
def Json.news (old : Json) : List Json → List Json
  | [] => []
  | value :: rest => if old.same value then news old rest else value :: news value rest

/-- News are among the values, and in their order. -/
theorem Json.news_sublist (old : Json) (values : List Json) : (news old values).Sublist values := by
  induction values generalizing old with
  | nil => exact .slnil
  | cons value rest ih =>
    rw [news]
    split
    · exact (ih old).cons _
    · exact (ih value).cons_cons _

namespace Content

variable {c : Content} {id attr : String} {old : Json}

/-- An attribute that is there can be given any value. -/
theorem exists_follow_modelChanged (h : c.attr? id attr = some old) (value : Json) :
    ∃ after, c.follow (.modelChanged id attr value) = .ok after ∧ after.roots = c.roots ∧
      after.attr? id attr = some (if old.same value then old else value) := by
  obtain ⟨m, hm, hold⟩ := Option.bind_eq_some_iff.mp h
  have hholds : Document.holds m attr value = old.same value := by rw [Document.holds, hold]
  rw [follow, hm]
  dsimp only
  rw [hholds]
  cases old.same value with
  | true => exact ⟨c, rfl, rfl, h⟩
  | false => exact ⟨_, rfl, rfl, (attr?_put hm id attr).trans (if_pos ⟨rfl, rfl⟩)⟩

/-- **Values in turn.** An attribute that is there can be given any values in turn; the changes are
    those that are news, and it has the last of them. -/
theorem exists_followAll_modelChanged (h : c.attr? id attr = some old) (values : List Json) :
    ∃ after, c.followAll (values.map (.modelChanged id attr)) = .ok after ∧
      c.effects (values.map (.modelChanged id attr))
        = (Json.news old values).map (.modelChanged id attr) ∧
      after.roots = c.roots ∧ after.attr? id attr = some ((Json.news old values).getLastD old) := by
  induction values generalizing c old with
  | nil => exact ⟨c, rfl, rfl, rfl, h⟩
  | cons value rest ih =>
    obtain ⟨mid, hmid, hroots, hattr⟩ := exists_follow_modelChanged h value
    obtain ⟨after, hafter, heffects, hroots', hattr'⟩ := ih hattr
    refine ⟨after, ?_, ?_, hroots'.trans hroots, ?_⟩
    · rw [List.map_cons, followAll, hmid]
      exact hafter
    · rw [List.map_cons, effects_cons hmid, heffects, effect, changes_modelChanged h, Json.news]
      cases old.same value <;> rfl
    · rw [hattr', Json.news]
      cases old.same value with
      | true => rfl
      | false => exact congrArg some (List.getLastD_cons ..).symm

end Content

namespace Scene

/-- Setting an attribute by what can be followed changes the content and lengthens the queue. -/
theorem enqueue_setAttr_of_ok {s : Scene} {id attr : String} {value : Json} {c : Content}
    (hv : value.IsCanonical)
    (h : s.live.document.content.follow (.modelChanged id attr value) = .ok c) (origin : Origin) :
    let made := s.live.document.content.effect (.modelChanged id attr value)
    s.enqueue (.setAttr id attr value origin)
      = (.ok (.changed !made.isEmpty), s.changed c made origin) := by
  intro made
  have hset : s.live.document.setAttr id attr value
      = .ok (s.live.document.withContent c, made) := Document.applyEvent_follow h
  have hcanonical : value.canonical = value := hv
  rw [enqueue, Document.perform, hcanonical, hset]
  rfl

/-- An operation of a script on a document without watchers changes the document, and nothing is left
    to deal with. -/
theorem run_ofDocument {s : Scene} {d : Document} (h : s.live = .ofDocument d) (op : Operation)
    (next : Except Fault Reply → Script) :
    ∃ after : Scene, after.live = .ofDocument (d.perform op).2.1 ∧
      (Script.perform op next).run (fun op s => s.perform op) s
        = (next (d.perform op).1).run (fun op s => s.perform op) after := by
  obtain ⟨live, around⟩ := s
  obtain rfl : live = .ofDocument d := h
  have hunawaited : (enqueue ⟨.ofDocument d, around⟩ op).2.IsUnawaited := isUnawaited_of_nil rfl
  refine ⟨(perform ⟨.ofDocument d, around⟩ op).2, ?_, rfl⟩
  show (enqueue ⟨.ofDocument d, around⟩ op).2.settle.live = _
  have hrest : (enqueue ⟨.ofDocument d, around⟩ op).2.live.dispatching = false := rfl
  rw [settle, hrest, if_neg Bool.false_ne_true, dispatch_eq, forward_live,
    cycleEnd_unawaited hunawaited]
  rfl

end Scene

namespace Preview

/-! ### What is shown -/

/-- The watcher that shows the text of the editor. -/
def watcher : Watcher := ⟨"m1", "value", .null, display "m2"⟩

/-- The change by which the editor gets a value. -/
abbrev edit (value : Json) : Event := .modelChanged "m1" "value" value

/-- The editor has a value, and the pane shows the text of a value. -/
structure Shows (d : LiveDocument) (value shown : Json) : Prop where
  watchers : d.watchers = [watcher]
  roots : d.document.content.roots = ["m1", "m2"]
  editor : d.document.content.attr? "m1" "value" = some value
  pane : d.document.content.attr? "m2" "object"
    = some (.str (annotate (editorText shown)))

/-- What is shown depends on the content and on the watchers only. -/
theorem Shows.congr {d e : LiveDocument} {value shown : Json} (h : Shows d value shown)
    (content : e.document.content = d.document.content) (watchers : e.watchers = d.watchers) :
    Shows e value shown := by
  obtain ⟨hwatchers, hroots, heditor, hpane⟩ := h
  rw [← content] at hroots heditor hpane
  exact ⟨watchers.trans hwatchers, hroots, heditor, hpane⟩

/-! ### The pane follows -/

/-- Shows a text in the pane. -/
theorem display_run {s : Scene} {old : String}
    (h : s.live.document.content.attr? "m2" "object" = some (.str old)) (memory value : Json) :
    ∃ c made,
      (display "m2" memory value).run (fun op s => s.enqueue op) s
        = ((.done, memory), s.changed c made .runtime) ∧
      (∀ event ∈ made, ¬watcher.Awaits event) ∧
      c.roots = s.live.document.content.roots ∧
      c.attr? "m1" "value" = s.live.document.content.attr? "m1" "value" ∧
      c.attr? "m2" "object" = some (.str (annotate (editorText value))) := by
  obtain ⟨c, hc, hroots, hpane⟩ :=
    Content.exists_follow_modelChanged h (.str (annotate (editorText value)))
  have hcanonical : (Json.str (annotate (editorText value))).IsCanonical := rfl
  have hset := Scene.enqueue_setAttr_of_ok hcanonical hc .runtime
  refine ⟨c, s.live.document.content.effect (.modelChanged "m2" "object"
    (.str (annotate (editorText value)))), ?_, ?_, hroots, Content.attr?_follow hc rfl, ?_⟩
  · rw [display, Script.run, hset]
    rfl
  · -- All that is told is of the pane, for which nobody waits.
    intro event hevent hawaits
    rw [Content.effect] at hevent
    split at hevent
    · obtain rfl := List.mem_singleton.mp hevent
      exact absurd hawaits.1 (by decide)
    · cases hevent
  · rw [hpane]
    split
    · rename_i hsame
      exact congrArg some (congrArg Json.str (beq_iff_eq.mp hsame))
    · rfl

/-- **Step.** Behind a change of the editor the pane shows its text, and nobody waits for what that
    has changed. -/
theorem react_shows {s : Scene} {value shown : Json} (h : Shows s.live value shown) (new : Json) :
    Shows (s.react (edit new)).live value new ∧
      ∃ told, (s.react (edit new)).live.queue = s.live.queue ++ told ∧
        ∀ first ∈ told, ¬watcher.Awaits first.1 := by
  obtain ⟨c, made, hrun, hmade, hroots, heditor, hpane⟩ :=
    display_run (s := s.withWatchers []) h.pane .null new
  -- The watcher of the editor is the only one, and shows the new text.
  have hcalled : (s.withWatchers []).runEach "m1" "value" new [watcher]
      = ([watcher], (s.withWatchers []).changed c made .runtime) := by
    have hrun' : (watcher.body watcher.memory new).run (fun op s => s.enqueue op)
        (s.withWatchers []) = ((.done, .null), (s.withWatchers []).changed c made .runtime) := hrun
    have waits : watcher.id = "m1" ∧ watcher.attr = "value" := ⟨rfl, rfl⟩
    have hit := Scene.runWatcher_hit waits (s.withWatchers []) new
    rw [hrun'] at hit
    rw [Scene.runEach, hit]
    rfl
  have hreact : s.react (edit new) = s.changed c made .runtime := by
    rw [Scene.react, Scene.runWatchers_eq, h.watchers, hcalled, ← h.watchers]
    exact congrArg (fun watchers => (s.changed c made .runtime).withWatchers watchers)
      (List.append_nil _)
  rw [hreact]
  refine ⟨⟨h.watchers, hroots.trans h.roots, heditor.trans h.editor, hpane⟩, _, rfl, ?_⟩
  intro first hfirst
  obtain ⟨event, hevent, rfl⟩ := List.mem_map.mp hfirst
  exact hmade event hevent

/-- **Run.** When a cycle takes changes of the editor from its queue, the pane shows the text of the
    last of them that it takes. -/
theorem deliver_shows (budget : Nat) {s : Scene} {value shown : Json} (h : Shows s.live value shown)
    (values : List Json) (behind : Queue)
    (queue : s.live.queue = values.map (fun new => (edit new, .host)) ++ behind)
    (unawaited : ∀ first ∈ behind, ¬watcher.Awaits first.1) :
    Shows (Scene.deliver budget s).2.live value ((values.take budget).getLastD shown) := by
  induction budget generalizing s values shown behind with
  | zero => exact h
  | succ budget ih =>
    cases values with
    | nil =>
      -- Only what nobody waits for is left.
      have hunawaited : s.IsUnawaited := by
        intro first hfirst w hw
        rw [h.watchers] at hw
        obtain rfl := List.mem_singleton.mp hw
        rw [queue] at hfirst
        exact unawaited first hfirst
      rw [Scene.deliver_unawaited hunawaited]
      exact h.congr rfl rfl
    | cons new rest =>
      have htaken : Shows (s.take (rest.map (fun new => (edit new, .host)) ++ behind)).live
          value shown := h.congr rfl rfl
      obtain ⟨hshows, told, htold, hnobody⟩ := react_shows htaken new
      have hnext := ih hshows rest (behind ++ told)
        (htold.trans (List.append_assoc _ _ _)) fun first hfirst =>
          (List.mem_append.mp hfirst).elim (unawaited first) (hnobody first)
      rw [Scene.deliver, queue, List.take_succ_cons, List.getLastD_cons]
      exact hnext

/-- **Cycle.** Behind the changes of the editor that a patch has made, the pane shows the text of the
    last of them for which watchers are run. -/
theorem cycleEnd_shows {s : Scene} {value shown : Json} (h : Shows s.live value shown)
    {values : List Json} (queue : s.live.queue = values.map fun new => (edit new, .host)) :
    Shows s.cycleEnd.live value ((values.take cycleLimit).getLastD shown) := by
  have hbegin : Shows s.begin.live value shown := h.congr rfl rfl
  have hlast := deliver_shows cycleLimit hbegin values []
    (queue.trans (List.append_nil _).symm) fun _ hfirst => absurd hfirst List.not_mem_nil
  rw [Scene.cycleEnd_live]
  exact hlast.congr rfl rfl

/-! ### The application is run -/

/-- The title and the first text of the editor, if the manifest gives them, are texts. -/
def GivesTexts (app : ApplicationDescriptor) : Prop :=
  ∀ key ∈ ["title", "placeholder"], ∀ value, app.bindings.get? key = some value →
    ∃ text, value = .str text

/-- The first value of the editor. -/
def firstValue (app : ApplicationDescriptor) : Json :=
  (app.bindings.get? "placeholder").getD (.str "")

/-- A binding that is a text if it is given. -/
theorem textBinding_eq {ctx : ApplicationContext} {key : String}
    (h : ∀ value, ctx.descriptor.bindings.get? key = some value → ∃ text, value = .str text)
    (default : String) :
    ∃ text, textBinding ctx key default = .ok text ∧
      (ctx.descriptor.bindings.get? key).getD (.str default) = .str text := by
  rw [textBinding, ApplicationContext.binding, ApplicationDescriptor.binding]
  cases hget : ctx.descriptor.bindings.get? key with
  | none => exact ⟨default, rfl, rfl⟩
  | some value =>
    obtain ⟨text, rfl⟩ := h value hget
    exact ⟨text, rfl, rfl⟩

/-- The document of the application, with what was made of it so far. -/
def document (id title : String) (location : Option Location) (models : List Model) : Document :=
  ⟨id, title, models.map (·.id), models.map fun m => (m.id, m), [], location, models.length + 1⟩

/-- The editor, with its text. -/
def editor (text : String) : Model :=
  ⟨"m1", "TextAreaInput", [("name", .str "Source"), ("value", .str text)]⟩

/-- The pane, with what it shows. -/
def pane (text : String) : Model := ⟨"m2", "Markdown", [("object", .str text)]⟩

/-- The title is set. -/
theorem perform_setTitle (id old title : String) (location : Option Location) :
    ((document id old location []).perform (.setTitle title .runtime)).2.1
      = document id title location [] := by
  show ((document id old location []).setTitle title).1 = _
  rw [Document.setTitle]
  split
  · rename_i htitle
    rw [htitle]
    rfl
  · rfl

/-- The attributes of the editor are in canonical form. -/
theorem editor_isCanonical (text : String) : Json.IsCanonicalTable (editor text).attributes := by
  have sorted : ["name", "value"].Pairwise (· < ·) := by decide
  refine ⟨sorted, fun pair hpair => ?_⟩
  rcases List.mem_cons.mp hpair with rfl | hpair
  · rfl
  · obtain rfl := List.mem_singleton.mp hpair
    rfl

/-- The attributes of the pane are in canonical form. -/
theorem pane_isCanonical (text : String) : Json.IsCanonicalTable (pane text).attributes := by
  refine ⟨List.pairwise_singleton .., fun pair hpair => ?_⟩
  obtain rfl := List.mem_singleton.mp hpair
  rfl

/-- The editor is the first model. -/
theorem perform_editor (id title text : String) (location : Option Location) :
    (document id title location []).perform (.addRoot "TextAreaInput"
        (Table.ofPairs [("name", .str "Source"), ("value", .str text)]) .runtime)
      = (.ok (.made "m1"), document id title location [editor text],
          [.rootAdded (editor text)]) := by
  have hattributes : Json.canonicalTable
      (Table.ofPairs [("name", .str "Source"), ("value", .str text)]) = (editor text).attributes :=
    Json.canonicalTable_ofPairs (editor_isCanonical text)
  rw [Document.perform, hattributes]
  cbv

/-- The pane is the second model. -/
theorem perform_pane (id title text object : String) (location : Option Location) :
    (document id title location [editor text]).perform (.addRoot "Markdown"
        (Table.ofPairs [("object", .str object)]) .runtime)
      = (.ok (.made "m2"), document id title location [editor text, pane object],
          [.rootAdded (pane object)]) := by
  have hattributes : Json.canonicalTable (Table.ofPairs [("object", .str object)])
      = (pane object).attributes := Json.canonicalTable_ofPairs (pane_isCanonical object)
  rw [Document.perform, hattributes]
  cbv

/-- The document is filled, and the pane shows the first text of the editor. -/
theorem fill_shows {s : Scene} {id old : String} {location : Option Location}
    (h : s.live = .ofDocument (document id old location [])) (title placeholder : String) :
    ∃ after, s.runScript (fill title placeholder) = (.done, after) ∧
      Shows after.live (.str placeholder) (.str placeholder) := by
  -- The title, the editor and the pane are set one after the other, each in the document that the
  -- one before has left.
  obtain ⟨one, hone, htitle⟩ := Scene.run_ofDocument h (.setTitle title .runtime) _
  rw [perform_setTitle] at hone
  obtain ⟨two, htwo, heditor⟩ := Scene.run_ofDocument hone (.addRoot "TextAreaInput"
    (Table.ofPairs [("name", .str "Source"), ("value", .str placeholder)]) .runtime) _
  rw [perform_editor] at htwo heditor
  obtain ⟨three, hthree, hpane⟩ := Scene.run_ofDocument htwo (.addRoot "Markdown"
    (Table.ofPairs [("object", .str (annotate placeholder))]) .runtime) _
  rw [perform_pane] at hthree hpane
  have hlast : (three.addWatcher watcher).live
      = ⟨document id title location [editor placeholder, pane (annotate placeholder)],
          [watcher], none, [], false⟩ := by
    rw [Scene.addWatcher, hthree]
    rfl
  refine ⟨three.addWatcher watcher, ?_, ?_⟩
  · rw [Scene.runScript, fill, htitle, heditor, hpane]
    rfl
  · rw [hlast]
    exact ⟨rfl, rfl, rfl, rfl⟩

/-- **Application.** The application is done, and the pane shows the first text of the editor. -/
theorem built_shows (ctx : ApplicationContext) (h : GivesTexts ctx.descriptor) (n : Nat) :
    ∃ live, Application.built ⟨script⟩ ctx n = (.done, live) ∧
      Shows live (firstValue ctx.descriptor) (firstValue ctx.descriptor) := by
  obtain ⟨title, htitle, -⟩ := textBinding_eq (h "title" List.mem_cons_self) "docsync"
  obtain ⟨placeholder, hplaceholder, hfirst⟩ := textBinding_eq
    (h "placeholder" (List.mem_cons_of_mem _ List.mem_cons_self)) ""
  have htexts : texts ctx = .ok (title, placeholder) := by
    rw [texts, htitle, hplaceholder]
    rfl
  -- A blank document has a place only if the descriptor gives one, which makes no difference here.
  have hblank : ∃ location, Engine.blankDocument ctx.descriptor n
      = document (Engine.documentId n) "" location [] := by
    rw [Engine.blankDocument]
    split
    · exact ⟨_, rfl⟩
    · exact ⟨none, rfl⟩
  obtain ⟨location, hblank⟩ := hblank
  obtain ⟨after, hrun, hshows⟩ := fill_shows
    (s := ⟨.ofDocument (Engine.blankDocument ctx.descriptor n), .empty⟩)
    (congrArg LiveDocument.ofDocument hblank) title placeholder
  refine ⟨after.live, ?_, ?_⟩
  · have hscript : script ctx = fill title placeholder := by
      unfold script
      rw [htexts]
    unfold Application.built
    dsimp only
    rw [hscript, hrun]
  · rw [firstValue, hfirst]
    exact hshows

end Preview

end DocRelay
