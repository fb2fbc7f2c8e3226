import DocRelay.Proofs.Document.Patching
import DocRelay.Proofs.Document.Retrace
import DocRelay.Proofs.Relay.Binary
import DocRelay.Proofs.Relay.Session

namespace DocRelay

/-!
# Patches that are sent back

A host may send a patch back that was forwarded to it.  What the patch changes has changed already,
so making it again leads nowhere else.  But on the way there an attribute may take its earlier values
once more, and what watchers make of them is forwarded as always.

* `LiveDocument.Undisturbed` — no watcher waits for a change that a patch of the host makes;
* `Relay.turn_undisturbed` — such a patch is acknowledged, and nothing is forwarded;
* `Relay.exists_of_mem_posts` — where a patch comes from that is posted;
* `Relay.sent_back` — a forwarded patch that is sent back;
* `Relay.copying_sent_back` — one that is answered by another patch, and one that changes the title.
-/

/-- No watcher waits for a change that the patch makes when the host sends it. -/
def LiveDocument.Undisturbed (d : LiveDocument) (change : Json) : Prop :=
  ∀ event ∈ d.document.mutations (.applyPatch change .host), ∀ w ∈ d.watchers, ¬w.Awaits event

/-- A patch disturbs no watcher if none waits for any of its events. -/
theorem LiveDocument.undisturbed_of_decode {d : LiveDocument} {change : Json} {events : List Event}
    (hj : Patch.decode change = .ok events)
    (h : ∀ event ∈ events, ∀ w ∈ d.watchers, ¬w.Awaits event) : d.Undisturbed change := by
  intro event hevent
  unfold Document.mutations at hevent
  rw [Document.asked, hj] at hevent
  dsimp only at hevent
  split at hevent
  · exact h event (Content.mem_of_mem_effects hevent)
  · cases hevent

namespace Relay

variable {r : Relay} {s : Surroundings} {live : LiveDocument} {text : String}

/-- The changes of a patch of the host that nobody waits for are not forwarded, and they are all that
    is done. -/
theorem made_undisturbed (h : r.Serves s live) {change : Json} {c : Content}
    (applied : live.document.content.applied change = .ok c) (quiet : live.Undisturbed change) :
    (made live s change).cycleEvents = [] ∧
      (made live s change).cycleEnd.live.document.content = c := by
  have hqueue : (made live s change).live.queue
      = (live.document.mutations (.applyPatch change .host)).map fun event => (event, .host) := by
    show live.queue ++ (live.document.perform (.applyPatch change .host)).2.2.map _ = _
    rw [h.reachable.atRest.1, Document.perform_mutations]
    rfl
  have hunawaited : (made live s change).IsUnawaited := by
    intro first hfirst w hw
    rw [hqueue] at hfirst
    obtain ⟨event, hevent, rfl⟩ := List.mem_map.mp hfirst
    exact quiet event hevent w hw
  refine ⟨?_, ?_⟩
  · rw [Scene.cycleEvents_unawaited hunawaited, hqueue]
    exact Scene.ownEvents_host _
  · rw [Scene.cycleEnd_unawaited hunawaited]
    exact (made_patched h applied).1

/-- **Turn.** A patch that makes no change for which a watcher waits is acknowledged, and nothing is
    forwarded; it changes the content as its events say, or it is refused. -/
theorem turn_undisturbed (h : r.Serves s live)
    (quiet : ∀ change, readPatch text = .ok change → live.Undisturbed change) :
    posts (r, s) (.patch text) = [.idle] ∧
      ∃ after, (turn (r, s) (.patch text)).1.Serves (turn (r, s) (.patch text)).2 after ∧
        after.document.content = (live.document.content.offered text).1 := by
  rw [Content.offered_eq]
  cases turn_answered h text with
  | refused refused reply posted serves =>
    rw [refused]
    exact ⟨posted, live, serves, rfl⟩
  | @quiet change c read applied nothing reply posted serves =>
    rw [Content.patched, read]
    dsimp only
    rw [applied]
    exact ⟨posted, _, serves, (made_undisturbed h applied (quiet change read)).2⟩
  | @forwarded change c read applied linked changes =>
    exact absurd (made_undisturbed h applied (quiet change read)).1 changes

/-- **Turn.** A patch of given events, and what its cycle sends. -/
theorem turn_followed {now : Relay × Surroundings} (h : now.1.Serves now.2 live)
    (hl : now.1.isLinked = true) {asked : List Event} {c : Content}
    (read : readPatch text = .ok (Patch.toJson asked)) (tidy : ∀ event ∈ asked, event.IsTidy)
    (followed : live.document.content.followAll asked = .ok c) (sent : List Event)
    (after : LiveDocument) (atRest : after.queue = [] ∧ after.dispatching = false)
    (delivered : ∀ s, Scene.deliver cycleLimit
        (Scene.changed ⟨live, s⟩ c (live.document.content.effects asked) .host).begin
      = (sent, ⟨{ after with dispatching := true }, s⟩))
    (something : sent ≠ []) :
    posts now (.patch text) =
        [.patch (Patch.toJson sent) (after.document.referencedBuffers sent)
          (Outbox.patchId (now.2.nextPatch now.1.engine.sink)), .idle] ∧
      (turn now (.patch text)).1.Serves (turn now (.patch text)).2 after ∧
      (turn now (.patch text)).1.isLinked = true := by
  obtain ⟨r, s⟩ := now
  have hdecode := Patch.decode_toJson tidy
  have hmade : Relay.made live s (Patch.toJson asked)
      = Scene.changed ⟨live, s⟩ c (live.document.content.effects asked) .host :=
    congrArg Prod.snd (Scene.enqueue_applyPatch_of_ok (s := ⟨live, s⟩) hdecode followed .host)
  have sends : (Relay.made live s (Patch.toJson asked)).cycleEvents = sent := by
    rw [hmade, Scene.cycleEvents, Scene.cycleLast, delivered s]
    show sent ++ after.queue.flatMap Scene.own = sent
    rw [atRest.1]
    exact List.append_nil _
  have ends : (Relay.made live s (Patch.toJson asked)).cycleEnd.live = after := by
    rw [hmade, Scene.cycleEnd_live, Scene.cycleLast, delivered s]
    obtain ⟨d, watchers, link, queue, dispatching⟩ := after
    obtain ⟨rfl, rfl⟩ := atRest
    rfl
  have happlied := (Content.applied_eq_ok_iff hdecode).mpr followed
  -- The patch is possible, the relay is linked and something is sent, so it is forwarded.
  cases turn_answered h text with
  | refused refused =>
    rw [Content.patched, read] at refused
    cases happlied.symm.trans refused
  | quiet read' _ nothing =>
    obtain rfl := Except.ok.inj (read.symm.trans read')
    rw [sends, hl] at nothing
    exact absurd (nothing.resolve_left Bool.noConfusion) something
  | forwarded read' _ _ _ _ posted serves =>
    obtain rfl := Except.ok.inj (read.symm.trans read')
    rw [sends, ends] at posted
    exact ⟨posted, ends ▸ serves, (turn_turned h (.patch text)).linked.mpr (.inl hl)⟩

/-- **Inversion.** A patch is posted when a patch of the host was applied, and holds what its cycle
    sends. -/
theorem exists_of_mem_posts (h : r.Serves s live) {change : Json} {buffers : List Bytes}
    {id : String} (sent : .patch change buffers id ∈ posts (r, s) (.patch text)) :
    ∃ asked c, live.document.content.applied asked = .ok c ∧ r.isLinked = true ∧
      change = Patch.toJson (made live s asked).cycleEvents ∧
      (turn (r, s) (.patch text)).1.Serves (turn (r, s) (.patch text)).2
        (made live s asked).cycleEnd.live := by
  have hidle : posts (r, s) (.patch text) ≠ [.idle] := by
    intro hposts
    rw [hposts] at sent
    cases List.mem_singleton.mp sent
  cases turn_answered h text with
  | refused _ _ posted => exact absurd posted hidle
  | quiet _ _ _ _ posted => exact absurd posted hidle
  | @forwarded asked c read applied linked changes reply posted serves =>
    rw [posted] at sent
    refine ⟨asked, c, applied, linked, ?_, serves⟩
    rcases List.mem_cons.mp sent with hpatch | hmem
    · cases hpatch
      rfl
    · cases List.mem_singleton.mp hmem

/-- What a cycle has sent leads nowhere else when the host makes it again. -/
theorem offered_made (h : r.Serves s live) (hl : r.isLinked = true) (ha : live.Acts True)
    {asked : Json} {c : Content} (applied : live.document.content.applied asked = .ok c)
    {again : String}
    (reads : ∀ change, readPatch again = .ok change →
      change = Patch.toJson (made live s asked).cycleEvents) :
    ((made live s asked).cycleEnd.live.document.content.offered again).1
      = (made live s asked).cycleEnd.live.document.content := by
  obtain ⟨hcontent, told, hqueue⟩ := made_patched h applied
  have hsound : live.document.content.Sound :=
    (LiveDocument.Observable.atRest h.reachable).sound
  have htidy : (made live s asked).cycleEnd.live.document.content.Tidy :=
    (LiveDocument.Observable.atRest (h.made asked).reachable).tidy
  obtain ⟨events, -, hfollowed⟩ := Content.exists_of_applied applied
  rw [Content.offered_eq, Content.patched]
  cases hread : readPatch again with
  | error cause => rfl
  | ok change =>
    dsimp only
    rw [reads change hread, Content.applied, Patch.decode_toJson (Scene.cycle_tidy hqueue)]
    dsimp only
    -- If the events are possible once more, they lead nowhere else.
    cases hf : (made live s asked).cycleEnd.live.document.content.followAll
        (made live s asked).cycleEvents with
    | error fault => rfl
    | ok behind =>
      exact Scene.cycle_retraces (made_isLinked h hl asked) ha hqueue
        (hcontent ▸ hsound.followAll hfollowed) htidy hf

/-- What a cycle has sent disturbs no watcher when the host makes it again, if it touches each
    attribute that is watched at most once. -/
theorem undisturbed_made (h : r.Serves s live) (hl : r.isLinked = true) (ha : live.Acts True)
    {asked : Json} {c : Content} (applied : live.document.content.applied asked = .ok c)
    (once : ∀ w ∈ (made live s asked).cycleEnd.live.watchers,
      (made live s asked).cycleEvents.countP (Event.touches w.id w.attr) ≤ 1) :
    (made live s asked).cycleEnd.live.Undisturbed
      (Patch.toJson (made live s asked).cycleEvents) := by
  obtain ⟨-, told, hqueue⟩ := made_patched h applied
  have hdecode := Patch.decode_toJson (Scene.cycle_tidy hqueue)
  have hlast := Scene.cycle_lastWritten (made_isLinked h hl asked) ha hqueue
  intro event hevent w hw hawaits
  unfold Document.mutations at hevent
  rw [Document.asked, hdecode] at hevent
  dsimp only at hevent
  split at hevent
  · -- Only a change of the attribute could be what the watcher waits for.
    cases event with
    | modelChanged id attr value =>
      obtain ⟨rfl, rfl⟩ := hawaits
      exact hlast.notMem_effects (once w hw) value hevent
    | _ => exact hawaits
  · cases hevent

/-- **No feedback.** Let a relay that a setup has made forward a patch behind a patch of the host, and
    let the host send that patch back at once.  If the patch makes no change for which a watcher waits
    then, it is acknowledged and nothing is forwarded.  If the watchers act in the name of the
    application, the title, the roots and the models are as before; and watchers may have to wait for
    its changes only if it touches an attribute several times. -/
theorem sent_back {l : Loader} {st after : Setup} {relay : Relay}
    (h : st.bootstrap l = (.ok relay, after)) (messages : List InboundMessage)
    {text again : String} {change : Json} {buffers : List Bytes} {id : String} :
    let now := messages.foldl turn (relay, after.around)
    let next := turn now (.patch text)
    let last := turn next (.patch again)
    .patch change buffers id ∈ posts now (.patch text) →
    (∀ asked, readPatch again = .ok asked → asked = change) →
    ∃ earlier live behind events, now.1.engine.document = some earlier ∧
      next.1.engine.document = some live ∧ last.1.engine.document = some behind ∧
      Patch.decode change = .ok events ∧
      -- Without a change for which a watcher waits, nothing is forwarded.
      (live.Undisturbed change → posts next (.patch again) = [.idle]) ∧
      -- The patch leads back to the content, whatever watchers make of it then.
      (earlier.Acts True → (live.document.content.offered again).1 = live.document.content) ∧
      (earlier.Acts True → live.Undisturbed change →
        behind.document.content = live.document.content) ∧
      -- A watcher may have to wait for a change only of what the patch touches several times.
      (earlier.Acts True → (∀ w ∈ live.watchers, events.countP (Event.touches w.id w.attr) ≤ 1) →
        live.Undisturbed change) := by
  intro now next last sent reads
  obtain ⟨rendered, hserves, -, -, -⟩ := Setup.serves_of_bootstrap h
  obtain ⟨⟨earlier, hearlier⟩, -, -⟩ := foldl_turned hserves messages
  obtain ⟨asked, c, applied, hlinked, rfl, hlive⟩ := exists_of_mem_posts hearlier sent
  obtain ⟨-, told, hqueue⟩ := made_patched hearlier applied
  obtain ⟨behind, hbehind⟩ := (turn_turned hlive (.patch again)).serves
  have hoffered := fun ha => offered_made hearlier hlinked ha applied reads
  have hquiet : (made earlier now.2 asked).cycleEnd.live.Undisturbed
      (Patch.toJson (made earlier now.2 asked).cycleEvents) →
      ∀ change, readPatch again = .ok change →
        (made earlier now.2 asked).cycleEnd.live.Undisturbed change :=
    fun quiet change hread => reads change hread ▸ quiet
  refine ⟨earlier, _, behind, _, hearlier.document, hlive.document, hbehind.document,
    Patch.decode_toJson (Scene.cycle_tidy hqueue), fun quiet => ?_, hoffered, fun ha quiet => ?_,
    fun ha once => undisturbed_made hearlier hlinked ha applied once⟩
  · exact (turn_undisturbed hlive (hquiet quiet)).1
  · obtain ⟨-, other, hother, hcontent⟩ := turn_undisturbed hlive (hquiet quiet)
    obtain rfl := Option.some.inj (hbehind.document.symm.trans hother.document)
    exact hcontent.trans (hoffered ha)

end Relay

/-! ### A slider whose patches are sent back -/

/-- A watcher that copies an attribute of the slider to another one. -/
def Watcher.copying (source target : String) : Watcher :=
  ⟨"m1", source, .null, fun _ value =>
    .perform (.setAttr "m1" target value .runtime) fun _ => .finish .done .null⟩

/-- The value of the slider is copied twice, from one attribute to the next. -/
def Watcher.copies : List Watcher := [.copying "value" "shown", .copying "shown" "echo"]

/-- A watcher that gives the document one title in the name of the application, and another one in
    the name of the host. -/
def Watcher.naming : Watcher :=
  ⟨"m1", "value", .null, fun _ _ =>
    .perform (.setTitle "moving" .runtime) fun _ =>
      .perform (.setTitle "moved" .host) fun _ => .finish .done .null⟩

/-- An application with a slider and watchers. -/
def Application.watching (watchers : List Watcher) : Application :=
  ⟨fun _ =>
    .perform (.addRoot "Slider" [] .runtime) fun _ =>
      watchers.foldr (fun w rest => .watch w.id w.attr w.memory w.body rest) (.finish .done .null)⟩

/-- The document of the application, linked. -/
def LiveDocument.watching (watchers : List Watcher) (title : String) (attributes : Table Json) :
    LiveDocument :=
  ⟨⟨"doc-1", title, ["m1"], [("m1", ⟨"m1", "Slider", attributes⟩)], [], none, 2⟩, watchers,
    some ⟨0⟩, [], false⟩

/-- The document behind a value that was copied. -/
def LiveDocument.copied (n : Int) : LiveDocument :=
  .watching Watcher.copies "" [("echo", .int n), ("shown", .int n), ("value", .int n)]

/-- Copying is done in the name of the application. -/
theorem LiveDocument.copies_acts : (watching Watcher.copies "" []).Acts True := by
  refine ⟨fun w => ∃ source target, w = .copying source target, ?_, fun w hw => ?_⟩
  · rintro w ⟨source, target, rfl⟩ value
    exact ⟨⟨rfl, .inl rfl⟩, fun _ => ⟨source, target, rfl⟩⟩
  · rcases List.mem_cons.mp hw with rfl | hw
    · exact ⟨_, _, rfl⟩
    · exact ⟨_, _, List.mem_singleton.mp hw⟩

namespace Relay

/-- The relay of the application, and what is around it, when a host has painted the slider. -/
def watching (watchers : List Watcher) : Relay × Surroundings :=
  let app := Application.watching watchers
  [.rendered].foldl turn (.running app, (Setup.running app).around)

/-- It serves the document that was built. -/
theorem watching_serves {watchers : List Watcher}
    (h : Setup.slider.bootstrap (.running (.watching watchers))
      = (.ok (.running (.watching watchers)), .running (.watching watchers)))
    (hd : (watching watchers).1.engine.document = some (.watching watchers "" [])) :
    (watching watchers).1.Serves (watching watchers).2 (.watching watchers "" []) := by
  obtain ⟨live, hserves, -, -, -⟩ := Setup.serves_of_bootstrap h
  obtain ⟨after, hafter, -⟩ := turn_rendered hserves
  obtain rfl := Option.some.inj (hafter.document.symm.trans hd)
  exact hafter

/-- The slider takes values, one after the other. -/
def takes (attr : String) (values : List Int) : List Event :=
  values.map fun n => .modelChanged "m1" attr (.int n)

/-- What is made of values: each is copied, and then each copy. -/
def copies (values : List Int) : List Event := takes "shown" values ++ takes "echo" values

/-- The values are in canonical form. -/
theorem takes_isTidy {attr : String} {values : List Int} :
    ∀ event ∈ takes attr values, event.IsTidy := by
  intro event he
  obtain ⟨n, -, rfl⟩ := List.mem_map.mp he
  rfl

/-- The copies are in canonical form. -/
theorem copies_isTidy {values : List Int} : ∀ event ∈ copies values, event.IsTidy := by
  intro event he
  rcases List.mem_append.mp he with he | he
  · exact takes_isTidy event he
  · exact takes_isTidy event he

/-- The text of a patch. -/
def patchText (events : List Event) : String := (Patch.toJson events).compact

/-- Integers of 64 bits that the slider takes are read back. -/
theorem readPatch_takes {values : List Int} (h : ∀ n ∈ values, Json.IsWord n) (attr : String) :
    readPatch (patchText (takes attr values)) = .ok (Patch.toJson (takes attr values)) := by
  refine readPatch_toJson takes_isTidy fun event he => ?_
  obtain ⟨n, hn, rfl⟩ := List.mem_map.mp he
  exact isPortable_modelChanged (h n hn) _ _

/-- The copies of such integers are read back. -/
theorem readPatch_copies {values : List Int} (h : ∀ n ∈ values, Json.IsWord n) :
    readPatch (patchText (copies values)) = .ok (Patch.toJson (copies values)) := by
  refine readPatch_toJson copies_isTidy fun event he => ?_
  rcases List.mem_append.mp he with he | he
  · obtain ⟨n, hn, rfl⟩ := List.mem_map.mp he
    exact isPortable_modelChanged (h n hn) _ _
  · obtain ⟨n, hn, rfl⟩ := List.mem_map.mp he
    exact isPortable_modelChanged (h n hn) _ _

/-- **A patch that is sent back.** The slider takes a value, which is copied twice.  When the copies
    are sent back, nothing is changed or forwarded. -/
theorem sent_back_copied :
    let app := Application.watching Watcher.copies
    let now := watching Watcher.copies
    let moved := patchText (takes "value" [7])
    let again := patchText (copies [7])
    let next := turn now (.patch moved)
    Setup.slider.bootstrap (.running app) = (.ok (.running app), .running app) ∧
      (∃ change buffers id, posts now (.patch moved) = [.patch change buffers id, .idle] ∧
        readPatch again = .ok change) ∧
      posts next (.patch again) = [.idle] ∧
      ∃ live behind, next.1.engine.document = some live ∧
        (turn next (.patch again)).1.engine.document = some behind ∧
        behind.document.content = live.document.content := by
  intro app now moved again next
  have hbootstrap : Setup.slider.bootstrap (.running app) = (.ok (.running app), .running app) :=
    rfl
  have hnow : now.1.Serves now.2 (.watching Watcher.copies "" []) :=
    watching_serves hbootstrap (by rfl)
  have hmoved : readPatch moved = .ok (Patch.toJson (takes "value" [7])) :=
    readPatch_takes (by decide) _
  have hagain : readPatch again = .ok (Patch.toJson (copies [7])) := readPatch_copies (by decide)
  have hfollowed : (LiveDocument.watching Watcher.copies "" []).document.content.followAll
      (takes "value" [7])
      = .ok (LiveDocument.watching Watcher.copies "" [("value", .int 7)]).document.content := by cbv
  obtain ⟨hposts, hnext, -⟩ := turn_followed hnow (by rfl) hmoved takes_isTidy hfollowed (copies [7])
    (.copied 7) ⟨rfl, rfl⟩ (fun s => by cbv) (List.cons_ne_nil _ _)
  have hsent : OutboundMessage.patch (Patch.toJson (copies [7]))
      ((LiveDocument.copied 7).document.referencedBuffers (copies [7]))
      (Outbox.patchId (now.2.nextPatch now.1.engine.sink)) ∈ posts now (.patch moved) :=
    hposts ▸ List.mem_cons_self
  have reads : ∀ asked, readPatch again = .ok asked → asked = Patch.toJson (copies [7]) :=
    fun asked hasked => Except.ok.inj (hasked.symm.trans hagain)
  obtain ⟨earlier, live, behind, events, hearlier, hlive, hbehind, hdecode, hidle, -, hsame,
    honce⟩ := sent_back hbootstrap [.rendered] hsent reads
  obtain rfl := Option.some.inj (hearlier.symm.trans hnow.document)
  obtain rfl := Option.some.inj (hlive.symm.trans hnext.document)
  obtain rfl := Except.ok.inj (hdecode.symm.trans (Patch.decode_toJson copies_isTidy))
  -- Each copy is made once, so nobody waits for what is sent back.
  have hquiet := honce LiveDocument.copies_acts (by decide +kernel)
  have hlast : (turn next (.patch again)).1.engine.document = some behind := by
    have hsecond : next = turn ([.rendered].foldl turn (.running app, (Setup.running app).around))
        (.patch moved) := rfl
    rw [hsecond]
    exact hbehind
  exact ⟨hbootstrap, ⟨_, _, _, hposts, hagain⟩, hidle hquiet, _, behind, hlive, hlast,
    hsame LiveDocument.copies_acts hquiet⟩

/-- The slider takes two values at once, each of which is copied twice.  When the copies are sent
    back, those of the copies are made again, and forwarded again. -/
theorem copies_sent_again :
    let now := watching Watcher.copies
    let moved := patchText (takes "value" [5, 7])
    let again := patchText (copies [5, 7])
    (∃ change buffers id, posts now (.patch moved) = [.patch change buffers id, .idle] ∧
        readPatch again = .ok change) ∧
      ∃ change buffers id,
        posts (turn now (.patch moved)) (.patch again) = [.patch change buffers id, .idle] := by
  intro now moved again
  have hnow : now.1.Serves now.2 (.watching Watcher.copies "" []) := watching_serves rfl (by rfl)
  have hmoved : readPatch moved = .ok (Patch.toJson (takes "value" [5, 7])) :=
    readPatch_takes (by decide) _
  have hagain : readPatch again = .ok (Patch.toJson (copies [5, 7])) :=
    readPatch_copies (by decide)
  have hfollowed : (LiveDocument.watching Watcher.copies "" []).document.content.followAll
      (takes "value" [5, 7])
      = .ok (LiveDocument.watching Watcher.copies "" [("value", .int 7)]).document.content := by
    cbv
  obtain ⟨hposts, hnext, hlinked⟩ := turn_followed hnow (by rfl) hmoved takes_isTidy hfollowed
    (copies [5, 7]) (.copied 7) ⟨rfl, rfl⟩ (fun s => by cbv) (List.cons_ne_nil _ _)
  -- What comes back changes what is shown twice, and each change is copied again.
  have hback : (LiveDocument.copied 7).document.content.followAll (copies [5, 7])
      = .ok (LiveDocument.copied 7).document.content := by cbv
  obtain ⟨hposts', -, -⟩ := turn_followed hnext hlinked hagain copies_isTidy hback
    (takes "echo" [5, 7]) (.copied 7) ⟨rfl, rfl⟩ (fun s => by cbv) (List.cons_ne_nil _ _)
  exact ⟨⟨_, _, _, hposts, hagain⟩, _, _, _, hposts'⟩

/-- The application gives a title, and the last one is given in the name of the host.  Only the first
    is forwarded; when it is sent back, it is the title. -/
theorem title_sent_back :
    let first := watching [.naming]
    let push := patchText (takes "value" [7])
    let second := turn first (.patch push)
    let back := patchText [.titleChanged "moving"]
    let third := turn second (.patch back)
    (∃ change buffers id, posts first (.patch push) = [.patch change buffers id, .idle] ∧
        readPatch back = .ok change) ∧
      posts second (.patch back) = [.idle] ∧
      second.1.engine.document.map (·.document.title) = some "moved" ∧
      third.1.engine.document.map (·.document.title) = some "moving" := by
  intro first push second back third
  have hfirst : first.1.Serves first.2 (.watching [.naming] "" []) := watching_serves rfl (by rfl)
  have hpush : readPatch push = .ok (Patch.toJson (takes "value" [7])) :=
    readPatch_takes (by decide) _
  have htidy : ∀ event ∈ [Event.titleChanged "moving"], event.IsTidy := by
    intro event he
    obtain rfl := List.mem_singleton.mp he
    trivial
  have hback : readPatch back = .ok (Patch.toJson [.titleChanged "moving"]) := by
    refine readPatch_toJson htidy fun event he => ?_
    obtain rfl := List.mem_singleton.mp he
    simp [Json.IsPortable, Json.depthLimit, Event.toJson]
  have hfollowed : (LiveDocument.watching [.naming] "" []).document.content.followAll
      (takes "value" [7])
      = .ok (LiveDocument.watching [.naming] "" [("value", .int 7)]).document.content := by
    cbv
  obtain ⟨hposts, hsecond, -⟩ := turn_followed hfirst (by rfl) hpush takes_isTidy hfollowed
    [.titleChanged "moving"] (.watching [.naming] "moved" [("value", .int 7)])
    ⟨rfl, rfl⟩ (fun s => by cbv) (List.cons_ne_nil _ _)
  -- Nobody waits for a title, so all that comes of the patch is the title.
  have hrenamed : (LiveDocument.watching [.naming] "moved"
      [("value", .int 7)]).document.content.followAll [.titleChanged "moving"]
      = .ok (LiveDocument.watching [.naming] "moving" [("value", .int 7)]).document.content := by
    cbv
  have hquiet : ∀ change, readPatch back = .ok change →
      (LiveDocument.watching [.naming] "moved" [("value", .int 7)]).Undisturbed change := by
    intro change hchange
    obtain rfl := Except.ok.inj (hback.symm.trans hchange)
    refine LiveDocument.undisturbed_of_decode (Patch.decode_toJson htidy) fun event he w _ => ?_
    obtain rfl := List.mem_singleton.mp he
    exact id
  obtain ⟨hidle, after, hthird, hcontent⟩ := turn_undisturbed hsecond hquiet
  rw [Content.offered, hback] at hcontent
  dsimp only at hcontent
  rw [Content.applyPatch_toJson hrenamed htidy] at hcontent
  refine ⟨⟨_, _, _, hposts, hback⟩, hidle, ?_, ?_⟩
  · rw [hsecond.document]
    rfl
  · rw [hthird.document]
    exact congrArg (fun c => some c.title) hcontent

/-- **Patches that are sent back otherwise.** The slider takes two values at once, each of which is
    copied twice.  When the copies are sent back, those of the copies are made again, and forwarded
    again.  And where the application has given a title and the last one was given in the name of the
    host, only the first is forwarded; when it is sent back, it is the title. -/
theorem sent_back_otherwise :
    let copied := Application.watching Watcher.copies
    let now := watching Watcher.copies
    let moved := patchText (takes "value" [5, 7])
    let next := turn now (.patch moved)
    let again := patchText (copies [5, 7])
    let named := Application.watching [.naming]
    let first := watching [.naming]
    let push := patchText (takes "value" [7])
    let second := turn first (.patch push)
    let back := patchText [.titleChanged "moving"]
    let third := turn second (.patch back)
    (Setup.slider.bootstrap (.running copied) = (.ok (.running copied), .running copied) ∧
      (∃ change buffers id, posts now (.patch moved) = [.patch change buffers id, .idle] ∧
        readPatch again = .ok change) ∧
      ∃ change buffers id, posts next (.patch again) = [.patch change buffers id, .idle]) ∧
    Setup.slider.bootstrap (.running named) = (.ok (.running named), .running named) ∧
      (∃ change buffers id, posts first (.patch push) = [.patch change buffers id, .idle] ∧
        readPatch back = .ok change) ∧
      posts second (.patch back) = [.idle] ∧
      second.1.engine.document.map (·.document.title) = some "moved" ∧
      third.1.engine.document.map (·.document.title) = some "moving" := by
  exact ⟨⟨rfl, copies_sent_again⟩, rfl, title_sent_back⟩

end Relay

end DocRelay
