import DocRelay.Proofs.Document.Known
import DocRelay.Proofs.Document.Mutations

namespace DocRelay

/-!
# Changes that are made again

A host may send changes back that it was told of, and so have them made again on the document that
they have led to.  Whatever the changes were, that leads to the same content, as each part of it
goes its way from the end of the changes back onto their way.

* `Model.Retraced`, `Content.Retraced` — a content on its way, beside that of the changes when they
  were made first; `Content.Retraced.follow`, `Content.Retraced.effects` — a change, and several;
* `Content.Retraced.eq_of_end` — at the end of the changes the two are the same;
* `Scene.Retraces`, `Scene.cycle_retraces` — so the changes of a cycle that watchers have made in
  the name of the application can be made again;
* `Event.touches`, `Content.attr?` — the attributes on which an event has a bearing;
* `Content.LastWritten`, `Scene.cycle_lastWritten` — an attribute has the value that it was given
  last; `Content.LastWritten.notMem_effects` — so it is not changed again if it was touched once.
-/

/-! ### One model -/

/-- A model when changes are made again: as it was when they were made first, or still as behind the
    last of them, attribute by attribute. -/
inductive Model.Retraced (last now again : Option Model) : Prop where
  | same (h : again = now)
  | absent (gone : last = none) (h : again = none)
  | mixed {m e : Model} (found : last = some e) (h : again = some m) (id : m.id = e.id)
    (kind : m.kind = e.kind)
    (attributes : ∀ attr, m.attributes.get? attr = e.attributes.get? attr ∨
      ∃ c, now = some c ∧ m.attributes.get? attr = c.attributes.get? attr)

namespace Model.Retraced

variable {last now : Option Model} {c m : Model} {attr : String} {value : Json}

/-- Where nothing is made again yet, a model is that behind the last change. -/
theorem start (last now : Option Model) : Retraced last now last := by
  cases last with
  | none => exact .absent rfl rfl
  | some e => exact .mixed rfl rfl rfl rfl fun _ => .inl rfl

/-- Another attribute of the model of the first time does not matter. -/
theorem other_attribute {name : String} (hne : attr ≠ name)
    (h : ∃ e, some c = some e ∧ m.attributes.get? name = e.attributes.get? name) :
    ∃ e, some ({ c with attributes := c.attributes.insert attr value } : Model) = some e ∧
      m.attributes.get? name = e.attributes.get? name := by
  obtain ⟨e, he, hsame⟩ := h
  obtain rfl := Option.some.inj he
  exact ⟨_, rfl, hsame.trans ((Table.get?_insert ..).trans (if_neg hne)).symm⟩

/-- An attribute that was changed the first time, and has the value already the second time. -/
theorem put_kept (h : Retraced last (some c) (some m)) (other : Document.holds c attr value = false)
    (same : Document.holds m attr value = true) :
    Retraced last (some { c with attributes := c.attributes.insert attr value }) (some m) := by
  cases h with
  | same h =>
    obtain rfl := Option.some.inj h
    rw [other] at same
    cases same
  | absent _ h => cases h
  | @mixed k e found h id kind attributes =>
    obtain rfl := Option.some.inj h
    refine .mixed found rfl id kind fun name => ?_
    by_cases hname : attr = name
    · -- It cannot be the value of the first time, which was another one.
      subst hname
      refine (attributes attr).imp_right ?_
      rintro ⟨k, hk, hsame⟩
      obtain rfl := Option.some.inj hk
      rw [Document.holds, hsame] at same
      rw [Document.holds, same] at other
      cases other
    · exact (attributes name).imp_right (other_attribute hname)

/-- An attribute that is changed both times. -/
theorem put_put (h : Retraced last (some c) (some m)) :
    Retraced last (some { c with attributes := c.attributes.insert attr value })
      (some { m with attributes := m.attributes.insert attr value }) := by
  cases h with
  | same h =>
    obtain rfl := Option.some.inj h
    exact .same rfl
  | absent _ h => cases h
  | @mixed k e found h id kind attributes =>
    obtain rfl := Option.some.inj h
    refine .mixed found rfl id kind fun name => ?_
    have hset : ∀ t : Table Json, (t.insert attr value).get? name
        = if attr = name then some value else t.get? name := fun t => Table.get?_insert ..
    by_cases hname : attr = name
    · right
      refine ⟨_, rfl, ?_⟩
      rw [hset, hset, if_pos hname, if_pos hname]
    · rw [hset, if_neg hname]
      exact (attributes name).imp_right (other_attribute hname)

/-- A model that is added without a word is still there behind the last change, and so it is when the
    changes are made again. -/
theorem added (h : Retraced last none (some m)) (there : last ≠ none) :
    Retraced last (some c) (some m) := by
  cases h with
  | same h => cases h
  | absent gone _ => exact absurd gone there
  | mixed found h id kind attributes =>
    refine .mixed found h id kind fun name => (attributes name).imp_right ?_
    rintro ⟨e, he, -⟩
    cases he

end Model.Retraced

/-! ### The content as a whole -/

namespace Content

/-- The content when changes are made again, beside what it was when they were made first: `first`
    is where they began the first time, and `last` is where they ended, and where they begin the
    second time. -/
structure Retraced (first last now again : Content) : Prop where
  title : again.title = now.title ∨ again.title = last.title
  /-- The same roots were removed and added. -/
  roots : ∃ touched added : List String, (∀ id ∈ added, id ∈ touched) ∧
    now.roots = first.roots.filter (· ∉ touched) ++ added ∧
    again.roots = last.roots.filter (· ∉ touched) ++ added
  models : ∀ id, Model.Retraced (last.models.get? id) (now.models.get? id) (again.models.get? id)

variable {first last now again next behind : Content}

/-- In the beginning nothing was touched. -/
theorem Retraced.start (first last : Content) : Retraced first last first last := by
  have hall : ∀ roots : List String, roots = roots.filter (· ∉ ([] : List String)) ++ [] :=
    fun roots => by rw [List.append_nil, List.filter_eq_self.mpr fun _ _ => by simp]
  exact ⟨.inr rfl, ⟨[], [], fun _ h => h, hall _, hall _⟩, fun id => .start _ _⟩

/-- A root that is added the first time and the second. -/
theorem Retraced.push (h : Retraced first last now again) {m : Model} (hm : m.id ∉ now.roots)
    (hm' : m.id ∉ again.roots) : Retraced first last (now.push m) (again.push m) := by
  obtain ⟨touched, added, hadded, hnow, hagain⟩ := h.roots
  -- A root that is not there either was not there at first or was removed since.
  have hpushed : ∀ {roots old : List String}, roots = old.filter (· ∉ touched) ++ added →
      m.id ∉ roots →
      roots ++ [m.id] = old.filter (· ∉ m.id :: touched) ++ (added ++ [m.id]) := by
    rintro roots old rfl hnot
    have hout : m.id ∉ old.filter (· ∉ touched) := fun hmem => hnot (List.mem_append_left _ hmem)
    have hfilter : old.filter (· ∉ m.id :: touched) = old.filter (· ∉ touched) := by
      refine List.filter_congr fun id hid => ?_
      have hne : id ∉ touched → id ≠ m.id := fun hfree heq =>
        hout (List.mem_filter.mpr ⟨heq ▸ hid, by simpa using heq ▸ hfree⟩)
      by_cases hid : id ∈ touched
      · simp [hid]
      · simp [hid, hne hid]
    rw [hfilter, List.append_assoc]
  refine ⟨h.title, ⟨m.id :: touched, added ++ [m.id], fun id hid => ?_, hpushed hnow hm,
    hpushed hagain hm'⟩, fun id => ?_⟩
  · rcases List.mem_append.mp hid with hid | hid
    · exact List.mem_cons_of_mem _ (hadded id hid)
    · exact List.mem_singleton.mp hid ▸ List.mem_cons_self
  · show Model.Retraced _ ((now.models.insert m.id m).get? id)
      ((again.models.insert m.id m).get? id)
    rw [Table.get?_insert, Table.get?_insert]
    by_cases hid : m.id = id
    · rw [if_pos hid, if_pos hid]
      exact .same rfl
    · rw [if_neg hid, if_neg hid]
      exact h.models id

/-- A root that is removed the first time and the second. -/
theorem Retraced.drop (h : Retraced first last now again) (id : String) :
    Retraced first last (now.drop id) (again.drop id) := by
  obtain ⟨touched, added, hadded, hnow, hagain⟩ := h.roots
  have hdropped : ∀ {roots old : List String}, roots = old.filter (· ∉ touched) ++ added →
      roots.filter (· ≠ id) = old.filter (· ∉ id :: touched) ++ added.filter (· ≠ id) := by
    rintro roots old rfl
    rw [List.filter_append, List.filter_filter]
    refine congrArg (· ++ _) (List.filter_congr fun other _ => ?_)
    simp [not_or]
  refine ⟨h.title, ⟨id :: touched, added.filter (· ≠ id), fun other hother => ?_, hdropped hnow,
    hdropped hagain⟩, fun other => ?_⟩
  · exact List.mem_cons_of_mem _ (hadded other (List.mem_filter.mp hother).1)
  · show Model.Retraced _ ((now.models.erase id).get? other) ((again.models.erase id).get? other)
    rw [Table.get?_erase, Table.get?_erase]
    by_cases hid : id = other
    · rw [if_pos hid, if_pos hid]
      exact .same rfl
    · rw [if_neg hid, if_neg hid]
      exact h.models other

/-- Models of which all but one are as before. -/
theorem Retraced.change (h : Retraced first last now again) (id : String)
    (hnow : next = { now with models := next.models })
    (hagain : behind = { again with models := behind.models })
    (hothers : ∀ other, id ≠ other → next.models.get? other = now.models.get? other ∧
      behind.models.get? other = again.models.get? other)
    (hone : Model.Retraced (last.models.get? id) (next.models.get? id) (behind.models.get? id)) :
    Retraced first last next behind := by
  refine ⟨?_, ?_, fun other => ?_⟩
  · rw [hnow, hagain]
    exact h.title
  · rw [hnow, hagain]
    exact h.roots
  · by_cases hid : id = other
    · exact hid ▸ hone
    · obtain ⟨h1, h2⟩ := hothers other hid
      rw [h1, h2]
      exact h.models other

/-- The models behind an attribute that is set. -/
theorem get?_put (c : Content) (id attr : String) (value : Json) (m : Model) (other : String) :
    (c.put id attr value m).models.get? other
      = if id = other then some { m with attributes := m.attributes.insert attr value }
        else c.models.get? other :=
  Table.get?_insert ..

/-- **Step.** A change that was really a change the first time is made again. -/
theorem Retraced.follow (h : Retraced first last now again) (hs : now.Sound) (hs' : again.Sound)
    {event : Event} (hf : now.follow event = .ok next) (hreal : now.changes event = true)
    (hg : again.follow event = .ok behind) : Retraced first last next behind := by
  cases followed_of_follow hf with
  | kept found same => simp [changes, found, same] at hreal
  | @put id attr value c found other =>
    -- The second time the model may have the value already.
    have hmodel : Model.Retraced (last.models.get? id) (some c) (again.models.get? id) :=
      found ▸ h.models id
    cases followed_of_follow hg with
    | kept found' same =>
      rw [found'] at hmodel
      refine h.change id rfl rfl (fun name hne => ⟨?_, rfl⟩) ?_
      · rw [get?_put, if_neg hne]
      · rw [get?_put, if_pos rfl, found']
        exact hmodel.put_kept other same
    | put found' other' =>
      rw [found'] at hmodel
      refine h.change id rfl rfl (fun name hne => ⟨?_, ?_⟩) ?_
      · rw [get?_put, if_neg hne]
      · rw [get?_put, if_neg hne]
      · rw [get?_put, if_pos rfl, get?_put, if_pos rfl]
        exact hmodel.put_put
  | @pushed m fresh =>
    cases followed_of_follow hg with
    | pushed fresh' =>
      exact h.push (fun hroot => fresh (hs.rooted _ hroot)) fun hroot => fresh' (hs'.rooted _ hroot)
  | dropped root =>
    cases followed_of_follow hg with
    | dropped root' => exact h.drop _
  | titled =>
    cases followed_of_follow hg with
    | titled => exact ⟨.inl rfl, h.roots, h.models⟩

/-- **Run.** The changes that events made the first time are made again. -/
theorem Retraced.effects (h : Retraced first last now again) (hs : now.Sound) (hs' : again.Sound)
    {events : List Event} (hf : now.followAll events = .ok next)
    (hg : again.followAll (now.effects events) = .ok behind) :
    Retraced first last next behind := by
  induction events generalizing now again with
  | nil =>
    obtain rfl := Except.ok.inj hf
    obtain rfl := Except.ok.inj hg
    exact h
  | cons event rest ih =>
    obtain ⟨mid, hone, hothers⟩ := exists_of_followAll_cons hf
    rw [effects_cons hone] at hg
    obtain ⟨half, hhalf, hrest⟩ := exists_of_followAll_append hg
    have hmid := hs.follow hone
    have hhalf' := hs'.followAll hhalf
    refine ih ?_ hmid hhalf' hothers hrest
    rw [effect] at hhalf
    cases hreal : now.changes event with
    | true =>
      rw [hreal, if_pos rfl, followAll_singleton] at hhalf
      exact h.follow hs hs' hone hreal hhalf
    | false =>
      -- What was no change the first time was not told, and is not made again.
      have hsame : mid = now := by
        have hnothing := followAll_effect hone
        rw [effect, hreal, if_neg Bool.false_ne_true] at hnothing
        exact (Except.ok.inj hnothing).symm
      rw [hreal, if_neg Bool.false_ne_true] at hhalf
      obtain rfl := Except.ok.inj hhalf
      rw [hsame]
      exact h

/-- **At the end** of the changes the content is the same as the first time. -/
theorem Retraced.eq_of_end (h : Retraced first last last again) (ht : last.Tidy)
    (ht' : again.Tidy) : again = last := by
  have htitle : again.title = last.title := h.title.elim id id
  have hroots : again.roots = last.roots := by
    obtain ⟨touched, added, hadded, hlast, hagain⟩ := h.roots
    -- What was added was touched, so it is not kept and then added once more.
    have hgone : added.filter (· ∉ touched) = [] := by
      refine List.filter_eq_nil_iff.mpr fun id hid => ?_
      simpa using hadded id hid
    rw [hagain, hlast, List.filter_append, hgone, List.filter_filter, List.append_nil]
    simp
  have hmodels : again.models = last.models := by
    refine ht'.sorted.ext ht.sorted fun id => ?_
    cases h.models id with
    | same h => exact h
    | absent gone h => rw [h, gone]
    | @mixed m e found h hid hkind hattributes =>
      rw [h, found]
      -- Attributes in key order are the same if they agree under every name.
      have hsorted : m.attributes.Sorted :=
        (ht'.attributes _ (Table.mem_of_get? h)).sorted
      have hsorted' : e.attributes.Sorted :=
        (ht.attributes _ (Table.mem_of_get? found)).sorted
      have hattrs : m.attributes = e.attributes := hsorted.ext hsorted' fun attr => by
        rcases hattributes attr with hsame | ⟨c, hc, hsame⟩
        · exact hsame
        · obtain rfl := Option.some.inj (found.symm.trans hc)
          exact hsame
      cases m
      cases e
      cases hid
      cases hkind
      cases hattrs
      rfl
  cases again
  cases last
  cases htitle
  cases hroots
  cases hmodels
  rfl

end Content

/-! ### The changes of a cycle -/

/-- A model that is no root stays so behind an operation. -/
theorem Document.perform_unlisted {d : Document} {id : String} (h : d.content.Unlisted id)
    (op : Operation) : (d.perform op).2.1.content.Unlisted id := by
  cases d.performed op with
  | told followed => exact h.followAll followed
  | added _ stored =>
    rw [stored]
    exact ⟨Table.mem_keys_insert.mpr (.inr h.1), h.2⟩

/-- The changes of the application were made first from a content on.  Whoever makes them again on a
    content from which no unlisted model is missing goes the same way. -/
structure Scene.Retraces (first : Content) (events : List Event) (d : Document) : Prop where
  sound : d.content.Sound
  retraced : ∀ last behind : Content, last.Sound →
    (∀ id, d.content.Unlisted id → last.Unlisted id) →
    last.followAll events = .ok behind → Content.Retraced first last d.content behind

/-- A model that is added without a word is no root at the end either, so no change has removed it
    when the changes are made again. -/
theorem Content.Retraced.addModel {first last again : Content} {d : Document}
    (h : Content.Retraced first last d.content again) {kind : String} {attributes : Table Json}
    (hlast : last.Unlisted (d.newModel kind attributes).id)
    (hagain : again.Unlisted (d.newModel kind attributes).id) :
    Content.Retraced first last (d.perform (.addModel kind attributes)).2.1.content again := by
  have hthere : ∀ {c : Content}, c.Unlisted (d.newModel kind attributes).id →
      ∃ m, c.models.get? (d.newModel kind attributes).id = some m := fun hc =>
    Option.isSome_iff_exists.mp (Table.contains_iff_mem_keys.mpr hc.1)
  obtain ⟨e, he⟩ := hthere hlast
  obtain ⟨m, hm⟩ := hthere hagain
  have hmodel := h.models (d.newModel kind attributes).id
  rw [Table.get?_eq_none_iff.mpr (d.newModel_fresh kind attributes), hm] at hmodel
  have hnew : (d.models.insert (d.newModel kind attributes).id
      (d.newModel kind attributes)).get? (d.newModel kind attributes).id
      = some (d.newModel kind attributes) := (Table.get?_insert ..).trans (if_pos rfl)
  rw [(d.perform_addModel kind attributes).2]
  refine h.change (d.newModel kind attributes).id rfl rfl
    (fun other hne => ⟨(Table.get?_insert ..).trans (if_neg hne), rfl⟩) ?_
  rw [hnew, hm]
  exact hmodel.added (by simp [he])

/-- **Step.** What an operation tells can be made again. -/
theorem Scene.Retraces.perform {first : Content} {events : List Event} {d : Document}
    (h : Retraces first events d) (op : Operation) :
    Retraces first (events ++ (d.perform op).2.2) (d.perform op).2.1 := by
  refine ⟨Document.perform_sound h.sound op, fun last behind hlast hunlisted hf => ?_⟩
  obtain ⟨mid, hmid, hbehind⟩ := Content.exists_of_followAll_append hf
  have hbefore := h.retraced last mid hlast
    (fun id hid => hunlisted id (Document.perform_unlisted hid op)) hmid
  cases d.performed op with
  | told hafter =>
    rw [d.perform_mutations op] at hafter hbehind
    cases hasked : d.content.followAll (d.asked op) with
    | ok c =>
      -- What is told are the changes among the events that were asked for.
      rw [Document.mutations_of_ok hasked] at hafter hbehind
      obtain rfl := Except.ok.inj ((Content.followAll_effects hasked).symm.trans hafter)
      exact hbefore.effects h.sound (hlast.followAll hmid) hasked hbehind
    | error fault =>
      rw [Document.mutations_of_error hasked] at hafter hbehind
      obtain rfl := Except.ok.inj hbehind
      exact Except.ok.inj hafter ▸ hbefore
  | @added kind attributes silent stored =>
    rw [silent] at hbehind
    obtain rfl := Except.ok.inj hbehind
    have hadded : (d.perform (.addModel kind attributes)).2.1.content.Unlisted
        (d.newModel kind attributes).id := by
      rw [stored]
      exact ⟨Table.mem_keys_insert.mpr (.inl rfl), fun hroot =>
        d.newModel_fresh kind attributes (h.sound.rooted _ hroot)⟩
    have hlastHas := hunlisted _ hadded
    exact hbefore.addModel hlastHas (hlastHas.followAll hmid)

/-- **Cycle.** The changes that are forwarded at the end of a cycle behind a patch of the host, whose
    watchers act in the name of the application, lead nowhere else when they are made again. -/
theorem Scene.cycle_retraces {s : Scene} (hl : s.live.isLinked = true) (ha : s.live.Acts True)
    {told : List Event} (hq : s.live.queue = told.map fun event => (event, Origin.host))
    (hs : s.live.document.content.Sound) (ht : s.cycleEnd.live.document.content.Tidy)
    {behind : Content}
    (hf : s.cycleEnd.live.document.content.followAll s.cycleEvents = .ok behind) :
    behind = s.cycleEnd.live.document.content := by
  have hstart : Retraces s.live.document.content [] s.live.document := by
    refine ⟨hs, fun last again _ _ hf => ?_⟩
    obtain rfl := Except.ok.inj hf
    exact .start _ _
  obtain ⟨hend, -⟩ := cycle_acts (fun {_ _ op} _ h => h.perform op) hl ha hq hstart
  have hretraced := hend.retraced _ behind hend.sound (fun _ hid => hid) hf
  exact hretraced.eq_of_end ht (ht.followAll (cycle_tidy hq) hf)

/-! ### The last change of an attribute -/

/-- The event has a bearing on the attribute: it changes it, or adds or removes its model. -/
def Event.touches (id attr : String) : Event → Bool
  | .modelChanged other name _ => other = id && name = attr
  | .rootAdded m => m.id = id
  | .rootRemoved other => other = id
  | .titleChanged _ => false

namespace Content

/-- An attribute of a model. -/
def attr? (c : Content) (id attr : String) : Option Json :=
  (c.models.get? id).bind fun m => m.attributes.get? attr

/-- The attributes behind an attribute that is set. -/
theorem attr?_put {c : Content} {id attr : String} {value : Json} {m : Model}
    (hm : c.models.get? id = some m) (other name : String) :
    (c.put id attr value m).attr? other name
      = if id = other ∧ attr = name then some value else c.attr? other name := by
  rw [attr?, attr?, get?_put]
  by_cases hid : id = other
  · subst hid
    rw [if_pos rfl, hm]
    show (m.attributes.insert attr value).get? name = _
    rw [Table.get?_insert]
    simp [Option.bind]
  · rw [if_neg hid, if_neg (fun h => hid h.1)]

variable {c after : Content} {id attr : String}

/-- **Frame.** An event that does not touch an attribute leaves it alone. -/
theorem attr?_follow {event : Event} (hf : c.follow event = .ok after)
    (h : event.touches id attr = false) : after.attr? id attr = c.attr? id attr := by
  cases followed_of_follow hf with
  | kept => rfl
  | put found =>
    rw [attr?_put found, if_neg]
    simpa [Event.touches] using h
  | @pushed m =>
    have hne : m.id ≠ id := by simpa [Event.touches] using h
    show ((c.models.insert m.id m).get? id).bind _ = _
    rw [Table.get?_insert, if_neg hne, attr?]
  | @dropped other =>
    have hne : other ≠ id := by simpa [Event.touches] using h
    show ((c.models.erase other).get? id).bind _ = _
    rw [Table.get?_erase, if_neg hne, attr?]
  | titled => rfl

/-- Events that do not touch an attribute leave it alone. -/
theorem attr?_followAll {events : List Event} (hf : c.followAll events = .ok after)
    (h : ∀ event ∈ events, event.touches id attr = false) :
    after.attr? id attr = c.attr? id attr :=
  followAll_induction (P := fun e => e.attr? id attr = c.attr? id attr)
    (fun event hmem _ _ hc hf => (attr?_follow hf (h event hmem)).trans hc) rfl hf

/-- An attribute holds a value. -/
theorem changes_modelChanged {value old : Json} (h : c.attr? id attr = some old) :
    c.changes (.modelChanged id attr value) = !old.same value := by
  obtain ⟨m, hm, hold⟩ := Option.bind_eq_some_iff.mp h
  simp [changes, hm, Document.holds, hold]

/-- Behind a change of an attribute it has the value. -/
theorem attr?_modelChanged {value : Json} (hv : value.IsCanonical)
    (hf : c.follow (.modelChanged id attr value) = .ok after) :
    ∃ old, after.attr? id attr = some old ∧ old.same value = true := by
  cases followed_of_follow hf with
  | @kept _ _ _ m found same =>
    rw [Document.holds] at same
    split at same
    · rename_i old hold
      exact ⟨old, by rw [attr?, found]; exact hold, same⟩
    · cases same
  | put found =>
    exact ⟨value, by rw [attr?_put found, if_pos ⟨rfl, rfl⟩], hv.same_self⟩

/-- Every attribute that events have changed, and not touched afterwards, has the value of the last of
    them. -/
def LastWritten (c : Content) (events : List Event) : Prop :=
  ∀ before id attr value rest, events = before ++ .modelChanged id attr value :: rest →
    (∀ event ∈ rest, event.touches id attr = false) →
    ∃ old, c.attr? id attr = some old ∧ old.same value = true

/-- **Step.** One more event. -/
theorem LastWritten.follow {events : List Event} (h : c.LastWritten events) {event : Event}
    (he : event.IsTidy) (hf : c.follow event = .ok after) :
    after.LastWritten (events ++ [event]) := by
  intro before id attr value rest hsplit huntouched
  rcases List.eq_nil_or_concat rest with rfl | ⟨others, last, rfl⟩
  · obtain ⟨-, hlast⟩ := List.append_inj' hsplit rfl
    obtain rfl := List.singleton_inj.mp hlast
    exact attr?_modelChanged he hf
  · have hparts : events ++ [event] = (before ++ .modelChanged id attr value :: others) ++ [last] := by
      rw [hsplit]
      simp
    obtain ⟨hevents, hlast⟩ := List.append_inj' hparts rfl
    obtain rfl := List.singleton_inj.mp hlast
    rw [attr?_follow hf (huntouched event (by simp))]
    exact h before id attr value others hevents fun other hother => huntouched other (by simp [hother])

/-- **Run.** More events. -/
theorem LastWritten.followAll {events more : List Event} (h : c.LastWritten events)
    (he : ∀ event ∈ more, event.IsTidy) (hf : c.followAll more = .ok after) :
    after.LastWritten (events ++ more) := by
  induction more generalizing c events with
  | nil =>
    obtain rfl := Except.ok.inj hf
    rwa [List.append_nil]
  | cons event rest ih =>
    obtain ⟨mid, hone, hothers⟩ := exists_of_followAll_cons hf
    have hmid := h.follow (he event List.mem_cons_self) hone
    have hlast := ih hmid (fun e hmem => he e (List.mem_cons_of_mem _ hmem)) hothers
    rwa [List.append_assoc] at hlast

/-- **An attribute that is touched once** is not changed when the events are made again, as it has
    the value already. -/
theorem LastWritten.notMem_effects {events : List Event} (h : c.LastWritten events)
    (once : events.countP (Event.touches id attr) ≤ 1) (value : Json) :
    .modelChanged id attr value ∉ c.effects events := by
  intro hmem
  obtain ⟨before, rest, mid, rfl, hled, hreal⟩ := exists_of_mem_effects hmem
  have hself : Event.touches id attr (.modelChanged id attr value) = true := by
    simp [Event.touches]
  rw [List.countP_append, List.countP_cons_of_pos hself] at once
  have huntouched : ∀ {events : List Event}, events.countP (Event.touches id attr) = 0 →
      ∀ event ∈ events, event.touches id attr = false := fun hzero event hevent => by
    simpa using List.countP_eq_zero.mp hzero event hevent
  obtain ⟨old, hold, hsame⟩ := h before id attr value rest rfl (huntouched (by omega))
  have hmid := (attr?_followAll hled (huntouched (by omega))).trans hold
  rw [changes_modelChanged hmid, hsame] at hreal
  cases hreal

end Content

/-- **Step.** What an operation tells is the last that is done. -/
theorem Document.perform_lastWritten {d : Document} {events : List Event}
    (h : d.content.LastWritten events) (op : Operation) :
    (d.perform op).2.1.content.LastWritten (events ++ (d.perform op).2.2) := by
  cases d.performed op with
  | told followed => exact h.followAll (d.perform_told_isTidy op) followed
  | @added kind attributes silent stored =>
    rw [silent, List.append_nil, stored]
    intro before id attr value rest hsplit huntouched
    obtain ⟨old, hold, hsame⟩ := h before id attr value rest hsplit huntouched
    obtain ⟨m, hm, -⟩ := Option.bind_eq_some_iff.mp hold
    -- The model that is added is another one.
    have hne : (d.newModel kind attributes).id ≠ id := by
      rintro rfl
      exact d.newModel_fresh kind attributes
        (Table.contains_iff_mem_keys.mp (by simp [Table.contains, hm]))
    refine ⟨old, ?_, hsame⟩
    rw [← hold]
    show ((d.models.insert _ _).get? id).bind _ = _
    rw [Table.get?_insert, if_neg hne]
    rfl

/-- **Cycle.** At the end of a cycle behind a patch of the host, whose watchers act in the name of the
    application, an attribute has the value that it was given last. -/
theorem Scene.cycle_lastWritten {s : Scene} (hl : s.live.isLinked = true) (ha : s.live.Acts True)
    {told : List Event} (hq : s.live.queue = told.map fun event => (event, Origin.host)) :
    s.cycleEnd.live.document.content.LastWritten s.cycleEvents := by
  have hstart : s.live.document.content.LastWritten [] := by
    intro before id attr value rest hsplit
    simp at hsplit
  exact (cycle_acts (K := fun events d => d.content.LastWritten events)
    (fun {_ _ op} _ h => Document.perform_lastWritten h op) hl ha hq hstart).1

end DocRelay
