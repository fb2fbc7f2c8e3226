import DocRelay.Proofs.Relay.Turn
import DocRelay.Proofs.Worker.Bootstrap

namespace DocRelay

/-!
# What a relay posts

A relay deals with every message in order.  A patch is answered by one acknowledgement, and by at
most one patch before it; every other message is answered by nothing.

* `Setup.serves_of_bootstrap` — the relay of a setup serves the document that was rendered;
* `Relay.Answer` — the posts that answer a message, with the numbers of patches;
* `Relay.posts`, `Relay.answers` — what a message, and several in order, are answered;
* `Relay.turn_turned` — one turn; `Relay.run_eq_foldl`, `Relay.posted_foldl` — a run;
* `Relay.run_trace` — all posts of a run, and when patches are among them.
-/

/-- **Rendered document.** The relay of a setup serves the document of the rendering, which was
    posted last, and numbers its patches from one. -/
theorem Setup.serves_of_bootstrap {l : Loader} {st after : Setup} {relay : Relay}
    (h : st.bootstrap l = (.ok relay, after)) :
    ∃ live, relay.Serves after.around live ∧ relay.isLinked = false ∧
      after.around.nextPatch relay.engine.sink = 1 ∧
      ∃ before, after.around.outbox.posted = before ++ [.render (.ofDocument live.document)] := by
  obtain ⟨progress, live, env, hcourse, rfl, hsucceeded⟩ := exists_of_bootstrap h
  obtain ⟨hreachable, hlink⟩ := hcourse.reachable
  have hbox := hsucceeded.outbox
  refine ⟨live, ⟨rfl, hreachable, hlink, ?_, ?_, ?_⟩, rfl, ?_, ?_⟩
  · rw [hbox]
  · rw [hbox]
  · -- The sink of the relay is the one that the setup has made.
    rw [hbox]
    show st.around.outbox.counters.length < (st.around.outbox.counters ++ [1]).length
    rw [List.length_append]
    exact Nat.lt_succ_self _
  · show after.around.outbox.counters.getD st.around.outbox.counters.length 1 = 1
    rw [hbox]
    simp
  · rw [hbox]
    exact ⟨_, rfl⟩

namespace Relay

/-! ### One turn -/

/-- How a message is answered, given whether changes are forwarded and the number of the next
    patch: the posts, and the number of the next patch afterwards. -/
inductive Answer (linked : Bool) (n : Nat) : InboundMessage → List OutboundMessage → Nat → Prop
    where
  | rendered : Answer linked n .rendered [] n
  | location (text : String) : Answer linked n (.location text) [] n
  | idle (text : String) : Answer linked n (.patch text) [.idle] n
  | patch (text : String) (change : Json) (buffers : List Bytes) (h : linked = true) :
    Answer linked n (.patch text) [.patch change buffers (Outbox.patchId n), .idle] (n + 1)

/-- What is posted in a turn. -/
def posts (now : Relay × Surroundings) (m : InboundMessage) : List OutboundMessage :=
  (turn now m).2.outbox.posted.drop now.2.outbox.posted.length

theorem posts_of_posted {now : Relay × Surroundings} {m : InboundMessage}
    {own : List OutboundMessage}
    (h : (turn now m).2.outbox.posted = now.2.outbox.posted ++ own) : posts now m = own := by
  rw [posts, h, List.drop_left]

/-- A relay goes on behind a message unless nobody listens. -/
theorem run_cons {now : Relay × Surroundings} {m : InboundMessage}
    (h : ∀ fault, (now.1.handle m now.2).1 = .error fault → fault.isClosed = false)
    (rest : List InboundMessage) :
    now.1.run now.2 (m :: rest) = (turn now m).1.run (turn now m).2 rest := by
  unfold turn
  rw [run]
  cases hh : now.1.handle m now.2 with
  | mk reply after =>
    rw [hh] at h
    cases reply with
    | ok done => rfl
    | error fault =>
      dsimp only
      rw [if_neg (by simp [h fault rfl])]

/-- What a turn of a relay is that serves a document. -/
structure Turned (now : Relay × Surroundings) (m : InboundMessage) : Prop where
  serves : ∃ live, (turn now m).1.Serves (turn now m).2 live
  sink : (turn now m).1.engine.sink = now.1.engine.sink
  linked : (turn now m).1.isLinked = true ↔ now.1.isLinked = true ∨ m = .rendered
  posted : (turn now m).2.outbox.posted = now.2.outbox.posted ++ posts now m
  answer : Answer now.1.isLinked (now.2.nextPatch now.1.engine.sink) m (posts now m)
    ((turn now m).2.nextPatch now.1.engine.sink)
  goesOn : ∀ fault, (now.1.handle m now.2).1 = .error fault → fault.isClosed = false

/-- A turn, by what its message did. -/
theorem Turned.of_handle {r after : Relay} {s around : Surroundings} {m : InboundMessage}
    {reply : Except Fault Unit} {live : LiveDocument} {own : List OutboundMessage} {n : Nat}
    (hh : r.handle m s = (reply, after, around)) (hs : after.Serves around live)
    (hsink : after.engine.sink = r.engine.sink)
    (hlinked : after.isLinked = true ↔ r.isLinked = true ∨ m = .rendered)
    (hposted : around.outbox.posted = s.outbox.posted ++ own)
    (hn : around.nextPatch r.engine.sink = n)
    (hanswer : Answer r.isLinked (s.nextPatch r.engine.sink) m own n)
    (hopen : ∀ fault, reply = .error fault → fault.isClosed = false) : Turned (r, s) m := by
  have hrelay : (turn (r, s) m).1 = after := by rw [turn_fst, hh]
  have hbox : (turn (r, s) m).2.outbox = around.outbox := by rw [turn_outbox, hh]
  -- A notice may be told behind the message, which posts nothing.
  have hposts : posts (r, s) m = own := posts_of_posted (by rw [hbox, hposted])
  have hnext : (turn (r, s) m).2.nextPatch r.engine.sink = n := by
    rw [← hn, Surroundings.nextPatch, hbox]
    rfl
  refine ⟨⟨live, hs.turn hh⟩, ?_, ?_, ?_, ?_, ?_⟩
  · rw [hrelay]
    exact hsink
  · rw [hrelay]
    exact hlinked
  · rw [hbox, hposts]
    exact hposted
  · rw [hposts, hnext]
    exact hanswer
  · rw [hh]
    exact hopen

/-- **Step.** One turn of a relay that serves a document. -/
theorem turn_turned {r : Relay} {s : Surroundings} {live : LiveDocument} (h : r.Serves s live)
    (m : InboundMessage) : Turned (r, s) m := by
  cases m with
  | rendered =>
    have hh := handle_rendered h
    -- A second word of the rendering is told, and changes nothing.
    cases hl : r.isLinked with
    | true =>
      rw [hl, if_pos rfl] at hh
      exact .of_handle hh (h.notify _) rfl (by simp [hl]) (List.append_nil _).symm rfl
        .rendered (fun fault hf => by cases hf)
    | false =>
      rw [hl, if_neg Bool.false_ne_true] at hh
      exact .of_handle hh h.linking rfl (by simp [linking]) (List.append_nil _).symm rfl
        .rendered (fun fault hf => by cases hf)
  | location text =>
    have hh := handle_location h.document text s
    exact .of_handle hh (h.relocated _) rfl (by simp [relocated, holding])
      (List.append_nil _).symm rfl (.location text) fun _ hf => isClosed_of_relocation hf
  | patch text =>
    have hh := handle_patch h text
    generalize hresult : r.onPatch text s = result at hh
    cases hresult ▸ onPatch_turn h text with
    | refused refused =>
      exact .of_handle hh (h.posting .idle) rfl (by simp) rfl rfl (.idle text)
        (fun fault hf => by cases hf; exact Content.isClosed_of_patched refused)
    | @quiet change c read applied nothing =>
      dsimp only at hh
      refine .of_handle hh ((h.made change).posting .idle) rfl (by simp [holding])
        (made_posting live s change .idle) ?_ (.idle text) (fun fault hf => by cases hf)
      rw [Surroundings.posting_nextPatch, made_nextPatch]
    | @forwarded change c read applied linked changes =>
      dsimp only at hh
      have hknown : r.engine.sink.index
          < (made live s change).cycleEnd.around.outbox.counters.length := (h.made change).known
      refine .of_handle hh (((h.made change).forwarding _ _ _).posting .idle) rfl
        (by simp [holding]) (made_forwarding live s change _ _ _ .idle) ?_
        (.patch text _ _ linked) (fun fault hf => by cases hf)
      rw [Surroundings.posting_nextPatch, Surroundings.forwarding_nextPatch hknown, made_nextPatch]

/-- How a patch is answered, and the document that the relay serves then. -/
inductive PatchAnswered (r : Relay) (s : Surroundings) (live : LiveDocument) (text : String) :
    Prop where
  | refused {fault : Fault} (refused : live.document.content.patched text = .error fault)
    (reply : (r.handle (.patch text) s).1 = .error fault)
    (posted : posts (r, s) (.patch text) = [.idle])
    (serves : (turn (r, s) (.patch text)).1.Serves (turn (r, s) (.patch text)).2 live)
  | quiet {change : Json} {c : Content} (read : readPatch text = .ok change)
    (applied : live.document.content.applied change = .ok c)
    (nothing : r.isLinked = false ∨ (made live s change).cycleEvents = [])
    (reply : (r.handle (.patch text) s).1 = .ok ())
    (posted : posts (r, s) (.patch text) = [.idle])
    (serves : (turn (r, s) (.patch text)).1.Serves (turn (r, s) (.patch text)).2
      (made live s change).cycleEnd.live)
  | forwarded {change : Json} {c : Content} (read : readPatch text = .ok change)
    (applied : live.document.content.applied change = .ok c) (linked : r.isLinked = true)
    (changes : (made live s change).cycleEvents ≠ [])
    (reply : (r.handle (.patch text) s).1 = .ok ())
    (posted : posts (r, s) (.patch text) =
      [.patch (Patch.toJson (made live s change).cycleEvents)
        ((made live s change).cycleEnd.live.document.referencedBuffers
          (made live s change).cycleEvents)
        (Outbox.patchId (s.nextPatch r.engine.sink)), .idle])
    (serves : (turn (r, s) (.patch text)).1.Serves (turn (r, s) (.patch text)).2
      (made live s change).cycleEnd.live)

/-- **Patch.** A relay that serves a document answers every patch. -/
theorem turn_answered {r : Relay} {s : Surroundings} {live : LiveDocument} (h : r.Serves s live)
    (text : String) : PatchAnswered r s live text := by
  have hh := handle_patch h text
  generalize hresult : r.onPatch text s = result at hh
  have hreply := congrArg Prod.fst hh
  cases hresult ▸ onPatch_turn h text with
  | refused refused =>
    exact .refused refused hreply (posts_of_posted (turn_posted hh)) ((h.posting .idle).turn hh)
  | @quiet change c read applied nothing =>
    dsimp only at hh
    exact .quiet read applied nothing hreply
      (posts_of_posted ((turn_posted hh).trans (made_posting live s change .idle)))
      (((h.made change).posting .idle).turn hh)
  | @forwarded change c read applied linked changes =>
    dsimp only at hh
    exact .forwarded read applied linked changes hreply
      (posts_of_posted ((turn_posted hh).trans (made_forwarding live s change _ _ _ .idle)))
      ((((h.made change).forwarding _ _ _).posting .idle).turn hh)

/-- A patch that is refused is acknowledged, and leaves the relay as it is. -/
theorem turn_refused {r : Relay} {s : Surroundings} {live : LiveDocument} (h : r.Serves s live)
    {text : String} {fault : Fault} (hf : (r.handle (.patch text) s).1 = .error fault) :
    posts (r, s) (.patch text) = [.idle] ∧ (turn (r, s) (.patch text)).1 = r := by
  have hh := handle_patch h text
  generalize hresult : r.onPatch text s = result at hh
  cases hresult ▸ onPatch_turn h text with
  | refused refused =>
    refine ⟨posts_of_posted ?_, ?_⟩
    · rw [turn_outbox, hh]
      rfl
    · rw [turn_fst, hh]
  | quiet =>
    rw [hh] at hf
    cases hf
  | forwarded =>
    rw [hh] at hf
    cases hf

/-- A rendering that was told before changes nothing. -/
theorem turn_again {r : Relay} {s : Surroundings} {live : LiveDocument} (h : r.Serves s live)
    (hl : r.isLinked = true) :
    (turn (r, s) .rendered).1 = r ∧ (turn (r, s) .rendered).2.outbox = s.outbox := by
  have hh := handle_rendered h
  rw [if_pos hl] at hh
  rw [turn_fst, turn_outbox, hh]
  exact ⟨rfl, rfl⟩

/-! ### Runs -/

/-- What messages are answered, one after the other. -/
def answers : Relay × Surroundings → List InboundMessage → List (List OutboundMessage)
  | _, [] => []
  | now, m :: rest => posts now m :: answers (turn now m) rest

/-- The relay before the message of an index. -/
def before (start : Relay × Surroundings) (messages : List InboundMessage) (i : Nat) :
    Relay × Surroundings :=
  (messages.take i).foldl turn start

/-- The id of a patch. -/
def patchId? : OutboundMessage → Option String
  | .patch _ _ id => some id
  | _ => none

/-- The ids of the patches among messages, in order. -/
def patchIds (posted : List OutboundMessage) : List String :=
  posted.filterMap patchId?

/-- There is an answer to each message. -/
theorem length_answers (now : Relay × Surroundings) (messages : List InboundMessage) :
    (answers now messages).length = messages.length := by
  induction messages generalizing now with
  | nil => rfl
  | cons m rest ih => rw [answers, List.length_cons, ih, List.length_cons]

/-- What messages are answered behind others. -/
theorem answers_append (now : Relay × Surroundings) (earlier later : List InboundMessage) :
    answers now (earlier ++ later)
      = answers now earlier ++ answers (earlier.foldl turn now) later := by
  induction earlier generalizing now with
  | nil => rfl
  | cons m earlier ih =>
    rw [List.cons_append, answers, ih]
    rfl

/-- The answer to a message is what is posted in its turn. -/
theorem getElem?_answers (now : Relay × Surroundings) {messages : List InboundMessage} {i : Nat}
    {m : InboundMessage} (h : messages[i]? = some m) :
    (answers now messages)[i]? = some (posts (before now messages i) m) := by
  induction messages generalizing now i with
  | nil => cases h
  | cons first rest ih =>
    cases i with
    | zero =>
      obtain rfl := Option.some.inj h
      rfl
    | succ i => exact ih (turn now first) h

/-- A message takes the relay from before it to before the next one. -/
theorem before_succ (start : Relay × Surroundings) {messages : List InboundMessage} {i : Nat}
    {m : InboundMessage} (h : messages[i]? = some m) :
    before start messages (i + 1) = turn (before start messages i) m := by
  rw [before, List.take_add_one, h, List.foldl_append]
  rfl

/-- **Run.** What every turn keeps: the relay serves its document, its sink is the same, and it is
    linked from the first word of a rendering on. -/
theorem foldl_turned {r : Relay} {s : Surroundings} {live : LiveDocument} (h : r.Serves s live)
    (messages : List InboundMessage) :
    let last := messages.foldl turn (r, s)
    (∃ live, last.1.Serves last.2 live) ∧ last.1.engine.sink = r.engine.sink ∧
      (last.1.isLinked = true ↔ r.isLinked = true ∨ .rendered ∈ messages) := by
  induction messages generalizing r s live with
  | nil => exact ⟨⟨live, h⟩, rfl, by simp⟩
  | cons m rest ih =>
    have hturned := turn_turned h m
    obtain ⟨next, hnext⟩ := hturned.serves
    obtain ⟨hserves, hsink, hlinked⟩ := ih hnext
    refine ⟨hserves, hsink.trans hturned.sink, ?_⟩
    rw [List.foldl_cons, hlinked, hturned.linked, List.mem_cons, or_assoc,
      eq_comm (b := InboundMessage.rendered)]

/-- **Run.** A relay deals with every message in order. -/
theorem run_eq_foldl {r : Relay} {s : Surroundings} {live : LiveDocument} (h : r.Serves s live)
    (messages : List InboundMessage) : r.run s messages = ([], messages.foldl turn (r, s)) := by
  induction messages generalizing r s live with
  | nil => rfl
  | cons m rest ih =>
    have hturned := turn_turned h m
    obtain ⟨next, hnext⟩ := hturned.serves
    show (r, s).1.run (r, s).2 (m :: rest) = _
    rw [run_cons hturned.goesOn rest, ih hnext]
    rfl

/-- **Run.** What is posted are the answers, one after the other. -/
theorem posted_foldl {r : Relay} {s : Surroundings} {live : LiveDocument} (h : r.Serves s live)
    (messages : List InboundMessage) :
    (messages.foldl turn (r, s)).2.outbox.posted
      = s.outbox.posted ++ (answers (r, s) messages).flatten := by
  induction messages generalizing r s live with
  | nil => exact (List.append_nil _).symm
  | cons m rest ih =>
    have hturned := turn_turned h m
    obtain ⟨next, hnext⟩ := hturned.serves
    rw [List.foldl_cons, ih hnext, hturned.posted, answers, List.flatten_cons, List.append_assoc]

/-- The ids in an answer are those between the numbers before and after it. -/
theorem Answer.patchIds_eq {linked : Bool} {n next : Nat} {m : InboundMessage}
    {own : List OutboundMessage} (h : Answer linked n m own next) :
    ∃ count, next = n + count ∧ patchIds own = (List.range' n count).map Outbox.patchId := by
  cases h with
  | patch text change buffers h => exact ⟨1, rfl, rfl⟩
  | _ => exact ⟨0, rfl, rfl⟩

/-- **Run.** The patches are numbered without gaps and without repetition. -/
theorem patchIds_answers {r : Relay} {s : Surroundings} {live : LiveDocument} (h : r.Serves s live)
    (messages : List InboundMessage) :
    ∃ count, patchIds (answers (r, s) messages).flatten
      = (List.range' (s.nextPatch r.engine.sink) count).map Outbox.patchId := by
  induction messages generalizing r s live with
  | nil => exact ⟨0, rfl⟩
  | cons m rest ih =>
    have hturned := turn_turned h m
    obtain ⟨next, hnext⟩ := hturned.serves
    -- The numbers of the answer end where those of the rest begin.
    obtain ⟨own, hn, hown⟩ := hturned.answer.patchIds_eq
    obtain ⟨others, hrest⟩ := ih hnext
    refine ⟨own + others, ?_⟩
    rw [answers, List.flatten_cons, patchIds, List.filterMap_append]
    show patchIds (posts (r, s) m) ++ patchIds (answers (turn (r, s) m) rest).flatten = _
    rw [hown, hrest, hturned.sink, hn, ← List.map_append, List.range'_append_1]

/-- **Trace.** A relay that a setup has made deals with every message in order, and posts the
    answers one after the other: nothing for a rendering or a location, and for a patch its
    acknowledgement and at most one patch before it.  It is linked, and so forwards patches, from
    the first word of a rendering on, and other words of it change nothing.  A patch that is refused
    has nothing forwarded and changes nothing.  Forwarded patches are numbered from one, without
    gaps and without repetition. -/
theorem run_trace {l : Loader} {st after : Setup} {relay : Relay}
    (h : st.bootstrap l = (.ok relay, after)) (messages : List InboundMessage) :
    let start := (relay, after.around)
    let posted := answers start messages
    (∃ earlier payload, after.around.outbox.posted = earlier ++ [.render payload]) ∧
    relay.run after.around messages = ([], messages.foldl turn start) ∧
    (messages.foldl turn start).2.outbox.posted
      = after.around.outbox.posted ++ posted.flatten ∧
    posted.length = messages.length ∧
    (∀ i, (before start messages i).1.isLinked = true ↔ .rendered ∈ messages.take i) ∧
    (∀ i m, messages[i]? = some m →
      let now := before start messages i
      let next := before start messages (i + 1)
      (∃ own n after, posted[i]? = some own ∧ Answer now.1.isLinked n m own after) ∧
      (∀ text fault, m = .patch text → (now.1.handle m now.2).1 = .error fault →
        posted[i]? = some [.idle] ∧ next.1 = now.1) ∧
      (m = .rendered → now.1.isLinked = true → next.1 = now.1)) ∧
    patchIds posted.flatten
      = (List.range (patchIds posted.flatten).length).map fun k => Outbox.patchId (k + 1) := by
  obtain ⟨live, hserves, hlinked, hone, earlier, hrender⟩ := Setup.serves_of_bootstrap h
  refine ⟨⟨earlier, _, hrender⟩, run_eq_foldl hserves messages, posted_foldl hserves messages,
    length_answers _ messages, fun i => ?_, fun i m hm => ?_, ?_⟩
  · obtain ⟨-, -, hiff⟩ := foldl_turned hserves (messages.take i)
    show ((messages.take i).foldl turn (relay, after.around)).1.isLinked = true ↔ _
    rw [hiff, hlinked]
    exact or_iff_right Bool.false_ne_true
  · -- The relay serves before each message, so what is known of one turn applies to it.
    obtain ⟨⟨here, hhere⟩, -, -⟩ := foldl_turned hserves (messages.take i)
    dsimp only
    rw [before_succ _ hm, getElem?_answers _ hm]
    refine ⟨⟨_, _, _, rfl, (turn_turned hhere m).answer⟩, ?_, ?_⟩
    · rintro text fault rfl hf
      obtain ⟨hposts, hrelay⟩ := turn_refused hhere hf
      exact ⟨congrArg some hposts, hrelay⟩
    · rintro rfl hl
      exact (turn_again hhere hl).1
  · obtain ⟨count, hids⟩ := patchIds_answers hserves messages
    rw [hids, hone, List.length_map, List.length_range', List.range'_eq_map_range, List.map_map]
    refine List.map_congr_left fun k _ => ?_
    show Outbox.patchId (1 + k) = _
    rw [Nat.add_comm]

/-- The text of a patch that moves the slider. -/
def sliderMoved (value : String) : String :=
  "\x7b\"events\":[\x7b\"kind\":\"ModelChanged\",\"model\":\x7b\"id\":\"m1\"\x7d,"
    ++ "\"attr\":\"value\",\"new\":" ++ value ++ "\x7d]\x7d"

/-- A host that moves the slider too early, and then after two words of the rendering. -/
def sliderMessages : List InboundMessage :=
  [.patch (sliderMoved "5"), .rendered, .rendered, .patch (sliderMoved "7"), .patch "no patch"]

/-- The slider is relayed: the host that moves it is told what it shows, once it has painted it. -/
theorem run_trace_slider :
    let start := (slider, Setup.sliderReady.around)
    let posted := answers start sliderMessages
    Setup.slider.bootstrap .slider = (.ok slider, .sliderReady) ∧
    posted.map (·.map (·.kind)) = [["idle"], [], [], ["patch", "idle"], ["idle"]] ∧
    (∃ earlier payload,
      Setup.sliderReady.around.outbox.posted = earlier ++ [.render payload]) ∧
    slider.run Setup.sliderReady.around sliderMessages = ([], sliderMessages.foldl turn start) ∧
    (sliderMessages.foldl turn start).2.outbox.posted
      = Setup.sliderReady.around.outbox.posted ++ posted.flatten ∧
    posted.length = sliderMessages.length ∧
    (∀ i, (before start sliderMessages i).1.isLinked = true ↔
      .rendered ∈ sliderMessages.take i) ∧
    (∀ i m, sliderMessages[i]? = some m →
      let now := before start sliderMessages i
      let next := before start sliderMessages (i + 1)
      (∃ own n after, posted[i]? = some own ∧ Answer now.1.isLinked n m own after) ∧
      (∀ text fault, m = .patch text → (now.1.handle m now.2).1 = .error fault →
        posted[i]? = some [.idle] ∧ next.1 = now.1) ∧
      (m = .rendered → now.1.isLinked = true → next.1 = now.1)) ∧
    patchIds posted.flatten
      = (List.range (patchIds posted.flatten).length).map fun k => Outbox.patchId (k + 1) :=
  ⟨Setup.bootstrap_slider, by decide +kernel, run_trace Setup.bootstrap_slider sliderMessages⟩

end Relay

end DocRelay
