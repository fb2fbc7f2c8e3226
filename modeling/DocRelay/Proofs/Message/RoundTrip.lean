import DocRelay.Proofs.Digits.Base64
import DocRelay.Proofs.Json.Canonical
import DocRelay.Proofs.Json.Decode
import DocRelay.Proofs.Json.RoundTrip
import DocRelay.Proofs.Text.Utf8
import DocRelay.Worker.Transport

namespace DocRelay

/-!
# Messages as lines and back

Every message is read back from its line, and the lines of several messages are told apart by the
newlines between them.

* `InboundMessage.ofText_toLine` — messages from the host are read back;
* `OutboundMessage.IsCarried`, `OutboundMessage.ofText_toLine` — so are messages to the host whose
  values a text carries;
* `OutboundMessage.isCarried_of_members`, `OutboundMessage.isCarried_status` — which those are;
* `OutboundMessage.newline_notMem_toLine` — a line is one line;
* `Transport.exists_lines`, `Transport.wire_roundTrip` — what is written, cut at the newlines and
  read.
-/

/-- No byte of the text of a value is a control. -/
theorem Json.le_of_mem_compact {depth : Nat} {j : Json} (h : j.IsPortable depth) {b : UInt8}
    (hb : b ∈ Text.utf8 j.compact) : 0x20 ≤ b.toNat := by
  refine Text.le_of_mem_utf8 (by decide) (fun c hc => ?_) hb
  rw [compact, String.toList_ofList] at hc
  exact le_of_mem_render h c hc

/-! ### Messages from the host -/

namespace InboundMessage

/-- A message is read back if its record holds nothing but texts, and builds it. -/
theorem ofText_of_texts {m : InboundMessage} {kind : String} {members : List (String × Json)}
    (hkind : kind ∈ kinds)
    (hmembers : ∀ member ∈ members, member.1 ≠ "type" ∧ ∃ text, member.2 = .str text)
    (hjson : m.toJson = .obj (("type", .str kind) :: members))
    (hbuild : build kind (.obj members) = .ok m) : ofText m.toLine = .ok m := by
  have hportable : Json.IsPortable Json.depthLimit (.obj (("type", .str kind) :: members)) := by
    intro member hmember
    rcases List.mem_cons.mp hmember with rfl | hmember
    · trivial
    · obtain ⟨-, text, htext⟩ := hmembers member hmember
      rw [htext]
      trivial
  rw [ofText, toLine, hjson, Json.readRecord_compact hkind
    (fun member hmember => (hmembers member hmember).1) hportable hbuild]

/-- No byte of a line is a control. -/
theorem le_of_mem_toLine {m : InboundMessage} {b : UInt8} (hb : b ∈ Text.utf8 m.toLine) :
    0x20 ≤ b.toNat := by
  have hportable : m.toJson.IsPortable Json.depthLimit := by
    cases m with
    | rendered => exact List.forall_mem_singleton.mpr trivial
    | patch text => exact List.forall_mem_cons.mpr ⟨trivial, List.forall_mem_singleton.mpr trivial⟩
    | location text =>
      exact List.forall_mem_cons.mpr ⟨trivial, List.forall_mem_singleton.mpr trivial⟩
  exact Json.le_of_mem_compact hportable hb

/-- **Messages from the host are read back** from their lines. -/
theorem ofText_toLine (m : InboundMessage) : ofText m.toLine = .ok m := by
  cases m with
  | rendered =>
    have hbuild : build "rendered" (.obj []) = .ok .rendered := rfl
    exact ofText_of_texts (by decide) (by simp) rfl hbuild
  | patch text =>
    have htext : payload "Patch" "patch" (.obj [("patch", .str text)]) = .ok text :=
      Json.Shape.decode_single rfl
    have hbuild : build "patch" (.obj [("patch", .str text)]) = .ok (.patch text) :=
      congrArg (Except.map InboundMessage.patch) htext
    exact ofText_of_texts (by decide) (by simp) rfl hbuild
  | location text =>
    have htext : payload "Location" "location" (.obj [("location", .str text)]) = .ok text :=
      Json.Shape.decode_single rfl
    have hbuild : build "location" (.obj [("location", .str text)]) = .ok (.location text) :=
      congrArg (Except.map InboundMessage.location) htext
    exact ofText_of_texts (by decide) (by simp) rfl hbuild

end InboundMessage

/-! ### Messages to the host -/

namespace OutboundMessage

/-- A message that its line carries whole: its objects are in key order, its numbers are integers
    of 64 bits, and it is not nested too deep for the reader. -/
structure IsCarried (m : OutboundMessage) : Prop where
  canonical : ∀ member ∈ m.members, member.2.IsCanonical
  portable : m.toJson.IsPortable Json.depthLimit

/-- A message is carried if each of its members is, below the message itself. -/
theorem isCarried_of_members {m : OutboundMessage} (h : ∀ member ∈ m.members,
    member.2.IsCanonical ∧ member.2.IsPortable (Json.depthLimit - 1)) : m.IsCarried :=
  ⟨fun member hmember => (h member hmember).1,
    List.forall_mem_cons.mpr ⟨trivial, fun member hmember => (h member hmember).2⟩⟩

/-- A status is always carried. -/
theorem isCarried_status (text : String) : (status text).IsCarried :=
  isCarried_of_members (List.forall_mem_singleton.mpr ⟨rfl, trivial⟩)

/-- An acknowledgement is always carried. -/
theorem isCarried_idle : idle.IsCarried :=
  isCarried_of_members fun _ h => absurd h List.not_mem_nil

/-- An error is always carried. -/
theorem isCarried_error (phase : Phase) (text : String) : (error phase text).IsCarried :=
  isCarried_of_members (List.forall_mem_cons.mpr
    ⟨⟨rfl, trivial⟩, List.forall_mem_singleton.mpr ⟨rfl, trivial⟩⟩)

/-- A rendering is carried if its parts are. -/
theorem isCarried_render {payload : RenderPayload}
    (docs : payload.docsJson.IsCanonical ∧ payload.docsJson.IsPortable (Json.depthLimit - 1))
    (items : payload.renderItems.IsCanonical ∧
      payload.renderItems.IsPortable (Json.depthLimit - 1))
    (roots : payload.rootIds.IsCanonical ∧ payload.rootIds.IsPortable (Json.depthLimit - 1)) :
    (render payload).IsCarried :=
  isCarried_of_members (List.forall_mem_cons.mpr
    ⟨docs, List.forall_mem_cons.mpr ⟨items, List.forall_mem_singleton.mpr roots⟩⟩)

/-- A patch is carried if its change is. -/
theorem isCarried_patch {change : Json} {buffers : List Bytes} {id : String}
    (h : change.IsCanonical ∧ change.IsPortable (Json.depthLimit - 1)) :
    (patch change buffers id).IsCarried := by
  have hcanonical : Json.IsCanonical (.arr (buffers.map fun b => .str (Buffer.encode b))) :=
    congrArg Json.arr (Json.canonicalItems_eq_self (List.forall_mem_map.mpr fun _ _ => rfl))
  have hportable : Json.IsPortable (Json.depthLimit - 1)
      (.arr (buffers.map fun b => .str (Buffer.encode b))) :=
    List.forall_mem_map.mpr fun _ _ => trivial
  exact isCarried_of_members (List.forall_mem_cons.mpr ⟨h, List.forall_mem_cons.mpr
    ⟨⟨hcanonical, hportable⟩, List.forall_mem_singleton.mpr ⟨rfl, trivial⟩⟩⟩)

/-- Buffers are read back from their texts. -/
theorem decodeBuffers_encode (buffers : List Bytes) :
    decodeBuffers (.arr (buffers.map fun b => .str (Buffer.encode b))) = .ok buffers := by
  have htexts : Json.eachItem Json.asText ((buffers.map Buffer.encode).map .str)
      = .ok (buffers.map Buffer.encode) := Json.eachItem_map fun _ _ => rfl
  rw [List.map_map] at htexts
  change (Json.eachItem Json.asText (buffers.map (Json.str ∘ Buffer.encode)) >>= _) = _
  rw [htexts]
  refine mapM_map (fun bytes => ?_) buffers
  rw [Buffer.decode_encode]

/-- A message is built from its own members. -/
theorem build_members {m : OutboundMessage}
    (h : ∀ member ∈ m.members, member.2.IsCanonical) :
    build m.kind (.obj m.members) = .ok m := by
  cases m with
  | status text => rfl
  | render payload =>
    -- A rendering is built from canonical forms, which its parts are already.
    have hdocs : payload.docsJson.canonical = payload.docsJson :=
      h ("docs_json", payload.docsJson) (by simp [members])
    have hitems : payload.renderItems.canonical = payload.renderItems :=
      h ("render_items", payload.renderItems) (by simp [members])
    have hroots : payload.rootIds.canonical = payload.rootIds :=
      h ("root_ids", payload.rootIds) (by simp [members])
    have hbuild : build "render" (.obj [("docs_json", payload.docsJson),
        ("render_items", payload.renderItems), ("root_ids", payload.rootIds)])
          = .ok (.render ⟨payload.docsJson.canonical, payload.renderItems.canonical,
            payload.rootIds.canonical⟩) := rfl
    rw [hdocs, hitems, hroots] at hbuild
    exact hbuild
  | patch change buffers id =>
    have hchange : anyValue change = .ok change :=
      congrArg Except.ok (h ("patch", change) (by simp [members]))
    have hbuffers := decodeBuffers_encode buffers
    have hid : Json.asText (.str id) = .ok id := rfl
    refine Json.Shape.decode_obj .untagged
      (Json.fillByName_cons rfl rfl (Json.check_field hchange)
        (Json.fillByName_cons rfl rfl (Json.check_field hbuffers)
          (Json.fillByName_cons rfl rfl (Json.check_field hid) rfl))) ?_
    simp only [Json.Slots.required, Json.Slots.optional, List.lookup_cons, beq_self_eq_true,
      show (("buffers" : String) == "patch") = false by decide,
      show (("msg_id" : String) == "patch") = false by decide,
      show (("msg_id" : String) == "buffers") = false by decide,
      hchange, hbuffers, hid]
    rfl
  | idle => rfl
  | error phase text => cases phase <;> rfl

/-- The members of a message do not name its kind. -/
theorem name_ne_type {m : OutboundMessage} : ∀ member ∈ m.members, member.1 ≠ "type" := by
  cases m <;> simp [members]

/-- The kind of a message is one of the kinds. -/
theorem kind_mem_kinds (m : OutboundMessage) : m.kind ∈ kinds := by
  cases m <;> simp [kind, kinds]

/-- **Messages to the host are read back** from their lines. -/
theorem ofText_toLine {m : OutboundMessage} (h : m.IsCarried) : ofText m.toLine = .ok m := by
  rw [ofText, toLine, toJson]
  exact Json.readRecord_compact m.kind_mem_kinds name_ne_type h.portable
    (build_members h.canonical)

/-- No byte of a line is a control. -/
theorem le_of_mem_toLine {m : OutboundMessage} (h : m.IsCarried) {b : UInt8}
    (hb : b ∈ Text.utf8 m.toLine) : 0x20 ≤ b.toNat :=
  Json.le_of_mem_compact h.portable hb

/-- A line is not empty. -/
theorem utf8_toLine_ne_nil {m : OutboundMessage} : Text.utf8 m.toLine ≠ [] := by
  intro h
  have hc : '\x7b' ∈ m.toLine.toList := by simp [toLine, Json.compact, toJson, Json.render]
  have hbytes : String.utf8EncodeChar '\x7b' = [] :=
    List.flatMap_eq_nil_iff.mp h _ hc
  exact absurd hbytes (by decide)

/-- The message that the bytes of a line are. -/
def ofBytes? (line : Bytes) : Option OutboundMessage :=
  match Text.ofUtf8 line with
  | .ok text => (ofText text).toOption
  | .error _ => none

/-- A message is read back from the bytes of its line. -/
theorem ofBytes?_toLine {m : OutboundMessage} (h : m.IsCarried) :
    ofBytes? (Text.utf8 m.toLine) = some m := by
  simp [ofBytes?, ofText_toLine h, Except.toOption]

end OutboundMessage

/-! ### Lines on the wire -/

namespace Transport

/-- What is written splits into the lines of the messages, with nothing behind the last newline. -/
theorem splitOn_lines {messages : List OutboundMessage} (h : ∀ m ∈ messages, m.IsCarried) :
    (messages.map lineOf).flatten.splitOn newline
      = messages.map (fun m => Text.utf8 m.toLine) ++ [[]] := by
  induction messages with
  | nil => rfl
  | cons m messages ih =>
    have hline : newline ∉ Text.utf8 m.toLine := fun hmem =>
      absurd (OutboundMessage.le_of_mem_toLine (h m List.mem_cons_self) hmem) (by decide)
    rw [List.map_cons, List.flatten_cons, lineOf, List.append_assoc, List.singleton_append,
      List.splitOn_append_cons_self_of_not_mem hline,
      ih fun m hm => h m (List.mem_cons_of_mem _ hm)]
    rfl

/-- Cut at its newlines, what is written is one line for each message, none of them empty, and each
    is read as its message. -/
theorem exists_lines {messages : List OutboundMessage} (h : ∀ m ∈ messages, m.IsCarried) :
    ∃ lines, (messages.map lineOf).flatten.splitOn newline = lines ++ [[]] ∧
      (∀ line ∈ lines, line ≠ []) ∧
      lines.map OutboundMessage.ofBytes? = messages.map some := by
  refine ⟨messages.map fun m => Text.utf8 m.toLine, ?_, ?_, ?_⟩
  · exact splitOn_lines h
  · intro line hline
    obtain ⟨m, -, rfl⟩ := List.mem_map.mp hline
    exact OutboundMessage.utf8_toLine_ne_nil
  · rw [List.map_map]
    exact List.map_congr_left fun m hm => OutboundMessage.ofBytes?_toLine (h m hm)

/-- **Messages on the wire.** Cut at its newlines, what is written is one line for each message,
    none of them empty, and each is read as its message; and every message from the host is read
    back from its line. -/
theorem wire_roundTrip {messages : List OutboundMessage} (h : ∀ m ∈ messages, m.IsCarried) :
    (∃ lines, (writeMessages .unlimited messages).2 = none ∧
      (writeMessages .unlimited messages).1.splitOn newline = lines ++ [[]] ∧
      (∀ line ∈ lines, line ≠ []) ∧
      lines.map OutboundMessage.ofBytes? = messages.map some) ∧
    ∀ m : InboundMessage, InboundMessage.ofText m.toLine = .ok m := by
  obtain ⟨lines, hsplit, hlines, hread⟩ := exists_lines h
  rw [writeMessages_unlimited]
  exact ⟨⟨lines, rfl, hsplit, hlines, hread⟩, InboundMessage.ofText_toLine⟩

/-- One message of each kind, with texts and values of all sorts. -/
def oneOfEach : List OutboundMessage :=
  [.status "Loading\n\t\"été\" \\ \u0001",
    .render ⟨.obj [("a", .arr [.int 18446744073709551615, .int (-9223372036854775808), .null]),
      ("b", .obj [("", .bool true), ("é\n", .str "\r\n")])], .arr [], .str "x"⟩,
    .patch (.obj [("events", .arr [.obj [], .int 0])]) [[], [0x0A], [0, 1, 2, 255]] "patch-1",
    .idle,
    .error .executing "no\nentry"]

/-- They are read back from what is written of them. -/
theorem wire_roundTrip_oneOfEach :
    (∀ m ∈ oneOfEach, m.IsCarried) ∧
    (∃ lines, (writeMessages .unlimited oneOfEach).2 = none ∧
      (writeMessages .unlimited oneOfEach).1.splitOn newline = lines ++ [[]] ∧
      (∀ line ∈ lines, line ≠ []) ∧
      lines.map OutboundMessage.ofBytes? = oneOfEach.map some) ∧
    ∀ m : InboundMessage, InboundMessage.ofText m.toLine = .ok m := by
  have h : ∀ m ∈ oneOfEach, m.IsCarried := by
    simp only [oneOfEach, List.forall_mem_cons]
    refine ⟨OutboundMessage.isCarried_status _,
      OutboundMessage.isCarried_render ⟨rfl, ?_⟩ ⟨rfl, ?_⟩ ⟨rfl, ?_⟩,
      OutboundMessage.isCarried_patch ⟨rfl, ?_⟩, OutboundMessage.isCarried_idle,
      OutboundMessage.isCarried_error _ _, fun _ hm => absurd hm List.not_mem_nil⟩
    all_goals simp [Json.IsPortable, Json.depthLimit, Json.IsWord, Json.maxWord]
  exact ⟨h, wire_roundTrip h⟩

end Transport

end DocRelay
