import DocRelay.Proofs.Document.Buffers
import DocRelay.Proofs.Document.History
import Mathlib.Data.List.Nodup

namespace DocRelay

/-!
# Ids that are given

One counter numbers the models and the buffers of a document, while a host adds models under ids of
its own, which may be ahead of the counter.  No id is given twice all the same, and what a buffer
was given it keeps.

* `Call.model?`, `Call.buffer?` — what an operation gives: the id of a model, or the name of a
  buffer with its bytes; `Call.models`, `Call.buffers` — what calls have given;
* `Call.Gives`, `Call.gives` — what one operation can give, and what it does to the counter;
* `Document.Numbered` — ids that were given once each, with numbers behind the counter;
* `Document.Accounts` — so are the ids of models and the names of buffers, and the buffers are those
  that were made; `Document.Run.accounts` — behind every run of operations;
* `LiveDocument.Recorded.ids_fresh` — ids are fresh, for good, and buffers keep their bytes.
-/

/-- The operation adds a model. -/
def Operation.adds : Operation → Bool
  | .addModel _ _ | .addRoot _ _ _ => true
  | _ => false

namespace Call

/-- The id of the model that the operation has added. -/
def model? (c : Call) : Option String :=
  match c.op, c.reply with
  | .addModel _ _, .ok (.made id) | .addRoot _ _ _, .ok (.made id) => some id
  | _, _ => none

/-- The buffer that the operation has made: its name, and the bytes that were given. -/
def buffer? (c : Call) : Option (String × Bytes) :=
  match c.op, c.reply with
  | .setBinary _ _ data _, .ok (.made name) => some (name, data)
  | _, _ => none

/-- The ids of all models that calls have added, in order. -/
def models (calls : List Call) : List String := calls.filterMap model?

/-- All buffers that calls have made, in order. -/
def buffers (calls : List Call) : List (String × Bytes) := calls.filterMap buffer?

theorem models_snoc (calls : List Call) (c : Call) :
    models (calls ++ [c]) = models calls ++ c.model?.toList := by
  rw [models, List.filterMap_append]
  cases hc : c.model? <;> simp [hc, models]

theorem buffers_snoc (calls : List Call) (c : Call) :
    buffers (calls ++ [c]) = buffers calls ++ c.buffer?.toList := by
  rw [buffers, List.filterMap_append]
  cases hc : c.buffer? <;> simp [hc, buffers]

/-- A call that adds no model adds none to those before it. -/
theorem models_snoc_none {c : Call} (h : c.model? = none) (calls : List Call) :
    models (calls ++ [c]) = models calls := by
  rw [models_snoc, h, Option.toList, List.append_nil]

/-- A call that makes no buffer makes none besides those before it. -/
theorem buffers_snoc_none {c : Call} (h : c.buffer? = none) (calls : List Call) :
    buffers (calls ++ [c]) = buffers calls := by
  rw [buffers_snoc, h, Option.toList, List.append_nil]

/-! ### One operation -/

/-- A model that is added has the first free number, and a fresh id; the others are left alone. -/
theorem adds_fresh {c : Call} (h : c.op.adds = true) :
    let id := Document.modelId c.before.nextNumber
    c.reply = .ok (.made id) ∧ c.before.model? id = none ∧
      ∃ m, ∀ other, c.after.model? other = if id = other then some m else c.before.model? other := by
  intro id
  have hfree : c.before.model? id = none := by
    have hnone := c.before.nextNumber_free
    rwa [Table.contains, Option.isSome_eq_false_iff, Option.isNone_iff_eq_none] at hnone
  obtain ⟨before, op⟩ := c
  cases op with
  | addModel kind attributes => exact ⟨rfl, hfree, _, fun other => Table.get?_insert ..⟩
  | addRoot kind attributes => exact ⟨rfl, hfree, _, fun other => Table.get?_insert ..⟩
  | _ => cases h

/-- What an operation gives, and where that leaves the counter and the buffers. -/
inductive Gives (c : Call) : Prop where
  | nothing (model : c.model? = none) (buffer : c.buffer? = none)
    (buffers : c.after.buffers = c.before.buffers) (next : c.after.nextId = c.before.nextId)
  | model (model : c.model? = some (Document.modelId c.before.nextNumber))
    (buffer : c.buffer? = none) (buffers : c.after.buffers = c.before.buffers)
    (next : c.after.nextId = c.before.nextNumber + 1)
  | buffer (data : Bytes) (model : c.model? = none)
    (buffer : c.buffer? = some (Document.bufferId c.before.nextId, data))
    (buffers : c.after.buffers
      = c.before.buffers.insert (Document.bufferId c.before.nextId) data)
    (next : c.after.nextId = c.before.nextId + 1)

/-- **Step.** An operation gives nothing, or a model, or a buffer. -/
theorem gives (c : Call) : c.Gives := by
  obtain ⟨before, op⟩ := c
  cases hop : op.makes with
  | false =>
    -- Nothing is made, so the counter stays and the reply names nothing.
    obtain ⟨hbuffers, hnext⟩ := before.perform_frame hop
    refine .nothing ?_ ?_ hbuffers hnext
    · cases op <;> first | rfl | cases hop
    · cases op <;> first | rfl | cases hop
  | true =>
    cases op with
    | addModel kind attributes => exact .model rfl rfl rfl rfl
    | addRoot kind attributes => exact .model rfl rfl rfl rfl
    | setBinary id attr data origin =>
      -- Binary data is refused, and nothing is stored, or it is stored under the next name.
      rcases before.perform_setBinary_cases id attr data origin with
        ⟨hsame, fault, hreply⟩ | ⟨hreply, hbuffers, hnext⟩
      · have hnone : Call.buffer? ⟨before, .setBinary id attr data origin⟩ = none := by
          rw [buffer?, reply, hreply]
        exact .nothing rfl hnone (congrArg Document.buffers hsame) (congrArg Document.nextId hsame)
      · have hmade : Call.buffer? ⟨before, .setBinary id attr data origin⟩
            = some (Document.bufferId before.nextId, data) := by
          rw [buffer?, reply, hreply]
        exact .buffer data rfl hmade hbuffers hnext
    | _ => cases hop

end Call

/-! ### All operations -/

namespace Document

/-- Ids that were given, each of them once and made with a number behind the counter. -/
structure Numbered (make : Nat → String) (given : List String) (next : Nat) : Prop where
  nodup : given.Nodup
  used : ∀ id ∈ given, ∃ n < next, id = make n

/-- The counter may go on. -/
theorem Numbered.mono {make : Nat → String} {given : List String} {next later : Nat}
    (h : Numbered make given next) (hle : next ≤ later) : Numbered make given later :=
  ⟨h.nodup, fun id hid => (h.used id hid).imp fun _ hn => ⟨Nat.lt_of_lt_of_le hn.1 hle, hn.2⟩⟩

/-- An id that is made with a number that the counter has not passed was not given before. -/
theorem Numbered.notMem {make : Nat → String} (hmake : ∀ {a b}, make a = make b → a = b)
    {given : List String} {next n : Nat} (h : Numbered make given next) (hle : next ≤ n) :
    make n ∉ given := by
  intro hmem
  obtain ⟨k, hlt, heq⟩ := h.used _ hmem
  have hsame : n = k := hmake heq
  omega

/-- So it can be given, and the counter goes behind its number. -/
theorem Numbered.snoc {make : Nat → String} (hmake : ∀ {a b}, make a = make b → a = b)
    {given : List String} {next n : Nat} (h : Numbered make given next) (hle : next ≤ n) :
    Numbered make (given ++ [make n]) (n + 1) := by
  have hnew := h.notMem hmake hle
  refine ⟨h.nodup.append (List.nodup_singleton _) (List.disjoint_singleton.mpr hnew),
    fun id hid => ?_⟩
  rcases List.mem_append.mp hid with hid | hid
  · exact (h.mono (Nat.le_succ_of_le hle)).used id hid
  · exact ⟨n, Nat.lt_succ_self n, List.mem_singleton.mp hid⟩

/-- What calls have given is behind the counter, and the buffers are those that were made. -/
structure Accounts (calls : List Call) (d : Document) : Prop where
  models : Numbered modelId (Call.models calls) d.nextId
  names : Numbered bufferId ((Call.buffers calls).map Prod.fst) d.nextId
  buffers : ∀ name data, d.buffer? name = some data ↔ (name, data) ∈ Call.buffers calls

variable {calls : List Call} {d : Document}

/-- **Step.** What an operation gives was not given before. -/
theorem Accounts.perform (h : Accounts calls d) (op : Operation) :
    Accounts (calls ++ [⟨d, op⟩]) (d.perform op).2.1 := by
  have hkept : ∀ {t : Table Bytes}, (d.perform op).2.1.buffers = t →
      ∀ name, (d.perform op).2.1.buffer? name = t.get? name := by
    rintro _ rfl name
    rfl
  cases Call.gives ⟨d, op⟩ with
  | nothing model buffer buffers next =>
    have hnext : (d.perform op).2.1.nextId = d.nextId := next
    refine ⟨?_, ?_, fun name data => ?_⟩
    · rw [Call.models_snoc_none model, hnext]
      exact h.models
    · rw [Call.buffers_snoc_none buffer, hnext]
      exact h.names
    · rw [Call.buffers_snoc_none buffer, hkept buffers]
      exact h.buffers name data
  | model model buffer buffers next =>
    -- The number of a model may be ahead of the counter, where a host has taken ids.
    have hle := d.nextId_le_nextNumber
    have hnext : (d.perform op).2.1.nextId = d.nextNumber + 1 := next
    refine ⟨?_, ?_, fun name data => ?_⟩
    · rw [Call.models_snoc, model, hnext]
      exact h.models.snoc modelId_injective hle
    · rw [Call.buffers_snoc_none buffer, hnext]
      exact h.names.mono (Nat.le_succ_of_le hle)
    · rw [Call.buffers_snoc_none buffer, hkept buffers]
      exact h.buffers name data
  | buffer data model buffer buffers next =>
    have hnext : (d.perform op).2.1.nextId = d.nextId + 1 := next
    refine ⟨?_, ?_, fun name other => ?_⟩
    · rw [Call.models_snoc_none model, hnext]
      exact h.models.mono (Nat.le_succ _)
    · rw [Call.buffers_snoc, buffer, List.map_append, hnext]
      exact h.names.snoc bufferId_injective (Nat.le_refl _)
    · rw [hkept buffers, Table.get?_insert, Call.buffers_snoc, buffer, Option.toList,
        List.mem_append, List.mem_singleton, Prod.mk.injEq]
      by_cases hname : bufferId d.nextId = name
      · -- Nothing was stored under the new name before.
        have hnew := h.names.notMem bufferId_injective (Nat.le_refl d.nextId)
        have hfree : (name, other) ∉ Call.buffers calls := fun hmem =>
          hnew (hname ▸ List.mem_map_of_mem hmem)
        rw [if_pos hname]
        simp [hfree, hname, eq_comm]
      · rw [if_neg hname]
        simp [Ne.symm hname, ← h.buffers name other, buffer?]

/-- **Run.** So it is behind every run of operations. -/
theorem Run.accounts (h : Run calls d) : Accounts calls d := by
  induction h with
  | new id =>
    have hnone : ∀ make, Numbered make [] 1 := fun make =>
      ⟨List.nodup_nil, fun _ h => absurd h List.not_mem_nil⟩
    refine ⟨hnone _, hnone _, fun name data => ?_⟩
    simp [buffer?, empty, Call.buffers]
  | perform op h ih => exact ih.perform op
  | relocate l h ih => exact ⟨ih.models, ih.names, ih.buffers⟩

/-- **A buffer keeps its bytes**: behind the call that has made it, before and behind every later
    one, and at the end of the run. -/
theorem Run.buffer_kept (h : Run calls d) {first rest : List Call} {c : Call} {name : String}
    {data : Bytes} (hc : calls = first ++ c :: rest) (hmade : c.buffer? = some (name, data)) :
    c.after.buffer? name = some data ∧
      (∀ later ∈ rest, later.before.buffer? name = some data ∧
        later.after.buffer? name = some data) ∧
      d.buffer? name = some data := by
  -- Behind a call all that was made by it and before it is there.
  have hthere : ∀ {made : List Call} {e : Document}, Run made e → c ∈ made →
      e.buffer? name = some data := fun hrun hmem =>
    (hrun.accounts.buffers name data).mpr (List.mem_filterMap.mpr ⟨c, hmem, hmade⟩)
  refine ⟨hthere (h.behind hc) (by simp), fun later hlater => ?_, hthere h (by simp [hc])⟩
  obtain ⟨between, others, rfl⟩ := List.append_of_mem hlater
  have hat : calls = (first ++ c :: between) ++ later :: others := by
    rw [hc]
    simp
  exact ⟨hthere (h.exists_at hat) (by simp), hthere (h.behind hat) (by simp)⟩

end Document

/-! ### Documents at work -/

namespace LiveDocument

/-- **Fresh ids, for good.** In the history of a document, whatever its host and its watchers do:
    the search for the id of a new model comes to an end, at an id that no model has, so that the
    other models are left alone; no model is ever added under an id that was given before, nor is a
    buffer made under a name that was; and a buffer keeps the bytes that it was made with. -/
theorem Recorded.ids_fresh {calls : List Call} {d : LiveDocument} (h : d.Recorded calls) :
    (∀ c ∈ calls, c.op.adds = true → ∃ n,
      Document.Searches c.before.models c.before.nextId n ∧
      n ≤ c.before.nextId + c.before.models.length ∧
      c.reply = .ok (.made (Document.modelId n)) ∧
      c.before.model? (Document.modelId n) = none ∧
      ∀ id m, c.before.model? id = some m → c.after.model? id = some m) ∧
    (Call.models calls).Nodup ∧
    ((Call.buffers calls).map Prod.fst).Nodup ∧
    ∀ first c rest name data, calls = first ++ c :: rest → c.buffer? = some (name, data) →
      c.after.buffer? name = some data ∧
      (∀ later ∈ rest, later.before.buffer? name = some data ∧
        later.after.buffer? name = some data) ∧
      d.document.buffer? name = some data := by
  have haccounts := h.run.accounts
  refine ⟨fun c _ hadds => ?_, haccounts.models.nodup, haccounts.names.nodup,
    fun first c rest name data => h.run.buffer_kept⟩
  obtain ⟨hsearch, hbound⟩ := c.before.searches_nextNumber
  obtain ⟨hreply, hfree, added, hafter⟩ := Call.adds_fresh hadds
  refine ⟨_, hsearch, hbound, hreply, hfree, fun id m hm => ?_⟩
  have hne : Document.modelId c.before.nextNumber ≠ id := by
    rintro rfl
    rw [hfree] at hm
    cases hm
  rw [hafter, if_neg hne, hm]

/-- A host adds a root under the id that the counter would make next, which is passed over; and a
    buffer is made with the number behind it. -/
theorem Recorded.ids_fresh_crowded :
    let start : Scene := ⟨.ofDocument (.empty "doc-1"), .empty⟩
    let crowd := .applyPatch (Patch.toJson [.rootAdded ⟨"m1", "Div", []⟩]) .host
    let add := .addRoot "Image" [] .runtime
    let store := .setBinary "m2" "data" [1, 2] .runtime
    let crowded := (start.perform crowd).2
    let added := (crowded.perform add).2
    let last := (added.perform store).2
    let calls := start.calls crowd ++ crowded.calls add ++ added.calls store
    last.live.Recorded calls ∧ Call.models calls = ["m2"] ∧
      Call.buffers calls = [("buf-3", [1, 2])] ∧
      (∃ n, Document.Searches crowded.live.document.models crowded.live.document.nextId n ∧
        crowded.live.document.model? (Document.modelId n) = none) ∧
      last.live.document.buffer? "buf-3" = some [1, 2] := by
  intro start crowd add store crowded added last calls
  have hcrowded : crowded.live.Recorded (start.calls crowd) :=
    .perform (s := start) crowd (.new "doc-1")
  have h : last.live.Recorded calls := (hcrowded.perform add).perform (s := added) store
  have hadd : (⟨crowded.live.document, add⟩ : Call) ∈ calls := by simp [calls, Scene.calls]
  have hmade : Call.buffer? ⟨added.live.document, store⟩ = some ("buf-3", [1, 2]) := by
    decide +kernel
  obtain ⟨hfresh, -, -, hkept⟩ := h.ids_fresh
  obtain ⟨n, hsearch, -, -, hfree, -⟩ := hfresh _ hadd rfl
  exact ⟨h, by decide +kernel, by decide +kernel, ⟨n, hsearch, hfree⟩,
    (hkept _ _ _ _ _ rfl hmade).2.2⟩

end LiveDocument

end DocRelay
