import DocRelay.Json.Decode
import DocRelay.Proofs.Results

namespace DocRelay.Json

/-!
# What decoded data is made of

A record that was decoded was built from slots, and the value of a slot was decoded from some part
of the record.

* `Shape.part?` — the value of a field, by its name or by its place;
* `Shape.exists_of_decode`, `Slots.exists_of_required`, `Slots.exists_of_optional` — a decoded
  record is made of these;
* `fillByName_cons`, `Shape.decode_obj` — records that are decoded from objects;
* `Shape.exists_decode_single` — a record of one field that takes any value;
* `exists_of_mem_eachItem`, `eachItem_map` — the items of a decoded list, and lists of encoded
  items.
-/

/-! ### The parts of a record -/

/-- The value of a field of a record: the member of its name, or the item in its place. -/
def Shape.part? (shape : Shape) (name : String) : Json → Option Json
  | .obj members => members.lookup name
  | .arr items => ((shape.fields.map Field.name).zip items).lookup name
  | _ => none

/-- By position the fields are filled with the items in their places. -/
theorem eq_zip_of_fillByPosition {fields : List Field} {items : List Json}
    {values : List (String × Json)} (h : fillByPosition fields items = .ok values) :
    values = (fields.map Field.name).zip items := by
  induction fields generalizing items values with
  | nil => exact (Except.ok.inj h).symm
  | cons f fields ih =>
    cases items with
    | nil => exact (Except.ok.inj h).symm
    | cons item rest =>
      obtain ⟨_, -, h⟩ := exists_of_bind_ok h
      obtain ⟨others, hothers, h⟩ := exists_of_bind_ok h
      obtain rfl := Except.ok.inj h
      rw [ih hothers, List.map_cons, List.zip_cons_cons]

/-- By name a field is filled with the first member of its name. -/
theorem lookup_of_fillByName {fields : List Field} {seen : List String}
    {members values : List (String × Json)} (h : fillByName fields seen members = .ok values)
    {name : String} (hname : name ∈ fields.map Field.name) :
    values.lookup name = members.lookup name := by
  induction members generalizing seen values with
  | nil =>
    obtain rfl := Except.ok.inj h
    rfl
  | cons member rest ih =>
    obtain ⟨key, j⟩ := member
    rw [fillByName] at h
    rw [List.lookup_cons]
    split at h
    · -- The member is passed over, so its key is the name of no field.
      rename_i hnone
      have hne : (name == key) = false := by
        rw [beq_eq_false_iff_ne]
        rintro rfl
        obtain ⟨f, hf, rfl⟩ := List.mem_map.mp hname
        exact absurd (beq_self_eq_true f.name) (List.find?_eq_none.mp hnone f hf)
      rw [hne]
      exact ih h
    · split at h
      · cases h
      · obtain ⟨_, -, h⟩ := exists_of_bind_ok h
        obtain ⟨others, hothers, h⟩ := exists_of_bind_ok h
        obtain rfl := Except.ok.inj h
        rw [List.lookup_cons, ih hothers]

/-- What a value gives for a field of a record is the part of the value that belongs there. -/
theorem Shape.lookup_of_slots {shape : Shape} {j : Json} {slots : Slots}
    (h : shape.slots j = .ok slots) {name : String} (hname : name ∈ shape.fields.map Field.name) :
    slots.values.lookup name = shape.part? name j := by
  -- Only objects and lists have slots to fill.
  cases j with
  | obj members =>
    rw [Shape.slots] at h
    cases hfill : fillByName shape.fields [] members with
    | error cause =>
      rw [hfill] at h
      cases h
    | ok values =>
      rw [hfill] at h
      obtain rfl := Except.ok.inj h
      exact lookup_of_fillByName hfill hname
  | arr items =>
    rw [Shape.slots] at h
    cases hfill : fillByPosition shape.fields items with
    | error cause =>
      rw [hfill] at h
      cases h
    | ok values =>
      rw [hfill] at h
      obtain rfl := Except.ok.inj h
      exact congrArg (List.lookup name) (eq_zip_of_fillByPosition hfill)
  | _ => cases h

/-- **A record that was decoded** was built from slots that hold its parts. -/
theorem Shape.exists_of_decode {α : Type} {shape : Shape} {dialect : Dialect}
    {build : Slots → Except Misfit α} {j : Json} {value : α}
    (h : shape.decode dialect build j = .ok value) :
    ∃ slots, (∀ name ∈ shape.fields.map Field.name,
      slots.values.lookup name = shape.part? name j) ∧ build slots = .ok value := by
  obtain ⟨slots, hslots, h⟩ := exists_of_bind_ok h
  obtain ⟨built, hb, h⟩ := exists_of_bind_ok h
  refine ⟨slots, fun name hname => Shape.lookup_of_slots hslots hname, hb.trans ?_⟩
  -- What is left refuses the record or gives the value that was built.
  cases j with
  | arr items =>
    change (dialect.surplus items.length shape.fields.length >>= fun _ => .ok built) = _ at h
    obtain ⟨_, _, h⟩ := exists_of_bind_ok h
    exact h
  | _ => exact h

/-- The value of a required field was decoded from its slot. -/
theorem Slots.exists_of_required {α : Type} {slots : Slots} {name : String}
    {decode : Json → Except Misfit α} {value : α}
    (h : slots.required name decode = .ok value) :
    ∃ j, slots.values.lookup name = some j ∧ decode j = .ok value := by
  rw [Slots.required] at h
  split at h
  · exact ⟨_, ‹_›, h⟩
  · split at h <;> cases h

/-- The value of an optional field was decoded from its slot, unless it was left out. -/
theorem Slots.exists_of_optional {α : Type} {slots : Slots} {name : String}
    {decode : Json → Except Misfit α} {absent value : α}
    (h : slots.optional name decode absent = .ok value) :
    (slots.values.lookup name = none ∧ value = absent) ∨
      ∃ j, slots.values.lookup name = some j ∧ decode j = .ok value := by
  rw [Slots.optional] at h
  split at h
  · exact .inr ⟨_, ‹_›, h⟩
  · exact .inl ⟨‹_›, (Except.ok.inj h).symm⟩

/-! ### Records that are decoded -/

/-- A value that is decoded passes the test of its field. -/
theorem check_field {α : Type} {name : String} {decode : Json → Except Misfit α} {value : α}
    {j : Json} (h : decode j = .ok value) : (field name decode).check j = .ok () := by
  rw [field]
  simp only [h]
  rfl

/-- A member that passes the test of its field fills it. -/
theorem fillByName_cons {fields : List Field} {seen : List String} {key : String} {f : Field}
    (hf : fields.find? (·.name == key) = some f) (hseen : seen.contains key = false) {j : Json}
    (hcheck : f.check j = .ok ()) {rest others : List (String × Json)}
    (hrest : fillByName fields (key :: seen) rest = .ok others) :
    fillByName fields seen ((key, j) :: rest) = .ok ((key, j) :: others) := by
  rw [fillByName, hf]
  simp only [hseen, Bool.false_eq_true, if_false, hcheck, bind, Except.bind, hrest]
  rfl

/-- A record written as an object is built from what fills its fields. -/
theorem Shape.decode_obj {α : Type} {shape : Shape} (dialect : Dialect)
    {build : Slots → Except Misfit α} {members values : List (String × Json)} {record : α}
    (hfill : fillByName shape.fields [] members = .ok values)
    (hbuild : build ⟨shape, false, values⟩ = .ok record) :
    shape.decode dialect build (.obj members) = .ok record := by
  rw [Shape.decode, Shape.slots, hfill]
  change (build ⟨shape, false, values⟩ >>= _) = _
  rw [hbuild]
  rfl

/-- A record of a single field, written as an object. -/
theorem Shape.decode_single {α : Type} {title name : String} {dialect : Dialect}
    {decode : Json → Except Misfit α} {absent value : α} {j : Json} (h : decode j = .ok value) :
    Shape.decode ⟨title, [field name decode]⟩ dialect
      (fun slots => slots.optional name decode absent) (.obj [(name, j)]) = .ok value := by
  have hfind : [field name decode].find? (·.name == name) = some (field name decode) := by
    simp [field]
  have hfill : fillByName [field name decode] [] [(name, j)] = .ok [(name, j)] :=
    fillByName_cons hfind rfl (check_field h) rfl
  refine Shape.decode_obj dialect hfill ?_
  simp [Slots.optional, h]

/-- Members that have no field are passed over. -/
theorem fillByName_of_countP_eq_zero {f : Field} {members : List (String × Json)}
    (hnone : members.countP (·.1 == f.name) = 0) (seen : List String) :
    fillByName [f] seen members = .ok [] := by
  induction members with
  | nil => rfl
  | cons m rest ih =>
    have hm : ¬(m.1 == f.name) = true := List.countP_eq_zero.mp hnone m List.mem_cons_self
    have hrest : rest.countP (·.1 == f.name) = 0 := by
      rw [List.countP_cons, if_neg hm] at hnone
      exact hnone
    have hfind : [f].find? (·.name == m.1) = none := by
      rw [List.find?_singleton, if_neg fun he => hm (by rw [beq_iff_eq.mp he, beq_self_eq_true])]
    rw [fillByName, hfind]
    exact ih hrest

/-- A field that takes any value is filled by the members that are named like it, unless there are
    several of them. -/
theorem exists_fillByName_single {f : Field} (hcheck : ∀ j, f.check j = .ok ())
    {members : List (String × Json)} (hone : members.countP (·.1 == f.name) ≤ 1) :
    ∃ values, fillByName [f] [] members = .ok values := by
  induction members with
  | nil => exact ⟨[], rfl⟩
  | cons m rest ih =>
    obtain ⟨key, j⟩ := m
    by_cases hm : (key == f.name) = true
    · obtain rfl := beq_iff_eq.mp hm
      -- The field is filled here, so no other member may be named like it.
      have hrest : rest.countP (·.1 == f.name) = 0 := by
        rw [List.countP_cons, if_pos hm] at hone
        omega
      have hfind : [f].find? (·.name == f.name) = some f := by simp
      exact ⟨_, fillByName_cons hfind rfl (hcheck j) (fillByName_of_countP_eq_zero hrest _)⟩
    · have hrest : rest.countP (·.1 == f.name) ≤ 1 := by
        rw [List.countP_cons, if_neg hm] at hone
        exact hone
      have hfind : [f].find? (·.name == key) = none := by
        rw [List.find?_singleton, if_neg fun he => hm (by rw [beq_iff_eq.mp he, beq_self_eq_true])]
      rw [fillByName, hfind]
      exact ih hrest

/-- A record of a single field that takes any value is decoded, unless the field is there more than
    once. -/
theorem Shape.exists_decode_single {α : Type} {title name : String} {dialect : Dialect}
    {decode : Json → Except Misfit α} {absent : α} (hdecode : ∀ j, ∃ value, decode j = .ok value)
    {members : List (String × Json)} (hone : members.countP (·.1 == name) ≤ 1) :
    ∃ value, Shape.decode ⟨title, [field name decode]⟩ dialect
      (fun slots => slots.optional name decode absent) (.obj members) = .ok value := by
  have hcheck : ∀ j, (field name decode).check j = .ok () := by
    intro j
    obtain ⟨value, hvalue⟩ := hdecode j
    exact check_field hvalue
  obtain ⟨values, hfill⟩ := exists_fillByName_single hcheck hone
  have hbuild : ∃ value, Slots.optional ⟨⟨title, [field name decode]⟩, false, values⟩ name decode
      absent = .ok value := by
    rw [Slots.optional]
    split
    · exact hdecode _
    · exact ⟨absent, rfl⟩
  obtain ⟨value, hvalue⟩ := hbuild
  exact ⟨value, Shape.decode_obj dialect hfill hvalue⟩

/-- The items of a decoded list were decoded one by one. -/
theorem exists_of_mem_eachItem {α : Type} {item : Json → Except Misfit α} {items : List Json}
    {values : List α} (h : eachItem item items = .ok values) {value : α} (hv : value ∈ values) :
    ∃ j, item j = .ok value := by
  induction items generalizing values with
  | nil =>
    cases h
    cases hv
  | cons j rest ih =>
    obtain ⟨first, hj, h⟩ := exists_of_bind_ok h
    obtain ⟨others, hr, h⟩ := exists_of_bind_ok h
    obtain rfl := Except.ok.inj h
    rcases List.mem_cons.mp hv with rfl | hv
    · exact ⟨j, hj⟩
    · exact ih hr hv

/-- A list of encoded items is decoded to the items. -/
theorem eachItem_map {α : Type} {item : Json → Except Misfit α} {encode : α → Json}
    {values : List α} (h : ∀ value ∈ values, item (encode value) = .ok value) :
    eachItem item (values.map encode) = .ok values := by
  induction values with
  | nil => rfl
  | cons value rest ih =>
    rw [List.map_cons, eachItem, h value List.mem_cons_self,
      ih fun v hv => h v (List.mem_cons_of_mem _ hv)]
    rfl

end DocRelay.Json
