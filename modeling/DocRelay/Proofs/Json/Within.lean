import DocRelay.Proofs.Json.Canonical
import DocRelay.Proofs.Json.Decode

namespace DocRelay.Json

/-!
# The values within a value

What holds of a value and of all that it is made of.

* `induction` — induction over what a value is made of;
* `Every` — a property of a value and of each value within; `Every.imp`, `Every.and`;
* `Every.part` — it holds of the parts of a record;
* `every_canonical_iff` — what holds within a canonical form;
* `at?`, `at?_canonical` — the value at the end of a way, before and behind;
* `IsFinite` — all numbers within are finite.
-/

/-- **Induction over what a value is made of.** -/
theorem induction {motive : Json → Prop}
    (leaf : ∀ j, (∀ items, j ≠ .arr items) → (∀ members, j ≠ .obj members) → motive j)
    (arr : ∀ items, (∀ item ∈ items, motive item) → motive (.arr items))
    (obj : ∀ members, (∀ member ∈ members, motive member.2) → motive (.obj members)) (j : Json) :
    motive j := by
  refine @Json.rec motive (fun items => ∀ item ∈ items, motive item)
    (fun members => ∀ member ∈ members, motive member.2) (fun member => motive member.2)
    ?null ?bool ?int ?float ?str arr obj ?noItem ?item ?noMember ?member ?pair j
  case null => exact leaf _ (fun _ => Json.noConfusion) fun _ => Json.noConfusion
  case bool => exact fun _ => leaf _ (fun _ => Json.noConfusion) fun _ => Json.noConfusion
  case int => exact fun _ => leaf _ (fun _ => Json.noConfusion) fun _ => Json.noConfusion
  case float => exact fun _ => leaf _ (fun _ => Json.noConfusion) fun _ => Json.noConfusion
  case str => exact fun _ => leaf _ (fun _ => Json.noConfusion) fun _ => Json.noConfusion
  case noItem => exact fun _ h => absurd h List.not_mem_nil
  case item => exact fun _ _ hfirst hrest => List.forall_mem_cons.mpr ⟨hfirst, hrest⟩
  case noMember => exact fun _ h => absurd h List.not_mem_nil
  case member => exact fun _ _ hfirst hrest => List.forall_mem_cons.mpr ⟨hfirst, hrest⟩
  case pair => exact fun _ _ h => h

/-- The value and each value within has the property. -/
def Every (p : Json → Prop) : Json → Prop
  | .arr items => p (.arr items) ∧ ∀ item ∈ items, Every p item
  | .obj members => p (.obj members) ∧ ∀ member ∈ members, Every p member.2
  | j => p j
termination_by j => sizeOf j
decreasing_by
  · have := List.sizeOf_lt_of_mem ‹item ∈ items›
    simp only [arr.sizeOf_spec]
    omega
  · obtain ⟨key, value⟩ := member
    have := List.sizeOf_lt_of_mem ‹(key, value) ∈ members›
    simp only [obj.sizeOf_spec, Prod.mk.sizeOf_spec] at this ⊢
    omega

section Every

variable {p q : Json → Prop}

theorem every_arr {items : List Json} :
    Every p (.arr items) ↔ p (.arr items) ∧ ∀ item ∈ items, Every p item := by
  rw [Every]

theorem every_obj {members : List (String × Json)} :
    Every p (.obj members) ↔ p (.obj members) ∧ ∀ member ∈ members, Every p member.2 := by
  rw [Every]

theorem every_leaf {j : Json} (harr : ∀ items, j ≠ .arr items)
    (hobj : ∀ members, j ≠ .obj members) : Every p j ↔ p j := by
  rw [Every]
  · exact harr
  · exact hobj

/-- The value itself has the property. -/
theorem Every.self {j : Json} (h : Every p j) : p j := by
  cases j with
  | arr items => exact (every_arr.mp h).1
  | obj members => exact (every_obj.mp h).1
  | _ => exact (every_leaf (fun _ => Json.noConfusion) fun _ => Json.noConfusion).mp h

theorem Every.imp (hpq : ∀ j, p j → q j) {j : Json} (h : Every p j) : Every q j := by
  induction j using Json.induction with
  | leaf j harr hobj => exact (every_leaf harr hobj).mpr (hpq j h.self)
  | arr items ih =>
    obtain ⟨hself, hitems⟩ := every_arr.mp h
    exact every_arr.mpr ⟨hpq _ hself, fun item hitem => ih item hitem (hitems item hitem)⟩
  | obj members ih =>
    obtain ⟨hself, hmembers⟩ := every_obj.mp h
    exact every_obj.mpr ⟨hpq _ hself, fun m hm => ih m hm (hmembers m hm)⟩

theorem Every.and {j : Json} (hp : Every p j) (hq : Every q j) : Every (fun j => p j ∧ q j) j := by
  induction j using Json.induction with
  | leaf j harr hobj => exact (every_leaf harr hobj).mpr ⟨hp.self, hq.self⟩
  | arr items ih =>
    obtain ⟨hself, hitems⟩ := every_arr.mp hp
    obtain ⟨hother, hothers⟩ := every_arr.mp hq
    exact every_arr.mpr ⟨⟨hself, hother⟩, fun item hitem =>
      ih item hitem (hitems item hitem) (hothers item hitem)⟩
  | obj members ih =>
    obtain ⟨hself, hmembers⟩ := every_obj.mp hp
    obtain ⟨hother, hothers⟩ := every_obj.mp hq
    exact every_obj.mpr ⟨⟨hself, hother⟩, fun m hm => ih m hm (hmembers m hm) (hothers m hm)⟩

end Every

/-! ### Parts of a record -/

/-- What holds within a record holds within its parts. -/
theorem Every.part {p : Json → Prop} {j : Json} (h : Every p j) {shape : Shape} {name : String}
    {part : Json} (hpart : shape.part? name j = some part) : Every p part := by
  cases j with
  | obj members =>
    obtain ⟨before, after, hmembers, -⟩ := List.lookup_eq_some_iff.mp hpart
    exact (every_obj.mp h).2 (name, part) (hmembers ▸ List.mem_append_right _ List.mem_cons_self)
  | arr items =>
    obtain ⟨before, after, hzip, -⟩ := List.lookup_eq_some_iff.mp hpart
    have hmem : (name, part) ∈ (shape.fields.map Field.name).zip items :=
      hzip ▸ List.mem_append_right _ List.mem_cons_self
    exact (every_arr.mp h).2 part (List.of_mem_zip hmem).2
  | _ => cases hpart

/-! ### Canonical forms -/

/-- A value has no key twice, up to what it is made of. -/
def HasDistinctKeys : Json → Prop
  | .obj members => (Table.keys members).Nodup
  | _ => True

/-- **What holds within a canonical form.** If no object has a key twice, the values within the
    canonical form are the canonical forms of the values within. -/
theorem every_canonical_iff {p : Json → Prop} {j : Json} (hkeys : Every HasDistinctKeys j) :
    Every p j.canonical ↔ Every (fun part => p part.canonical) j := by
  induction j using Json.induction with
  | leaf j harr hobj =>
    have hleaf : (∀ items, j.canonical ≠ .arr items) ∧ ∀ members, j.canonical ≠ .obj members := by
      cases j with
      | arr items => exact absurd rfl (harr items)
      | obj members => exact absurd rfl (hobj members)
      | float x =>
        rw [canonical]
        split <;> exact ⟨fun _ => Json.noConfusion, fun _ => Json.noConfusion⟩
      | _ => exact ⟨fun _ => Json.noConfusion, fun _ => Json.noConfusion⟩
    rw [every_leaf hleaf.1 hleaf.2, every_leaf harr hobj]
  | arr items ih =>
    rw [every_arr, canonical, every_arr, canonicalItems_eq_map, List.forall_mem_map]
    exact and_congr_right fun _ => forall₂_congr fun item hitem =>
      ih item hitem ((every_arr.mp hkeys).2 item hitem)
  | obj members ih =>
    obtain ⟨hself, hmembers⟩ := every_obj.mp hkeys
    have hnodup : (Table.keys (canonicalMembers members)).Nodup := by
      rw [keys_canonicalMembers]
      exact hself
    -- No member is replaced by a later one, so the table has them all.
    have hentries : (∀ entry ∈ Table.ofPairs (canonicalMembers members), Every p entry.2)
        ↔ ∀ member ∈ members, Every p member.2.canonical := by
      simp only [Table.mem_ofPairs_iff hnodup]
      rw [canonicalMembers_eq_map, List.forall_mem_map]
    rw [every_obj, canonical, every_obj, hentries]
    exact and_congr_right fun _ => forall₂_congr fun member hmember =>
      ih member hmember (hmembers member hmember)

/-! ### Ways into a value -/

/-- A branch from a value to one that it is made of. -/
inductive Branch where
  | member (key : String)
  | item (index : Nat)
deriving DecidableEq, Repr

/-- What is at a branch of a value. -/
def branch? (j : Json) : Branch → Option Json
  | .member key => j.member? key
  | .item index =>
    match j with
    | .arr items => items[index]?
    | _ => none

/-- What is at the end of a way into a value. -/
def at? (j : Json) (way : List Branch) : Option Json :=
  way.foldlM branch? j

theorem Every.branch {p : Json → Prop} {j : Json} (h : Every p j) {b : Branch} {part : Json}
    (hpart : j.branch? b = some part) : Every p part := by
  cases b with
  | member key =>
    cases j with
    | obj members => exact (every_obj.mp h).2 (key, part) (Table.mem_of_get? hpart)
    | _ => cases hpart
  | item index =>
    cases j with
    | arr items => exact (every_arr.mp h).2 part (List.mem_of_getElem? hpart)
    | _ => cases hpart

/-- A branch of a canonical form leads to the canonical form of what it led to. -/
theorem branch?_canonical {j : Json} (hkeys : Every HasDistinctKeys j) (b : Branch) :
    j.canonical.branch? b = (j.branch? b).map canonical := by
  cases j with
  | obj members =>
    cases b with
    | member key =>
      have hnodup : (Table.keys (canonicalMembers members)).Nodup := by
        rw [keys_canonicalMembers]
        exact hkeys.self
      rw [canonical]
      show Table.get? (Table.ofPairs (canonicalMembers members)) key = _
      rw [Table.get?_ofPairs hnodup, canonicalMembers_eq_map]
      exact Table.get?_mapValues canonical members key
    | item index => rfl
  | arr items =>
    cases b with
    | member key => rfl
    | item index =>
      rw [canonical, canonicalItems_eq_map]
      exact List.getElem?_map
  | float x =>
    rw [canonical]
    split <;> cases b <;> rfl
  | _ => cases b <;> rfl

/-- **The same way** into a canonical form leads to the canonical form of where it led. -/
theorem at?_canonical {j : Json} (hkeys : Every HasDistinctKeys j) (way : List Branch) :
    j.canonical.at? way = (j.at? way).map canonical := by
  induction way generalizing j with
  | nil => rfl
  | cons b rest ih =>
    rw [at?, at?, List.foldlM_cons, List.foldlM_cons, branch?_canonical hkeys]
    cases hb : j.branch? b with
    | none => rfl
    | some part => exact ih (hkeys.branch hb)

/-! ### Numbers -/

/-- A value is no infinity and no NaN. -/
def IsFiniteAlone : Json → Prop
  | .float x => x.isFinite = true
  | _ => True

/-- All numbers within a value are finite. -/
def IsFinite (j : Json) : Prop :=
  Every IsFiniteAlone j

end DocRelay.Json
