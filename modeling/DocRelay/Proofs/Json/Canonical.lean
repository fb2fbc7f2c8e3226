import DocRelay.Json.Basic
import DocRelay.Proofs.Table

namespace DocRelay.Json

/-!
# Values in canonical form

Documents keep their values in canonical form, where the members of objects are in key order.

* `IsCanonical`, `IsCanonicalTable` — a value, and the members of an object, in canonical form;
* `isCanonical_canonical`, `isCanonicalTable_canonicalTable` — the canonical form is canonical;
* `canonicalTable_eq_self` — what is canonical is its own canonical form;
* `IsCanonical.same_self` — a canonical value equals itself, as it holds no NaN.
-/

/-- A value in canonical form. -/
def IsCanonical (j : Json) : Prop :=
  j.canonical = j

/-- Members in canonical form: in key order, with values in canonical form. -/
structure IsCanonicalTable (t : Table Json) : Prop where
  sorted : t.Sorted
  values : ∀ pair ∈ t, pair.2.IsCanonical

theorem canonicalMembers_eq_map (members : List (String × Json)) :
    canonicalMembers members = members.map fun pair => (pair.1, pair.2.canonical) := by
  induction members with
  | nil => rfl
  | cons pair rest ih => rw [canonicalMembers, ih, List.map_cons]

theorem canonicalItems_eq_map (items : List Json) : canonicalItems items = items.map canonical := by
  induction items with
  | nil => rfl
  | cons item rest ih => rw [canonicalItems, ih, List.map_cons]

theorem keys_canonicalMembers (members : List (String × Json)) :
    Table.keys (canonicalMembers members) = Table.keys members := by
  rw [canonicalMembers_eq_map, Table.keys, List.map_map]
  rfl

/-- Canonical members are unchanged. -/
theorem canonicalMembers_eq_self {members : List (String × Json)}
    (h : ∀ pair ∈ members, pair.2.IsCanonical) : canonicalMembers members = members := by
  induction members with
  | nil => rfl
  | cons pair rest ih =>
    obtain ⟨key, value⟩ := pair
    have hvalue : value.canonical = value := h _ List.mem_cons_self
    rw [canonicalMembers, hvalue, ih fun pair hp => h pair (List.mem_cons_of_mem _ hp)]

/-- Canonical items are unchanged. -/
theorem canonicalItems_eq_self {items : List Json} (h : ∀ j ∈ items, j.IsCanonical) :
    canonicalItems items = items := by
  induction items with
  | nil => rfl
  | cons item rest ih =>
    have hitem : item.canonical = item := h _ List.mem_cons_self
    rw [canonicalItems, hitem, ih fun j hj => h j (List.mem_cons_of_mem _ hj)]

/-- A canonical table is its own canonical form. -/
theorem canonicalTable_eq_self {t : Table Json} (h : IsCanonicalTable t) :
    canonicalTable t = t := by
  rw [canonicalTable, canonicalMembers_eq_self h.values, Table.ofPairs_eq_self h.sorted]

/-- The table of the entries of a canonical table is in canonical form. -/
theorem canonicalTable_ofPairs {t : Table Json} (h : IsCanonicalTable t) :
    canonicalTable (Table.ofPairs t) = t := by
  rw [Table.ofPairs_eq_self h.sorted, canonicalTable_eq_self h]

/-- The table of canonical members is canonical. -/
theorem isCanonicalTable_ofPairs {members : List (String × Json)}
    (h : ∀ pair ∈ members, pair.2.IsCanonical) : IsCanonicalTable (Table.ofPairs members) :=
  ⟨Table.sorted_ofPairs members, fun pair hp => h pair (Table.mem_of_mem_ofPairs hp)⟩

/-- An object with canonical members is canonical. -/
theorem isCanonical_obj {t : Table Json} (h : IsCanonicalTable t) : IsCanonical (.obj t) := by
  rw [IsCanonical, canonical, canonicalMembers_eq_self h.values, Table.ofPairs_eq_self h.sorted]

-- The recursion is that of `canonical` itself: over a value, its items and its members.
mutual

/-- The canonical form is canonical. -/
theorem isCanonical_canonical : ∀ j : Json, j.canonical.IsCanonical
  | .null => rfl
  | .bool _ => rfl
  | .int _ => rfl
  | .float x => by
    rw [canonical]
    split
    · rename_i h
      simp [IsCanonical, canonical, h]
    · rfl
  | .str _ => rfl
  | .arr items => by
    rw [canonical, IsCanonical, canonical,
      canonicalItems_eq_self (isCanonical_of_mem_canonicalItems items)]
  | .obj members => by
    rw [canonical]
    exact isCanonical_obj
      (isCanonicalTable_ofPairs (isCanonical_of_mem_canonicalMembers members))

/-- The items of a canonical form are canonical. -/
theorem isCanonical_of_mem_canonicalItems :
    ∀ (items : List Json), ∀ j ∈ canonicalItems items, j.IsCanonical
  | [] => by simp [canonicalItems]
  | item :: rest => by
    intro j hj
    rcases List.mem_cons.mp hj with rfl | hj
    · exact isCanonical_canonical item
    · exact isCanonical_of_mem_canonicalItems rest j hj

/-- The members of a canonical form are canonical. -/
theorem isCanonical_of_mem_canonicalMembers :
    ∀ (members : List (String × Json)), ∀ pair ∈ canonicalMembers members, pair.2.IsCanonical
  | [] => by simp [canonicalMembers]
  | (key, value) :: rest => by
    intro pair hp
    rcases List.mem_cons.mp hp with rfl | hp
    · exact isCanonical_canonical value
    · exact isCanonical_of_mem_canonicalMembers rest pair hp

end

/-- The canonical form of members is canonical. -/
theorem isCanonicalTable_canonicalTable (members : List (String × Json)) :
    IsCanonicalTable (canonicalTable members) :=
  isCanonicalTable_ofPairs (isCanonical_of_mem_canonicalMembers members)

/-- An insertion of a canonical value keeps a table canonical. -/
theorem IsCanonicalTable.insert {t : Table Json} (h : IsCanonicalTable t) (key : String)
    {value : Json} (hv : value.IsCanonical) : IsCanonicalTable (Table.insert t key value) := by
  refine ⟨h.sorted.insert key value, fun pair hp => ?_⟩
  rcases Table.mem_insert hp with rfl | hp
  · exact hv
  · exact h.values pair hp

/-! ### Equality -/

/-- Items that equal themselves make a list that does. -/
theorem sameItems_self {items : List Json} (h : ∀ j ∈ items, same j j = true) :
    sameItems items items = true := by
  induction items with
  | nil => rfl
  | cons item rest ih =>
    rw [sameItems, h item List.mem_cons_self, ih fun j hj => h j (List.mem_cons_of_mem _ hj)]
    rfl

/-- Members that equal themselves make an object that does. -/
theorem sameMembers_self {members : List (String × Json)}
    (h : ∀ pair ∈ members, same pair.2 pair.2 = true) : sameMembers members members = true := by
  induction members with
  | nil => rfl
  | cons pair rest ih =>
    obtain ⟨key, value⟩ := pair
    rw [sameMembers, h _ List.mem_cons_self, ih fun pair hp => h pair (List.mem_cons_of_mem _ hp)]
    simp

-- The recursion is that of `canonical` again.
mutual

/-- A canonical form equals itself. -/
theorem same_canonical : ∀ j : Json, same j.canonical j.canonical = true
  | .null => rfl
  | .bool _ => by simp [canonical, same]
  | .int _ => by simp [canonical, same]
  | .float x => by
    rw [canonical]
    split
    · -- A finite number is no NaN.
      rename_i h
      have hx : x.magnitude ≤ Binary64.infinityMagnitude := by
        simp only [Binary64.isFinite, decide_eq_true_eq] at h
        omega
      simp [same, Binary64.same, hx]
    · rfl
  | .str _ => by simp [canonical, same]
  | .arr items => by
    rw [canonical, same]
    exact sameItems_self (same_of_mem_canonicalItems items)
  | .obj members => by
    rw [canonical, same]
    exact sameMembers_self fun pair hp =>
      same_of_mem_canonicalMembers members pair (Table.mem_of_mem_ofPairs hp)

/-- The items of a canonical form equal themselves. -/
theorem same_of_mem_canonicalItems :
    ∀ (items : List Json), ∀ j ∈ canonicalItems items, same j j = true
  | [] => by simp [canonicalItems]
  | item :: rest => by
    intro j hj
    rcases List.mem_cons.mp hj with rfl | hj
    · exact same_canonical item
    · exact same_of_mem_canonicalItems rest j hj

/-- The values in a canonical form equal themselves. -/
theorem same_of_mem_canonicalMembers :
    ∀ (members : List (String × Json)), ∀ pair ∈ canonicalMembers members,
      same pair.2 pair.2 = true
  | [] => by simp [canonicalMembers]
  | (key, value) :: rest => by
    intro pair hp
    rcases List.mem_cons.mp hp with rfl | hp
    · exact same_canonical value
    · exact same_of_mem_canonicalMembers rest pair hp

end

/-- A canonical value equals itself. -/
theorem IsCanonical.same_self {j : Json} (h : j.IsCanonical) : same j j = true := by
  have hself := same_canonical j
  rwa [h] at hself

end DocRelay.Json
