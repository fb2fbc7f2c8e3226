import DocRelay.Table

namespace DocRelay.Table

/-!
# Keys and entries of tables

Which keys a table has, and how a table is recovered from its entries:

* `contains_iff_mem_keys`, `mem_keys_erase` — membership of keys, before and after a change;
* `mem_insert`, `subset_insert` — the entries after an insertion;
* `mem_of_get?`, `get?_eq_some_iff` — what a look-up finds is an entry, and of entries with
  different keys it finds each;
* `Sorted.ext` — tables in order are equal if all look-ups are;
* `ofPairs_eq_self` — a table in order is the table of its own entries;
* `union`, `get?_union`, `get?_ofPairs`, `mem_ofPairs_iff`, `get?_graph` — the entries of two
  tables, the second one first, of pairs with different keys, and of a function;
* `get?_perm`, `ofPairs_perm` — the order of pairs with different keys does not matter;
* `mapValues`, `get?_mapValues` — a table with other values.
-/

variable {α β : Type}

/-- A key has a value exactly if it is one of the keys. -/
theorem contains_iff_mem_keys {t : Table α} {key : String} :
    t.contains key = true ↔ key ∈ t.keys := by
  unfold contains
  induction t with
  | nil => simp [keys]
  | cons pair rest ih =>
    obtain ⟨k, v⟩ := pair
    rw [get?_cons]
    by_cases hk : k = key
    · simp [keys, hk]
    · rw [if_neg hk, ih]
      simp [keys, Ne.symm hk]

/-- A key without a value is none of the keys. -/
theorem get?_eq_none_iff {t : Table α} {key : String} : t.get? key = none ↔ key ∉ t.keys := by
  rw [← contains_iff_mem_keys, contains]
  cases t.get? key <;> simp

/-- A look-up finds an entry. -/
theorem mem_of_get? {t : Table α} {key : String} {value : α} (h : t.get? key = some value) :
    (key, value) ∈ t := by
  induction t with
  | nil => simp at h
  | cons pair rest ih =>
    obtain ⟨k, v⟩ := pair
    rw [get?_cons] at h
    split at h
    · rename_i hk
      subst hk
      obtain rfl := Option.some.inj h
      exact List.mem_cons_self
    · exact List.mem_cons_of_mem _ (ih h)

/-- Of pairs with different keys a look-up finds each. -/
theorem get?_eq_some_iff {t : Table α} (h : t.keys.Nodup) {key : String} {value : α} :
    t.get? key = some value ↔ (key, value) ∈ t := by
  refine ⟨mem_of_get?, fun hmem => ?_⟩
  induction t with
  | nil => cases hmem
  | cons pair rest ih =>
    obtain ⟨k, v⟩ := pair
    obtain ⟨hk, hrest⟩ := List.nodup_cons.mp h
    rw [get?_cons]
    rcases List.mem_cons.mp hmem with heq | hmem
    · cases heq
      exact if_pos rfl
    · -- The key of a later entry is another key.
      have hkey : key ∈ keys rest := List.mem_map_of_mem hmem
      have hne : ¬k = key := fun he => hk (he ▸ hkey)
      rw [if_neg hne]
      exact ih hrest hmem

/-- Keys in order are different. -/
theorem Sorted.nodup {t : Table α} (h : t.Sorted) : t.keys.Nodup := by
  refine List.Pairwise.imp (fun {a b} hlt => ?_) h
  rintro rfl
  exact String.lt_irrefl a hlt

/-- In a table in order a look-up finds every entry. -/
theorem Sorted.get?_eq_some_iff {t : Table α} (h : t.Sorted) {key : String} {value : α} :
    t.get? key = some value ↔ (key, value) ∈ t :=
  Table.get?_eq_some_iff h.nodup

/-- A key before all others is not among them. -/
theorem get?_eq_none_of_lt {t : Table α} {key : String} (h : ∀ other ∈ t.keys, key < other) :
    t.get? key = none :=
  get?_eq_none_iff.mpr fun hmem => String.lt_irrefl _ (h key hmem)

/-- A first key that is found in a table in order is not before the first key there. -/
theorem Sorted.not_lt_of_get? {k l : String} {v w : α} {others : Table α}
    (hu : Sorted ((l, w) :: others)) (h : get? ((l, w) :: others) k = some v) : ¬k < l := by
  intro hlt
  have hnone : get? ((l, w) :: others) k = none := get?_eq_none_of_lt fun key hmem => by
    rcases List.mem_cons.mp hmem with rfl | hmem
    · exact hlt
    · exact String.lt_trans hlt ((List.pairwise_cons.mp hu).1 key hmem)
  rw [hnone] at h
  cases h

/-- **Tables in order are equal** if all look-ups are. -/
theorem Sorted.ext {t u : Table α} (ht : t.Sorted) (hu : u.Sorted)
    (h : ∀ key, t.get? key = u.get? key) : t = u := by
  induction t generalizing u with
  | nil =>
    cases u with
    | nil => rfl
    | cons other others =>
      obtain ⟨l, w⟩ := other
      have hfound := h l
      rw [get?_cons, if_pos rfl] at hfound
      cases hfound
  | cons pair rest ih =>
    obtain ⟨k, v⟩ := pair
    have hk : get? ((k, v) :: rest) k = some v := (get?_cons ..).trans (if_pos rfl)
    cases u with
    | nil => exact absurd (hk.symm.trans (h k)) (Option.some_ne_none v)
    | cons other others =>
      obtain ⟨l, w⟩ := other
      have hl : get? ((l, w) :: others) l = some w := (get?_cons ..).trans (if_pos rfl)
      -- The first keys are the same: the lesser of two would be found in one table only.
      have hkey : k = l := by
        rcases Std.lt_trichotomy k l with hlt | heq | hgt
        · exact absurd hlt (hu.not_lt_of_get? ((h k).symm.trans hk))
        · exact heq
        · exact absurd hgt (ht.not_lt_of_get? ((h l).trans hl))
      subst hkey
      obtain rfl := Option.some.inj (hk.symm.trans ((h k).trans hl))
      obtain ⟨hbehind, hrest⟩ := List.pairwise_cons.mp ht
      obtain ⟨hbeyond, hothers⟩ := List.pairwise_cons.mp hu
      refine congrArg ((k, v) :: ·) (ih hrest hothers fun key => ?_)
      by_cases hkey : k = key
      · subst hkey
        rw [get?_eq_none_of_lt hbehind, get?_eq_none_of_lt hbeyond]
      · have hsame := h key
        rwa [get?_cons, get?_cons, if_neg hkey, if_neg hkey] at hsame

/-- The keys after an erasure. -/
theorem mem_keys_erase {t : Table α} {key other : String} :
    other ∈ (erase t key).keys ↔ other ≠ key ∧ other ∈ t.keys := by
  simp only [keys, erase, List.mem_map, List.mem_filter, decide_eq_true_eq, Prod.exists]
  constructor
  · rintro ⟨k, v, ⟨hmem, hne⟩, rfl⟩
    exact ⟨hne, k, v, hmem, rfl⟩
  · rintro ⟨hne, k, v, hmem, rfl⟩
    exact ⟨k, v, ⟨hmem, hne⟩, rfl⟩

/-- An entry of a table after an insertion is the new one or an old one. -/
theorem mem_insert {t : Table α} {key : String} {value : α} {entry : String × α}
    (h : entry ∈ insert t key value) : entry = (key, value) ∨ entry ∈ t := by
  induction t with
  | nil => simpa [insert] using h
  | cons pair rest ih =>
    obtain ⟨k, v⟩ := pair
    simp only [insert] at h
    split at h
    · exact List.mem_cons.mp h
    · split at h
      · rcases List.mem_cons.mp h with h | h
        · exact .inl h
        · exact .inr (List.mem_cons_of_mem _ h)
      · rcases List.mem_cons.mp h with h | h
        · exact .inr (h ▸ List.mem_cons_self)
        · exact (ih h).imp id (List.mem_cons_of_mem _)

/-- An insertion under a new key keeps the entries. -/
theorem subset_insert {t : Table α} {key : String} {value : α} (h : key ∉ t.keys) :
    t ⊆ insert t key value := by
  induction t with
  | nil => exact List.nil_subset _
  | cons pair rest ih =>
    obtain ⟨k, v⟩ := pair
    have hk : ¬ k = key := fun he => h (he ▸ List.mem_cons_self)
    have hrest : key ∉ keys rest := fun hmem => h (List.mem_cons_of_mem _ hmem)
    rw [insert, if_neg hk]
    split
    · exact List.subset_cons_self _ _
    · exact List.cons_subset_cons _ (ih hrest)

/-- An entry of a table after an erasure is an old one. -/
theorem mem_of_mem_erase {t : Table α} {key : String} {entry : String × α}
    (h : entry ∈ erase t key) : entry ∈ t :=
  (List.mem_filter.mp h).1

/-- A key behind all others is inserted at the end. -/
theorem insert_eq_append {t : Table α} {key : String} {value : α}
    (h : ∀ other ∈ t.keys, other < key) : insert t key value = t ++ [(key, value)] := by
  induction t with
  | nil => rfl
  | cons pair rest ih =>
    obtain ⟨k, v⟩ := pair
    have hk : k < key := h k (by simp [keys])
    have hrest : ∀ other ∈ keys rest, other < key := fun other hmem =>
      h other (List.mem_cons_of_mem _ hmem)
    rw [insert, if_neg (String.lt_asymm hk),
      if_neg (fun he => String.lt_irrefl _ (he ▸ hk)), ih hrest, List.cons_append]

/-- A table in order is the table of its own entries. -/
theorem ofPairs_eq_self {t : Table α} (hs : t.Sorted) : ofPairs t = t := by
  -- The entries are inserted behind a front part whose keys all come before theirs.
  suffices ∀ front : Table α, Sorted (front ++ t) →
      t.foldl (fun t pair => insert t pair.1 pair.2) front = front ++ t from this [] hs
  intro front
  induction t generalizing front with
  | nil => simp
  | cons pair rest ih =>
    intro h
    have hlt : ∀ other ∈ keys front, other < pair.1 := by
      intro other hmem
      have hsorted : (keys front ++ keys (pair :: rest)).Pairwise (· < ·) := by
        rw [keys, keys, ← List.map_append]
        exact h
      exact (List.pairwise_append.mp hsorted).2.2 other hmem pair.1 List.mem_cons_self
    have happ : front ++ pair :: rest = (front ++ [pair]) ++ rest := by simp
    rw [List.foldl_cons, insert_eq_append hlt, happ]
    exact ih (List.pairwise_cons.mp hs).2 _ (happ ▸ h)

/-- The entries of the table of some pairs are among the pairs. -/
theorem mem_of_mem_ofPairs {pairs : List (String × α)} {entry : String × α}
    (h : entry ∈ ofPairs pairs) : entry ∈ pairs := by
  suffices ∀ t : Table α, entry ∈ pairs.foldl (fun t pair => insert t pair.1 pair.2) t →
      entry ∈ t ∨ entry ∈ pairs from (this [] h).resolve_left (by simp)
  intro t
  clear h
  induction pairs generalizing t with
  | nil => exact .inl
  | cons pair rest ih =>
    intro h
    rcases ih _ h with h | h
    · rcases mem_insert h with rfl | h
      · exact .inr List.mem_cons_self
      · exact .inl h
    · exact .inr (List.mem_cons_of_mem _ h)

/-- A selection of entries in order is in order. -/
theorem Sorted.filter {t : Table α} (h : t.Sorted) (test : String × α → Bool) :
    Sorted (List.filter test t) := by
  unfold Sorted keys at *
  exact h.sublist (List.filter_sublist.map _)

/-! ### Two tables -/

/-- The entries of both tables; of two with one key that of the second table counts. -/
def union (t u : Table α) : Table α :=
  u.foldl (fun t pair => insert t pair.1 pair.2) t

/-- The second table is looked up first. -/
theorem get?_union (t : Table α) {u : Table α} (h : u.keys.Nodup) (key : String) :
    get? (union t u) key = (get? u key).or (get? t key) := by
  induction u generalizing t with
  | nil => rfl
  | cons pair rest ih =>
    obtain ⟨k, v⟩ := pair
    obtain ⟨hk, hrest⟩ := List.nodup_cons.mp h
    rw [union, List.foldl_cons]
    show get? (union (insert t k v) rest) key = _
    rw [ih _ hrest, get?_insert, get?_cons]
    by_cases hkey : k = key
    · -- The rest has other keys, so the value of this one stays.
      have hnone : get? rest key = none := get?_eq_none_iff.mpr (hkey ▸ hk)
      simp [hkey, hnone]
    · simp [hkey]

theorem Sorted.union {t : Table α} (h : t.Sorted) (u : Table α) : Sorted (Table.union t u) := by
  induction u generalizing t with
  | nil => exact h
  | cons pair rest ih => exact ih (h.insert pair.1 pair.2)

/-- The table of pairs with different keys has the values of the pairs. -/
theorem get?_ofPairs {pairs : List (String × α)} (h : (keys pairs).Nodup) (key : String) :
    get? (ofPairs pairs) key = get? pairs key := by
  show get? (union [] pairs) key = _
  rw [get?_union [] h, get?_nil, Option.or_none]

/-- The table of pairs with different keys has these pairs for its entries. -/
theorem mem_ofPairs_iff {pairs : List (String × α)} (h : (keys pairs).Nodup) {entry : String × α} :
    entry ∈ ofPairs pairs ↔ entry ∈ pairs := by
  rw [← (sorted_ofPairs pairs).get?_eq_some_iff, get?_ofPairs h, get?_eq_some_iff h]

/-- The order of pairs with different keys does not matter to a look-up. -/
theorem get?_perm {pairs others : List (String × α)} (h : pairs.Perm others)
    (hkeys : (keys pairs).Nodup) (key : String) : get? pairs key = get? others key := by
  induction h with
  | nil => rfl
  | cons pair _ ih =>
    rw [get?, get?, ih (List.nodup_cons.mp hkeys).2]
  | swap pair other rest =>
    have hne : other.1 ≠ pair.1 := fun he =>
      (List.nodup_cons.mp hkeys).1 (he ▸ List.mem_cons_self)
    rw [get?, get?, get?, get?]
    by_cases hpair : pair.1 = key
    · rw [if_neg (hpair ▸ hne), if_pos hpair, if_pos hpair]
    · rw [if_neg hpair, if_neg hpair]
  | trans hfirst _ ihfirst ihsecond =>
    exact (ihfirst hkeys).trans (ihsecond ((hfirst.map Prod.fst).nodup_iff.mp hkeys))

/-- **The order of pairs with different keys** does not matter to their table. -/
theorem ofPairs_perm {pairs others : List (String × α)} (h : pairs.Perm others)
    (hkeys : (keys pairs).Nodup) : ofPairs pairs = ofPairs others := by
  refine (sorted_ofPairs pairs).ext (sorted_ofPairs others) fun key => ?_
  rw [get?_ofPairs hkeys, get?_ofPairs ((h.map Prod.fst).nodup_iff.mp hkeys), get?_perm h hkeys]

/-- A function of keys, as a table, is looked up. -/
theorem get?_graph (f : String → α) (keys : List String) (key : String) :
    get? (keys.map fun k => (k, f k)) key = if key ∈ keys then some (f key) else none := by
  induction keys with
  | nil => rfl
  | cons k rest ih =>
    rw [List.map_cons, get?_cons, ih]
    by_cases hk : k = key
    · simp [hk]
    · simp [hk, Ne.symm hk]

/-! ### Other values -/

/-- The table with a function of each value in its place. -/
def mapValues (f : α → β) (t : Table α) : Table β :=
  t.map fun pair => (pair.1, f pair.2)

@[simp] theorem keys_mapValues (f : α → β) (t : Table α) : (mapValues f t).keys = t.keys := by
  simp [mapValues, keys]

@[simp] theorem get?_mapValues (f : α → β) (t : Table α) (key : String) :
    get? (mapValues f t) key = (get? t key).map f := by
  induction t with
  | nil => rfl
  | cons pair rest ih =>
    obtain ⟨k, v⟩ := pair
    show get? ((k, f v) :: mapValues f rest) key = _
    rw [get?_cons, get?_cons, ih]
    split <;> rfl

end DocRelay.Table
