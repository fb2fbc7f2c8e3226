namespace DocRelay

/-!
# Tables

Finite maps from texts, kept as lists of pairs in strictly increasing order of their keys, so
that equal maps are equal lists and every walk goes in key order.

* `Table.get?`, `Table.insert`, `Table.erase` — the operations;
* `Table.Sorted` — the keys increase strictly;
* `Table.get?_insert`, `Table.get?_filter` — what an insertion and a selection do to look-ups;
* `Table.Sorted.insert` — insertions keep the order.
-/

/-- Pairs of a key and a value, in increasing order of the keys. -/
abbrev Table (α : Type) := List (String × α)

namespace Table

variable {α : Type}

/-- The value stored under a key. -/
def get? (t : Table α) (key : String) : Option α :=
  match t with
  | [] => none
  | (k, v) :: rest => if k = key then some v else get? rest key

/-- The key has a value. -/
def contains (t : Table α) (key : String) : Bool :=
  (get? t key).isSome

/-- The keys in order. -/
def keys (t : Table α) : List String :=
  t.map Prod.fst

/-- The values in the order of their keys. -/
def values (t : Table α) : List α :=
  t.map Prod.snd

/-- The table with the value stored under the key, in place of any earlier one. -/
def insert (t : Table α) (key : String) (value : α) : Table α :=
  match t with
  | [] => [(key, value)]
  | (k, v) :: rest =>
    if key < k then (key, value) :: (k, v) :: rest
    else if k = key then (key, value) :: rest
    else (k, v) :: insert rest key value

/-- The table without the key. -/
def erase (t : Table α) (key : String) : Table α :=
  List.filter (fun pair => pair.1 ≠ key) t

/-- The table of the pairs; of two pairs with one key the later one counts. -/
def ofPairs (pairs : List (String × α)) : Table α :=
  pairs.foldl (fun t pair => insert t pair.1 pair.2) []

/-- The keys increase strictly. -/
def Sorted (t : Table α) : Prop :=
  (keys t).Pairwise (· < ·)

@[simp] theorem get?_nil (key : String) : get? ([] : Table α) key = none := rfl

theorem get?_cons (k : String) (v : α) (rest : Table α) (key : String) :
    get? ((k, v) :: rest) key = if k = key then some v else get? rest key := rfl

/-- An inserted key has the new value, every other key the value it had. -/
theorem get?_insert (t : Table α) (key other : String) (value : α) :
    get? (insert t key value) other = if key = other then some value else get? t other := by
  induction t with
  | nil => rfl
  | cons pair rest ih =>
    obtain ⟨k, v⟩ := pair
    simp only [insert]
    split
    · rfl
    · split
      · rename_i hk
        -- The key is replaced where it stands.
        subst hk
        simp only [get?_cons]
        split <;> rfl
      · -- The key is inserted further back.
        rename_i hk
        simp only [get?_cons, ih]
        by_cases hko : k = other
        · have : ¬ key = other := fun h => hk (hko.trans h.symm)
          simp [hko, this]
        · simp [hko]

/-- Of the entries whose keys pass a test, the keys that do not pass are gone, and all others keep
    their values. -/
theorem get?_filter (t : Table α) (test : String → Bool) (key : String) :
    get? (t.filter fun pair => test pair.1) key = if test key then get? t key else none := by
  induction t with
  | nil => simp
  | cons pair rest ih =>
    obtain ⟨k, v⟩ := pair
    rw [List.filter_cons, get?_cons]
    by_cases hk : k = key
    · subst hk
      by_cases hpass : test k = true
      · simp [hpass, get?_cons]
      · simp [hpass, ih]
    · rw [if_neg hk]
      split
      · rw [get?_cons, if_neg hk, ih]
      · exact ih

/-- An erased key is gone, every other key keeps its value. -/
theorem get?_erase (t : Table α) (key other : String) :
    get? (erase t key) other = if key = other then none else get? t other := by
  rw [erase, get?_filter t (fun k => decide (k ≠ key)) other]
  by_cases hk : key = other
  · simp [hk]
  · simp [hk, Ne.symm hk]

/-- The keys after an insertion. -/
theorem mem_keys_insert {t : Table α} {key other : String} {value : α} :
    other ∈ keys (insert t key value) ↔ other = key ∨ other ∈ keys t := by
  induction t with
  | nil => simp [insert, keys]
  | cons pair rest ih =>
    obtain ⟨k, v⟩ := pair
    simp only [insert]
    split
    · simp [keys]
    · split
      · rename_i hk
        simp [keys, hk]
      · simp only [keys, List.map_cons, List.mem_cons] at ih ⊢
        rw [ih]
        grind

/-- An insertion keeps the keys in order. -/
theorem Sorted.insert {t : Table α} (h : Sorted t) (key : String) (value : α) :
    Sorted (Table.insert t key value) := by
  induction t with
  | nil => simp [Table.insert, Sorted, keys]
  | cons pair rest ih =>
    obtain ⟨k, v⟩ := pair
    have hrest : Sorted rest := (List.pairwise_cons.mp h).2
    have hk : ∀ other ∈ keys rest, k < other := (List.pairwise_cons.mp h).1
    simp only [Table.insert]
    split
    · rename_i hlt
      refine List.pairwise_cons.mpr ⟨fun other hmem => ?_, h⟩
      simp only [List.map_cons, List.mem_cons] at hmem
      rcases hmem with rfl | hmem
      · exact hlt
      · exact String.lt_trans hlt (hk other hmem)
    · split
      · rename_i heq
        subst heq
        exact List.pairwise_cons.mpr ⟨hk, hrest⟩
      · rename_i hnlt hne
        refine List.pairwise_cons.mpr ⟨fun other hmem => ?_, ih hrest⟩
        rcases mem_keys_insert.mp hmem with rfl | hmem
        · rcases Std.lt_trichotomy k other with hlt | heq | hgt
          · exact hlt
          · exact absurd heq hne
          · exact absurd hgt hnlt
        · exact hk other hmem

/-- Erasing a key keeps the others in order. -/
theorem Sorted.erase {t : Table α} (h : Sorted t) (key : String) :
    Sorted (Table.erase t key) := by
  unfold Sorted keys Table.erase at *
  exact h.sublist (List.filter_sublist.map _)

/-- A table made from pairs is in order. -/
theorem sorted_ofPairs (pairs : List (String × α)) : Sorted (ofPairs pairs) := by
  unfold ofPairs
  suffices ∀ t : Table α, Sorted t →
      Sorted (pairs.foldl (fun t pair => Table.insert t pair.1 pair.2) t) from
    this [] List.Pairwise.nil
  induction pairs with
  | nil => exact fun t h => h
  | cons pair rest ih => exact fun t h => ih _ (h.insert pair.1 pair.2)

end Table

end DocRelay
