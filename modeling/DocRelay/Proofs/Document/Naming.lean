import DocRelay.Document.Basic
import DocRelay.Proofs.Table
import Mathlib.Tactic.ByContra

namespace DocRelay.Document

/-!
# Names of new models

A document makes the id of a new model with the first number that is free.

* `modelId_injective` — different numbers make different ids;
* `exists_free_number` — among one more number than there are models, one is free;
* `nextNumber_free` — the number that is taken is free;
* `Searches`, `searches_nextNumber` — the search for it, which needs no bound to come to an end.
-/

/-- **The digits of a number tell it apart.** -/
theorem toString_nat_injective {a b : Nat} (h : toString a = toString b) : a = b := by
  have hdigits : Nat.toDigits 10 a = Nat.toDigits 10 b := by
    rw [← Nat.toList_repr, ← Nat.toList_repr]
    exact congrArg String.toList h
  rw [← Nat.ofDigitChars_ten_toDigits (n := a), hdigits, Nat.ofDigitChars_ten_toDigits]

/-- Different numbers make different ids of models. -/
theorem modelId_injective {a b : Nat} (h : modelId a = modelId b) : a = b :=
  toString_nat_injective ((String.append_right_inj "m").mp h)

/-- **Pigeonhole.** Of the numbers from `n` on, one of the first `models.length + 1` makes an id
    of no model. -/
theorem exists_free_number (models : Table Model) (n : Nat) :
    ∃ k, n ≤ k ∧ k < n + (models.length + 1) ∧ models.contains (modelId k) = false := by
  by_contra hnone
  have htaken : ∀ k, n ≤ k → k < n + (models.length + 1) → modelId k ∈ models.keys := by
    intro k hle hlt
    rw [← Table.contains_iff_mem_keys]
    by_contra hfree
    exact hnone ⟨k, hle, hlt, by simpa using hfree⟩
  have hnodup : ((List.range' n (models.length + 1)).map modelId).Nodup :=
    List.Pairwise.map _ (fun a b hne h => hne (modelId_injective h)) List.nodup_range'
  have hsub : (List.range' n (models.length + 1)).map modelId ⊆ models.keys := by
    intro id hid
    obtain ⟨k, hk, rfl⟩ := List.mem_map.mp hid
    rw [List.mem_range'_1] at hk
    exact htaken k hk.1 hk.2
  have hlen := hnodup.length_le_of_subset hsub
  simp only [List.length_map, List.length_range', Table.keys] at hlen
  omega

/-! ### The search -/

/-- The search for a free number, without a bound: it goes on behind a number that is taken, and
    ends at one that is free. -/
inductive Searches (models : Table Model) : Nat → Nat → Prop where
  | free {n : Nat} (h : models.contains (modelId n) = false) : Searches models n n
  | taken {n k : Nat} (h : models.contains (modelId n) = true) (later : Searches models (n + 1) k) :
    Searches models n k

/-- A search goes up, and ends at a free number. -/
theorem Searches.free_of_end {models : Table Model} {n k : Nat} (h : Searches models n k) :
    n ≤ k ∧ models.contains (modelId k) = false := by
  induction h with
  | free h => exact ⟨Nat.le_refl _, h⟩
  | taken _ _ ih => exact ⟨Nat.le_of_succ_le ih.1, ih.2⟩

/-- A search ends at the first free number, at the latest at a given one. -/
theorem Searches.le_free {models : Table Model} {n k free : Nat} (h : Searches models n k)
    (hle : n ≤ free) (hfree : models.contains (modelId free) = false) : k ≤ free := by
  induction h with
  | free _ => exact hle
  | @taken n k htaken _ ih =>
    have hne : n ≠ free := by
      rintro rfl
      rw [htaken] at hfree
      cases hfree
    exact ih (by omega)

/-- If one of the numbers that are tried is free, the search comes to its end among them. -/
theorem searches_freshNumber (models : Table Model) (n tries : Nat)
    (h : ∃ k, n ≤ k ∧ k < n + tries ∧ models.contains (modelId k) = false) :
    Searches models n (freshNumber models n tries) := by
  induction tries generalizing n with
  | zero =>
    obtain ⟨k, hle, hlt, -⟩ := h
    omega
  | succ tries ih =>
    rw [freshNumber]
    cases hn : models.contains (modelId n) with
    | false => exact .free hn
    | true =>
      obtain ⟨k, hle, hlt, hk⟩ := h
      have hne : k ≠ n := by
        rintro rfl
        rw [hn] at hk
        cases hk
      exact .taken hn (ih (n + 1) ⟨k, by omega, by omega, hk⟩)

/-- **Termination.** The search ends at the number of the next model, behind at most as many numbers
    as there are models. -/
theorem searches_nextNumber (d : Document) :
    Searches d.models d.nextId d.nextNumber ∧ d.nextNumber ≤ d.nextId + d.models.length := by
  have hfree := exists_free_number d.models d.nextId
  have hsearch : Searches d.models d.nextId d.nextNumber := searches_freshNumber _ _ _ hfree
  obtain ⟨k, hle, hlt, hk⟩ := hfree
  have hend := hsearch.le_free hle hk
  exact ⟨hsearch, by omega⟩

/-- **Freshness.** The number of the next model makes an id of no model. -/
theorem nextNumber_free (d : Document) : d.models.contains (modelId d.nextNumber) = false :=
  d.searches_nextNumber.1.free_of_end.2

/-- Numbers are not taken again. -/
theorem nextId_le_nextNumber (d : Document) : d.nextId ≤ d.nextNumber :=
  d.searches_nextNumber.1.free_of_end.1

/-- Different numbers make different names of buffers. -/
theorem bufferId_injective {a b : Nat} (h : bufferId a = bufferId b) : a = b :=
  toString_nat_injective ((String.append_right_inj "buf-").mp h)

end DocRelay.Document
