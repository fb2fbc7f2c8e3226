namespace DocRelay

/-!
# Results of steps that may fail

What is known of computations that succeed.

* `exists_of_bind_ok` — both of two steps succeed;
* `exists_of_any` — the result passes a test;
* `mapM_map` — lists of encoded values.
-/

variable {ε α β : Type}

/-- **Two steps.** If both steps together succeed, the first does, and the second with its
    result. -/
theorem exists_of_bind_ok {x : Except ε α} {f : α → Except ε β} {b : β}
    (h : (x >>= f) = .ok b) : ∃ a, x = .ok a ∧ f a = .ok b := by
  cases x with
  | error cause => cases h
  | ok a => exact ⟨a, rfl, h⟩

/-- A result that passes a test. -/
theorem exists_of_any {x : Except ε α} {p : α → Bool} (h : x.toOption.any p = true) :
    ∃ a, x = .ok a ∧ p a = true := by
  cases x with
  | error cause => cases h
  | ok a => exact ⟨a, rfl, h⟩

/-- A list of encoded values is decoded to the values. -/
theorem mapM_map {decode : β → Except ε α} {encode : α → β}
    (h : ∀ value, decode (encode value) = .ok value) (values : List α) :
    (values.map encode).mapM decode = .ok values := by
  induction values with
  | nil => rfl
  | cons value rest ih =>
    rw [List.map_cons, List.mapM_cons, h, ih]
    rfl

end DocRelay
