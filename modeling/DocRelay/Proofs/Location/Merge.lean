import DocRelay.Location.Basic
import DocRelay.Proofs.Table

namespace DocRelay

/-!
# Merges of locations

A merge writes one field after the other and takes everything back when a value turns out not to
be of the type of its field.  Seen from outside it is one step: the fields that an update names
get the values it has for them, or nothing happens.

* `Location.fits`, `Location.Suits` — a value of the type of a field, and an update whose values
  are of the types of the fields it names;
* `ext_get?` — a location is its fields and its flag;
* `set_of_fits`, `setEach_of_fits` — one field, and several of them in turn;
* `merge_of_suits`, `merge_of_misfit` — what a merge does when all values fit, and when one is the
  first that does not;
* `merge_isOk_iff`, `of_merge_ok`, `of_merge_error` — which updates can be merged, and what has
  become of the location then and otherwise;
* `merge_merge`, `merge_union` — one merge after another.
-/

namespace Location

/-- The value is of the type of the field: the wish to load the page again is a truth value, all
    other fields are texts. -/
def fits (key : String) (value : Json) : Bool :=
  match value with
  | .bool _ => key == "reload"
  | .str _ => key != "reload"
  | _ => false

/-- The type of a field, in words. -/
def typeName (key : String) : String :=
  if key = "reload" then "a boolean" else "a string"

/-- Where the update names fields, its values are of their types. -/
def Suits (update : Table Json) : Prop :=
  ∀ member ∈ update, isField member.1 = true → fits member.1 member.2 = true

theorem suits_nil : Suits [] := by
  intro member hmem
  cases hmem

/-- The name is one of the eight. -/
theorem isField_iff {key : String} :
    isField key = true ↔ key = "href" ∨ key = "hostname" ∨ key = "pathname" ∨ key = "protocol" ∨
      key = "port" ∨ key = "search" ∨ key = "hash" ∨ key = "reload" := by
  simp [isField, fieldNames]

/-- Locations with the same fields and the same flag are equal. -/
theorem ext_get? {l m : Location} (h : ∀ key, isField key = true → l.get? key = m.get? key)
    (hr : l.isReadonly = m.isReadonly) : l = m := by
  have hrest := fun key hk => h key (isField_iff.mpr hk)
  cases l
  cases m
  simp [get?] at hrest hr ⊢
  simp [hrest, hr]

/-! ### One field -/

/-- A text field takes a text, and all others keep theirs. -/
theorem put?_of_isField (l : Location) {key : String} (hk : isField key = true)
    (ht : key ≠ "reload") (text : String) :
    ∃ after, l.put? key text = some after ∧ after.isReadonly = l.isReadonly ∧
      ∀ other, after.get? other = if key = other then some (.str text) else l.get? other := by
  rcases isField_iff.mp hk with rfl | rfl | rfl | rfl | rfl | rfl | rfl | rfl
  case inr.inr.inr.inr.inr.inr.inr => exact absurd rfl ht
  all_goals
    refine ⟨_, rfl, rfl, fun other => ?_⟩
    unfold get?
    grind

/-- A field takes a value of its type, and all others keep theirs. -/
theorem set_of_fits {l : Location} (hw : l.isReadonly = false) {key : String} {value : Json}
    (hk : isField key = true) (hf : fits key value = true) :
    ∃ after, l.set key value = (.ok (), after) ∧ after.isReadonly = false ∧
      ∀ other, after.get? other = if key = other then some value else l.get? other := by
  unfold set
  cases value with
  | bool b =>
    obtain rfl : key = "reload" := by simpa [fits] using hf
    refine ⟨{ l with reload := b }, by simp [hw], hw, fun other => ?_⟩
    unfold get?
    grind
  | str text =>
    have ht : key ≠ "reload" := by simpa [fits] using hf
    obtain ⟨after, hput, hr, hget⟩ := l.put?_of_isField hk ht text
    exact ⟨after, by simp [hw, ht, hput], hr.trans hw, hget⟩
  | null | int _ | float _ | arr _ | obj _ => cases hf

/-- A field does not take any other value. -/
theorem set_of_misfit {l : Location} (hw : l.isReadonly = false) {key : String} {value : Json}
    (hf : fits key value = false) :
    l.set key value = (.error (.wrongType key (typeName key) value.compact), l) := by
  unfold set typeName
  rw [hw, if_neg Bool.false_ne_true]
  by_cases hkey : key = "reload"
  · rw [if_pos hkey, if_pos hkey]
    cases value with
    | bool b => simp [fits, hkey] at hf
    | null | str _ | int _ | float _ | arr _ | obj _ => rfl
  · rw [if_neg hkey, if_neg hkey]
    cases value with
    | str text => simp [fits, hkey] at hf
    | null | bool _ | int _ | float _ | arr _ | obj _ => rfl

/-! ### Fields in turn -/

/-- Fields with different names take values of their types, one after the other. -/
theorem setEach_of_fits {l : Location} (hw : l.isReadonly = false) {members : Table Json}
    (hn : members.keys.Nodup)
    (hf : ∀ member ∈ members, isField member.1 = true ∧ fits member.1 member.2 = true) :
    ∃ after, l.setEach members = (.ok members.keys, after) ∧
      ∀ key, after.get? key = (members.get? key).or (l.get? key) := by
  induction members generalizing l with
  | nil => exact ⟨l, rfl, fun key => rfl⟩
  | cons member rest ih =>
    obtain ⟨k, v⟩ := member
    obtain ⟨hk, hrest⟩ := List.nodup_cons.mp hn
    obtain ⟨⟨hfield, hfits⟩, hothers⟩ := List.forall_mem_cons.mp hf
    obtain ⟨mid, hset, hmid, hget⟩ := set_of_fits hw hfield hfits
    obtain ⟨after, heach, hafter⟩ := ih hmid hrest hothers
    refine ⟨after, ?_, fun key => ?_⟩
    · rw [setEach, hset]
      dsimp only
      rw [heach]
      rfl
    · rw [hafter, hget, Table.get?_cons]
      by_cases hkey : k = key
      · -- None of the later fields is this one again.
        have hnone : Table.get? rest key = none := Table.get?_eq_none_iff.mpr (hkey ▸ hk)
        simp [hkey, hnone]
      · simp [hkey]

/-- The first value that does not fit ends the work. -/
theorem setEach_of_misfit {l : Location} (hw : l.isReadonly = false) {front : Table Json}
    (hf : ∀ member ∈ front, isField member.1 = true ∧ fits member.1 member.2 = true)
    {key : String} {value : Json} (hm : fits key value = false) (rest : Table Json) :
    ∃ after, l.setEach (front ++ (key, value) :: rest)
      = (.error (.wrongType key (typeName key) value.compact), after) := by
  induction front generalizing l with
  | nil =>
    refine ⟨l, ?_⟩
    rw [List.nil_append, setEach, set_of_misfit hw hm]
  | cons member others ih =>
    obtain ⟨k, v⟩ := member
    obtain ⟨⟨hfield, hfits⟩, hothers⟩ := List.forall_mem_cons.mp hf
    obtain ⟨mid, hset, hmid, -⟩ := set_of_fits hw hfield hfits
    obtain ⟨after, heach⟩ := ih hmid hothers
    refine ⟨after, ?_⟩
    rw [List.cons_append, setEach, hset]
    dsimp only
    rw [heach]

/-! ### Merges -/

/-- What an update has for a field is what its members that name fields have for it. -/
theorem get?_recognised (update : Table Json) {key : String} (hk : isField key = true) :
    (recognised update).get? key = update.get? key := by
  rw [recognised, Table.get?_filter, if_pos hk]

theorem keys_recognised (update : Table Json) :
    (recognised update).keys = update.keys.filter isField := by
  rw [recognised, Table.keys, Table.keys, List.filter_map]
  rfl

/-- The members that name fields are fields with values of their types. -/
theorem Suits.recognised {update : Table Json} (h : Suits update) :
    ∀ member ∈ recognised update, isField member.1 = true ∧ fits member.1 member.2 = true := by
  intro member hmem
  obtain ⟨hmem, hfield⟩ := List.mem_filter.mp hmem
  exact ⟨hfield, h member hmem hfield⟩

/-- **An update that suits** is merged: the fields it names have its values, and all others the
    values they had. -/
theorem merge_of_suits (l : Location) {update : Table Json} (hn : update.Sorted)
    (h : Suits update) :
    ∃ after, l.merge update = (.ok (update.keys.filter isField), after) ∧
      ∀ key, isField key = true → after.get? key = (update.get? key).or (l.get? key) := by
  have hnodup : (recognised update).keys.Nodup := (hn.filter _).nodup
  have hwritable : { l with isReadonly := false }.isReadonly = false := rfl
  obtain ⟨after, heach, hget⟩ := setEach_of_fits hwritable hnodup h.recognised
  refine ⟨{ after with isReadonly := l.isReadonly }, ?_, fun key hk => ?_⟩
  · unfold merge edit
    dsimp only
    rw [heach, keys_recognised]
  · rw [← get?_recognised update hk]
    exact hget key

/-- **An update that does not suit** changes nothing, and the fault is that of its first value that
    is not of the type of its field. -/
theorem merge_of_misfit (l : Location) {front : Table Json} (h : Suits front) {key : String}
    {value : Json} (hk : isField key = true) (hm : fits key value = false) (rest : Table Json) :
    l.merge (front ++ (key, value) :: rest)
      = (.error (.wrongType key (typeName key) value.compact), l) := by
  have hsplit : recognised (front ++ (key, value) :: rest)
      = recognised front ++ (key, value) :: recognised rest := by
    simp [recognised, List.filter_append, hk]
  have hwritable : { l with isReadonly := false }.isReadonly = false := rfl
  obtain ⟨after, heach⟩ := setEach_of_misfit hwritable h.recognised hm (recognised rest)
  unfold merge edit
  dsimp only
  rw [hsplit, heach]

/-- An update that does not suit has a first value that does not fit. -/
theorem exists_misfit {update : Table Json} (h : ¬Suits update) :
    ∃ front key value rest, update = front ++ (key, value) :: rest ∧ Suits front ∧
      isField key = true ∧ fits key value = false := by
  induction update with
  | nil => exact absurd suits_nil h
  | cons member others ih =>
    by_cases hm : isField member.1 = true → fits member.1 member.2 = true
    · have hothers : ¬Suits others := fun hs => h (List.forall_mem_cons.mpr ⟨hm, hs⟩)
      obtain ⟨front, key, value, rest, heq, hfront, hk, hf⟩ := ih hothers
      exact ⟨member :: front, key, value, rest, by rw [heq, List.cons_append],
        List.forall_mem_cons.mpr ⟨hm, hfront⟩, hk, hf⟩
    · obtain ⟨hk, hf⟩ := Classical.not_imp.mp hm
      exact ⟨[], member.1, member.2, others, rfl, suits_nil, hk, (Bool.not_eq_true _).mp hf⟩

/-- A merge succeeds exactly if the update suits. -/
theorem merge_isOk_iff (l : Location) {update : Table Json} (hn : update.Sorted) :
    (∃ keys after, l.merge update = (.ok keys, after)) ↔ Suits update := by
  constructor
  · rintro ⟨keys, after, hmerge⟩
    refine Classical.byContradiction fun h => ?_
    obtain ⟨front, key, value, rest, rfl, hfront, hk, hf⟩ := exists_misfit h
    rw [l.merge_of_misfit hfront hk hf rest] at hmerge
    cases hmerge
  · intro h
    obtain ⟨after, hmerge, -⟩ := l.merge_of_suits hn h
    exact ⟨_, after, hmerge⟩

/-- What a merge that succeeds has done. -/
theorem of_merge_ok {l after : Location} {update : Table Json} {keys : List String}
    (hn : update.Sorted) (h : l.merge update = (.ok keys, after)) :
    keys = update.keys.filter isField ∧
      ∀ key, isField key = true → after.get? key = (update.get? key).or (l.get? key) := by
  have hsuits : Suits update := (l.merge_isOk_iff hn).mp ⟨keys, after, h⟩
  obtain ⟨merged, hmerge, hget⟩ := l.merge_of_suits hn hsuits
  obtain ⟨hkeys, rfl⟩ := Prod.mk.inj (h.symm.trans hmerge)
  exact ⟨Except.ok.inj hkeys, hget⟩

/-- A merge that fails has done nothing, for the sake of the first value that does not fit. -/
theorem of_merge_error {l after : Location} {update : Table Json} {fault : LocationFault}
    (hn : update.Sorted) (h : l.merge update = (.error fault, after)) :
    after = l ∧ ∃ front key value rest, update = front ++ (key, value) :: rest ∧ Suits front ∧
      isField key = true ∧ fits key value = false ∧
      fault = .wrongType key (typeName key) value.compact := by
  have hmisfit : ¬Suits update := by
    intro hsuits
    obtain ⟨merged, hmerge, -⟩ := l.merge_of_suits hn hsuits
    rw [h] at hmerge
    cases hmerge
  obtain ⟨front, key, value, rest, rfl, hfront, hk, hf⟩ := exists_misfit hmisfit
  rw [l.merge_of_misfit hfront hk hf rest] at h
  obtain ⟨hfault, rfl⟩ := Prod.mk.inj h
  exact ⟨rfl, front, key, value, rest, rfl, hfront, hk, hf, (Except.error.inj hfault).symm⟩

/-- A merge that succeeds has left the flag as it was. -/
theorem isReadonly_of_merge {l after : Location} {update : Table Json}
    {reply : Except LocationFault (List String)} (h : l.merge update = (reply, after)) :
    after.isReadonly = l.isReadonly := by
  have hflag := l.merge_isReadonly update
  rwa [h] at hflag

/-! ### One merge after another -/

/-- **Merging twice** is merging once. -/
theorem merge_merge (l : Location) {update : Table Json} (hn : update.Sorted) :
    (l.merge update).2.merge update = l.merge update := by
  by_cases h : Suits update
  · obtain ⟨once, hmerge, hget⟩ := l.merge_of_suits hn h
    obtain ⟨twice, hagain, htwice⟩ := once.merge_of_suits hn h
    have hsame : once = twice := by
      refine ext_get? (fun key hk => ?_) (isReadonly_of_merge hagain).symm
      rw [htwice key hk, hget key hk]
      cases update.get? key <;> rfl
    rw [hmerge, hagain, hsame]
  · obtain ⟨front, key, value, rest, rfl, hfront, hk, hf⟩ := exists_misfit h
    rw [l.merge_of_misfit hfront hk hf rest]
    exact l.merge_of_misfit hfront hk hf rest

/-- The entries of updates that suit suit together. -/
theorem Suits.union {update later : Table Json} (hu : update.Sorted) (hl : later.Sorted)
    (h : Suits update) (hs : Suits later) : Suits (update.union later) := by
  rintro ⟨key, value⟩ hmem hk
  rw [← (hu.union later).get?_eq_some_iff, Table.get?_union _ hl.nodup, Option.or_eq_some_iff]
    at hmem
  rcases hmem with hlater | ⟨-, hupdate⟩
  · exact hs _ (Table.mem_of_get? hlater) hk
  · exact h _ (Table.mem_of_get? hupdate) hk

/-- **Merging two updates**, one after the other, is merging the entries of both, of which the later
    ones count. -/
theorem merge_union {l mid last : Location} {update later : Table Json}
    {first second : List String} (hu : update.Sorted) (hl : later.Sorted)
    (h : l.merge update = (.ok first, mid)) (hs : mid.merge later = (.ok second, last)) :
    l.merge (update.union later) = (.ok ((update.union later).keys.filter isField), last) := by
  have hsuits : Suits (update.union later) :=
    ((l.merge_isOk_iff hu).mp ⟨first, mid, h⟩).union hu hl
      ((mid.merge_isOk_iff hl).mp ⟨second, last, hs⟩)
  obtain ⟨both, hboth, hget⟩ := l.merge_of_suits (hu.union later) hsuits
  have hr : both.isReadonly = last.isReadonly :=
    (isReadonly_of_merge hboth).trans
      ((isReadonly_of_merge hs).trans (isReadonly_of_merge h)).symm
  have hsame : both = last := by
    refine ext_get? (fun key hk => ?_) hr
    rw [hget key hk, (of_merge_ok hl hs).2 key hk, (of_merge_ok hu h).2 key hk,
      Table.get?_union _ hl.nodup, Option.or_assoc]
  rw [hboth, hsame]

end Location

end DocRelay
