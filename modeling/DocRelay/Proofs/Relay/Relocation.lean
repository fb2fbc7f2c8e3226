import DocRelay.Proofs.Json.Tagged
import DocRelay.Proofs.Location.Merge
import DocRelay.Proofs.Relay.Turn
import DocRelay.Proofs.Worker.Bootstrap

namespace DocRelay

/-!
# Locations from the host

The host sends the location of the page as the text of an object.  A relay merges it into the
location of its document, if that has one, and does nothing else: nothing is posted, no watcher
runs, and the document is otherwise the one it was.

* `Json.sorted_of_readTable` — what is read of the text is an update in order;
* `Relay.handle_location_none` — a relay without a document;
* `Relay.location_merged` — what a merge does, and what a relay does with it.
-/

/-- The members of an object that is read are in order. -/
theorem Json.sorted_of_readTable {text : String} {update : Table Json}
    (h : Json.readTable text = .ok update) : update.Sorted := by
  unfold readTable at h
  dsimp only at h
  split at h
  · obtain ⟨⟨members, cur⟩, -, hrest⟩ := exists_of_bind_ok h
    obtain ⟨⟨⟩, -, hlast⟩ := exists_of_bind_ok hrest
    obtain rfl := Except.ok.inj hlast
    exact (isCanonicalTable_canonicalTable members).sorted
  · obtain ⟨fault, hfault⟩ := exists_readScalarMisfit_eq_error (α := Table Json) "a map" _
    rw [hfault] at h
    cases h

namespace Relay

/-- A relay without a document does nothing with a location. -/
theorem handle_location_none {r : Relay} (h : r.engine.document = none) (text : String)
    (s : Surroundings) : ∃ fault, r.handle (.location text) s = (.error fault, r, s) := by
  rw [handle, onLocation]
  cases hread : Json.readTable text with
  | error fault => exact ⟨_, rfl⟩
  | ok update =>
    unfold Engine.updateLocation
    rw [h]
    exact ⟨_, rfl⟩

/-- **Locations.** A merge succeeds if and only if every field that the update names has a value of
    its type.  Then these fields get their values, and no others are changed; otherwise nothing is
    changed, and the fault is that of the first value that does not fit.  The flag stays as it is,
    a second merge changes nothing more, and two merges are one of the entries of both.  A relay
    that is sent a location does this to the location of its document, and nothing else. -/
theorem location_merged :
    (∀ (l : Location) (update : Table Json), update.Sorted →
      ((∃ keys after, l.merge update = (.ok keys, after)) ↔ Location.Suits update) ∧
      (∀ keys after, l.merge update = (.ok keys, after) →
        keys = update.keys.filter Location.isField ∧
        ∀ key, Location.isField key = true →
          after.get? key = (update.get? key).or (l.get? key)) ∧
      (∀ fault after, l.merge update = (.error fault, after) →
        after = l ∧ ∃ front key value rest, update = front ++ (key, value) :: rest ∧
          Location.Suits front ∧ Location.isField key = true ∧
          Location.fits key value = false ∧
          fault = .wrongType key (Location.typeName key) value.compact) ∧
      (l.merge update).2.isReadonly = l.isReadonly ∧
      (l.merge update).2.merge update = l.merge update ∧
      ∀ later : Table Json, later.Sorted → ∀ first mid second last,
        l.merge update = (.ok first, mid) → mid.merge later = (.ok second, last) →
        l.merge (update.union later)
          = (.ok ((update.union later).keys.filter Location.isField), last)) ∧
    ∀ (r : Relay) (s : Surroundings) (text : String),
      (∀ update, Json.readTable text = .ok update → update.Sorted) ∧
      (r.engine.document = none → ∃ fault, r.handle (.location text) s = (.error fault, r, s)) ∧
      ∀ live, r.engine.document = some live →
        r.handle (.location text) s
          = ((relocation text live.document.location).1,
            r.relocated live (relocation text live.document.location).2, s) := by
  refine ⟨fun l update hn => ⟨l.merge_isOk_iff hn, ?_, ?_, l.merge_isReadonly update,
    l.merge_merge hn, ?_⟩, fun r s text => ⟨?_, ?_, ?_⟩⟩
  · intro keys after h
    exact Location.of_merge_ok hn h
  · intro fault after h
    exact Location.of_merge_error hn h
  · intro later hl first mid second last h hs
    exact Location.merge_union hn hl h hs
  · intro update h
    exact Json.sorted_of_readTable h
  · intro h
    exact handle_location_none h text s
  · intro live h
    exact handle_location h text s

/-! ### The location of a slider -/

/-- An update with two fields and something else. -/
def scrolled : Table Json := [("hash", .str "#top"), ("reload", .bool true), ("zoom", .int 9)]

/-- An update whose second value does not fit. -/
def misread : Table Json := [("pathname", .str "/after"), ("reload", .str "yes")]

/-- A location as it comes from the host. -/
def scrolledText : String := "\x7b\"hash\": \"#top\", \"zoom\": 9\x7d"

/-- The relay of the slider, whose document has a location. -/
def sliderPlaced : Relay :=
  match slider.engine.document with
  | some live => slider.relocated live (some .blank)
  | none => slider

theorem exists_sliderPlaced :
    ∃ live, sliderPlaced.engine.document = some live ∧ live.document.location = some .blank := by
  have hsome : slider.engine.document.isSome = true := by decide +kernel
  obtain ⟨live, hlive⟩ := Option.isSome_iff_exists.mp hsome
  unfold sliderPlaced
  rw [hlive]
  exact ⟨_, rfl, rfl⟩

/-- The slider is told that the page was scrolled. -/
theorem location_merged_slider :
    scrolled.Sorted ∧ misread.Sorted ∧
    (∃ keys after, Location.blank.merge scrolled = (.ok keys, after)) ∧
    (¬∃ keys after, Location.blank.merge misread = (.ok keys, after)) ∧
    (Location.blank.merge scrolled).1.toOption = some ["hash", "reload"] ∧
    (Location.blank.merge scrolled).2 = { Location.blank with hash := "#top", reload := true } ∧
    (Location.blank.merge scrolled).2.merge scrolled = Location.blank.merge scrolled ∧
    (relocation scrolledText (some .blank)).2 = some { Location.blank with hash := "#top" } ∧
    ∃ live, sliderPlaced.engine.document = some live ∧ live.document.location = some .blank ∧
      sliderPlaced.handle (.location scrolledText) Setup.sliderReady.around
        = ((relocation scrolledText (some .blank)).1,
          sliderPlaced.relocated live (relocation scrolledText (some .blank)).2,
          Setup.sliderReady.around) := by
  have hscrolled : scrolled.Sorted := by
    unfold Table.Sorted
    decide +kernel
  have hmisread : misread.Sorted := by
    unfold Table.Sorted
    decide +kernel
  have hsuits : Location.Suits scrolled := by
    unfold Location.Suits
    decide +kernel
  have hmisfit : ¬Location.Suits misread := by
    unfold Location.Suits
    decide +kernel
  -- Which of the updates are taken is decided by what suits a location.
  obtain ⟨hiff, -, -, -, htwice, -⟩ := location_merged.1 .blank scrolled hscrolled
  obtain ⟨hnone, -⟩ := location_merged.1 .blank misread hmisread
  refine ⟨hscrolled, hmisread, hiff.mpr hsuits, fun h => hmisfit (hnone.mp h), by decide +kernel,
    by decide +kernel, htwice, by decide +kernel, ?_⟩
  obtain ⟨live, hlive, hplace⟩ := exists_sliderPlaced
  have hhandle := (location_merged.2 sliderPlaced Setup.sliderReady.around scrolledText).2.2 live
    hlive
  rw [hplace] at hhandle
  exact ⟨live, hlive, hplace, hhandle⟩

end Relay

end DocRelay
