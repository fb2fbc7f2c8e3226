import DocRelay.Proofs.Package.Digest
import DocRelay.Proofs.Package.Installing
import DocRelay.Proofs.Table

namespace DocRelay

/-!
# What was installed stays installed

An environment that packages are installed into one after the other, whatever becomes of each
installation.  What was recorded once is there for good, so that two installations under one name
agree.

* `Environment.installInPlace` — an installation that writes to an environment as it goes;
  `Request.perform_eq` says that it is `Environment.install`;
* `Request.Performed`, `Request.perform_performed` — all that an installation can do;
* `Environment.Orderly` — every package is kept under the normalised spelling of its own name;
* `Environment.reached` — the environment behind some requests;
* `Environment.reached_lasting` — what holds over every run of requests.
-/

/-- What is recorded of a wheel. -/
def InstalledPackage.ofWheel (locator : String) (wheel : Wheel) : InstalledPackage :=
  ⟨wheel.name, wheel.version, wheel.digest, wheel.files.length, locator⟩

/-- A wheel has the digest of its bytes. -/
theorem Wheel.digest_of_ofBytes {bytes : Bytes} {wheel : Wheel}
    (h : Wheel.ofBytes bytes = .ok wheel) : wheel.digest = Digest.compute bytes := by
  unfold Wheel.ofBytes at h
  split at h
  · cases h
  · obtain ⟨description, -, h⟩ := exists_of_bind_ok h
    cases description with
    | none => cases h
    | some text =>
      obtain ⟨identity, -, h⟩ := exists_of_bind_ok h
      obtain rfl := Except.ok.inj h
      rfl

namespace Environment

/-- The environment with a wheel recorded. -/
def recording (e : Environment) (locator : String) (wheel : Wheel) : Environment :=
  ⟨e.packages.insert wheel.normalizedName (.ofWheel locator wheel)⟩

/-- An installation that changes an environment in place, step by step.  What was written before a
    failure would stay written. -/
def installInPlace (spec : PackageSpec) (bytes : Bytes) :
    ExceptT Fault (StateM Environment) Installation := do
  if let some fault := digestFault? spec bytes then
    throw (.install spec.locator fault)
  match Wheel.ofBytes bytes with
  | .error fault => throw (.install spec.locator (.badWheel fault))
  | .ok wheel =>
    match (← get).packages.get? wheel.normalizedName with
    | some old =>
      if old.version ≠ wheel.version then
        throw (.install spec.locator (.conflict old.name old.version))
      else if old.digest = wheel.digest then return .alreadyPresent
      else throw (.install spec.locator (.changed old.name old.version))
    | none =>
      modify fun e => e.recording spec.locator wheel
      return .installed

/-- A package that is to be installed, with what was fetched for it. -/
structure Request where
  spec : PackageSpec
  bytes : Bytes

/-! ### One request -/

namespace Request

/-- The request is made: its result, and what is installed then. -/
def perform (r : Request) (e : Environment) : Except Fault Installation × Environment :=
  (installInPlace r.spec r.bytes).run.run e

/-- A request installs a package, and if it fails, what is installed is left as it is. -/
theorem perform_eq (r : Request) (e : Environment) :
    r.perform e =
      match e.install r.spec r.bytes with
      | .ok (done, after) => (.ok done, after)
      | .error fault => (.error fault, e) := by
  unfold perform installInPlace install add
  cases hd : digestFault? r.spec r.bytes with
  | some fault => rfl
  | none =>
    cases hw : Wheel.ofBytes r.bytes with
    | error fault => rfl
    | ok wheel =>
      -- The environment is read before anything is written to it.
      change (StateT.run (ExceptT.run (match e.packages.get? wheel.normalizedName with
        | some old => _
        | none => _)) e) = _
      dsimp only
      cases hp : e.packages.get? wheel.normalizedName with
      | none => rfl
      | some old =>
        dsimp only
        by_cases hv : old.version ≠ wheel.version
        · simp only [if_pos hv]
          rfl
        · by_cases hg : old.digest = wheel.digest
          · simp only [if_neg hv, if_pos hg]
            rfl
          · simp only [if_neg hv, if_neg hg]
            rfl

/-- **A request** and all that it can do. -/
inductive Performed (r : Request) (e : Environment) :
    Except Fault Installation → Environment → Prop where
  | refused (fault : Fault) : Performed r e (.error fault) e
  | recorded {wheel : Wheel} (right : digestFault? r.spec r.bytes = none)
    (reads : Wheel.ofBytes r.bytes = .ok wheel)
    (new : e.packages.get? wheel.normalizedName = none) :
    Performed r e (.ok .installed) (e.recording r.spec.locator wheel)
  | found {wheel : Wheel} {old : InstalledPackage} (right : digestFault? r.spec r.bytes = none)
    (reads : Wheel.ofBytes r.bytes = .ok wheel)
    (there : e.packages.get? wheel.normalizedName = some old)
    (sameVersion : old.version = wheel.version) (sameDigest : old.digest = wheel.digest) :
    Performed r e (.ok .alreadyPresent) e

/-- **Step.** A request does one of these things. -/
theorem perform_performed (r : Request) (e : Environment) :
    Performed r e (r.perform e).1 (r.perform e).2 := by
  rw [perform_eq]
  cases hi : e.install r.spec r.bytes with
  | error fault => exact .refused fault
  | ok result =>
    obtain ⟨done, after⟩ := result
    obtain ⟨right, wheel, reads, hadd⟩ := exists_of_install hi
    unfold add at hadd
    dsimp only
    -- Only a package of the same name can be in the way, and then it must be the same one.
    cases hp : e.packages.get? wheel.normalizedName with
    | none =>
      rw [hp] at hadd
      cases hadd
      exact .recorded right reads hp
    | some old =>
      rw [hp] at hadd
      dsimp only at hadd
      by_cases hv : old.version ≠ wheel.version
      · rw [if_pos hv] at hadd
        cases hadd
      · by_cases hg : old.digest = wheel.digest
        · rw [if_neg hv, if_pos hg] at hadd
          cases hadd
          exact .found right reads hp (Decidable.not_not.mp hv) hg
        · rw [if_neg hv, if_neg hg] at hadd
          cases hadd

end Request

/-- Packages are kept in the order of their keys, each under the normalised spelling of its own
    name. -/
structure Orderly (e : Environment) : Prop where
  sorted : e.packages.Sorted
  keyed : ∀ key entry, (key, entry) ∈ e.packages → key = Wheel.normalizeName entry.name

theorem orderly_empty : empty.Orderly :=
  ⟨List.Pairwise.nil, fun _ _ hmem => by cases hmem⟩

/-- A name finds a package exactly if its normalised spelling is the key of the package. -/
theorem Orderly.get?_eq_some_iff {e : Environment} (h : e.Orderly) {name : String}
    {entry : InstalledPackage} :
    e.get? name = some entry ↔ (Wheel.normalizeName name, entry) ∈ e.packages :=
  h.sorted.get?_eq_some_iff

namespace Request.Performed

variable {r : Request} {e after : Environment} {result : Except Fault Installation}

/-- A request that fails leaves what is installed. -/
theorem of_error {fault : Fault} (h : Performed r e (.error fault) after) : after = e := by
  cases h with
  | refused => rfl

/-- What was recorded stays recorded. -/
theorem subset (h : Performed r e result after) : e.packages ⊆ after.packages := by
  cases h with
  | refused => exact List.Subset.refl _
  | found => exact List.Subset.refl _
  | recorded right reads new =>
    rw [Table.get?_eq_none_iff] at new
    exact Table.subset_insert new

/-- Names and keys agree behind a request if they did before. -/
theorem orderly (h : Performed r e result after) (he : e.Orderly) : after.Orderly := by
  cases h with
  | refused => exact he
  | found => exact he
  | recorded right reads new =>
    refine ⟨he.sorted.insert _ _, fun key entry hmem => ?_⟩
    rcases Table.mem_insert hmem with hnew | hold
    · cases hnew
      rfl
    · exact he.keyed key entry hold

/-- A request that succeeds has a wheel of the right digest, and the name of the wheel finds a
    package of its version and digest then. -/
theorem of_ok {done : Installation} (h : Performed r e (.ok done) after) :
    digestFault? r.spec r.bytes = none ∧ ∃ wheel entry, Wheel.ofBytes r.bytes = .ok wheel ∧
      after.get? wheel.name = some entry ∧ entry.version = wheel.version ∧
      entry.digest = wheel.digest := by
  cases h with
  | recorded right reads new =>
    refine ⟨right, _, .ofWheel r.spec.locator _, reads, ?_, rfl, rfl⟩
    rw [get?, recording, Table.get?_insert]
    exact if_pos rfl
  | found right reads there sameVersion sameDigest =>
    exact ⟨right, _, _, reads, there, sameVersion, sameDigest⟩

end Request.Performed

/-- A declared digest that is right spells the hash of what was fetched. -/
theorem parse_of_declared {spec : PackageSpec} {bytes : Bytes} {declared : String}
    (h : digestFault? spec bytes = none) (hd : spec.hash = some declared) :
    Digest.parse declared = .ok (Blake3.hash bytes) := by
  rw [digestFault?, hd] at h
  dsimp only at h
  cases hv : Digest.verify bytes declared with
  | verified => exact Digest.verify_eq_verified_iff.mp hv
  | invalid fault =>
    rw [hv] at h
    cases h
  | mismatch expected actual =>
    rw [hv] at h
    cases h

/-! ### Many requests -/

/-- What is installed behind some requests. -/
def requested (e : Environment) (requests : List Request) : Environment :=
  requests.foldl (fun e r => (r.perform e).2) e

/-- What is installed behind some requests, from nothing on. -/
def reached (requests : List Request) : Environment :=
  empty.requested requests

/-- The request at an index succeeds, and this is its wheel. -/
def Succeeds (requests : List Request) (i : Nat) (wheel : Wheel) : Prop :=
  ∃ r done, requests[i]? = some r ∧ Wheel.ofBytes r.bytes = .ok wheel ∧
    (r.perform (reached (requests.take i))).1 = .ok done

theorem Orderly.requested {e : Environment} (h : e.Orderly) (requests : List Request) :
    (e.requested requests).Orderly := by
  induction requests generalizing e with
  | nil => exact h
  | cons r rest ih => exact ih ((r.perform_performed e).orderly h)

theorem subset_requested (e : Environment) (requests : List Request) :
    e.packages ⊆ (e.requested requests).packages := by
  induction requests generalizing e with
  | nil => exact List.Subset.refl _
  | cons r rest ih =>
    exact List.Subset.trans (r.perform_performed e).subset (ih (r.perform e).2)

theorem orderly_reached (requests : List Request) : (reached requests).Orderly :=
  orderly_empty.requested requests

/-- The request at an index takes the environment from before it to behind it. -/
theorem reached_take_succ {requests : List Request} {i : Nat} {r : Request}
    (h : requests[i]? = some r) :
    reached (requests.take (i + 1)) = (r.perform (reached (requests.take i))).2 := by
  rw [reached, requested, List.take_add_one, h, List.foldl_append]
  rfl

/-- **Recorded for good.** What is recorded behind some requests of a run is recorded behind more
    of them. -/
theorem reached_take_subset (requests : List Request) {i j : Nat} (h : i ≤ j) :
    (reached (requests.take i)).packages ⊆ (reached (requests.take j)).packages := by
  have hsplit : requests.take j = requests.take i ++ (requests.drop i).take (j - i) := by
    rw [← List.take_add, Nat.add_sub_cancel' h]
  have hrest : reached (requests.take j)
      = (reached (requests.take i)).requested ((requests.drop i).take (j - i)) := by
    rw [hsplit]
    exact List.foldl_append
  rw [hrest]
  exact subset_requested _ _

/-- The name of a wheel that was installed in a run finds a package of its version and digest at
    the end of the run. -/
theorem Succeeds.recorded {requests : List Request} {i : Nat} {wheel : Wheel}
    (h : Succeeds requests i wheel) :
    ∃ entry, (wheel.normalizedName, entry) ∈ (reached requests).packages ∧
      entry.version = wheel.version ∧ entry.digest = wheel.digest := by
  obtain ⟨r, done, hr, hwheel, hok⟩ := h
  have hperformed := r.perform_performed (reached (requests.take i))
  rw [hok, ← reached_take_succ hr] at hperformed
  obtain ⟨-, found, entry, hfound, hget, hversion, hdigest⟩ := hperformed.of_ok
  obtain rfl : found = wheel := Except.ok.inj (hfound.symm.trans hwheel)
  rw [(orderly_reached _).get?_eq_some_iff] at hget
  -- What is recorded then is recorded at the end, which is behind all requests.
  have hlt : i < requests.length := (List.getElem?_eq_some_iff.mp hr).1
  have hlast := reached_take_subset requests (show i + 1 ≤ requests.length from hlt)
  rw [List.take_length] at hlast
  exact ⟨entry, hlast hget, hversion, hdigest⟩

/-- **Whole runs.** Packages are requested one after the other, from nothing on, whatever is asked
    for and whatever is fetched; each request is an installation, of which nothing stays written
    when it fails.  A request that fails leaves what is installed; one that succeeds
    has a wheel, whose name then finds a package of its version and its digest, and a digest that
    was declared for it spells the same 32 bytes.  What was recorded once stays recorded; every
    package is kept under the normalised spelling of its own name, so that the names that find it
    are the spellings of its name; and two wheels that were installed under one normalised name
    have one version and one digest. -/
theorem reached_lasting (requests : List Request) :
    (∀ (r : Request) (e : Environment), r.perform e =
      match e.install r.spec r.bytes with
      | .ok (done, after) => (.ok done, after)
      | .error fault => (.error fault, e)) ∧
    (∀ i r, requests[i]? = some r →
      let now := reached (requests.take i)
      let next := reached (requests.take (i + 1))
      (∀ fault, (r.perform now).1 = .error fault → next = now) ∧
      ∀ done, (r.perform now).1 = .ok done → ∃ wheel entry,
        Wheel.ofBytes r.bytes = .ok wheel ∧ next.get? wheel.name = some entry ∧
        entry.version = wheel.version ∧ entry.digest = wheel.digest ∧
        ∀ declared, r.spec.hash = some declared → ∃ hash, hash.length = 32 ∧
          Digest.parse declared = .ok hash ∧ Digest.parse entry.digest = .ok hash) ∧
    (∀ i j, i ≤ j →
      (reached (requests.take i)).packages ⊆ (reached (requests.take j)).packages) ∧
    (∀ key entry, (key, entry) ∈ (reached requests).packages →
      key = Wheel.normalizeName entry.name ∧
      ∀ name, (reached requests).get? name = some entry ↔ Wheel.normalizeName name = key) ∧
    ∀ i j first second, Succeeds requests i first → Succeeds requests j second →
      first.normalizedName = second.normalizedName →
      first.version = second.version ∧ first.digest = second.digest := by
  refine ⟨Request.perform_eq, fun i r hr => ?_, fun i j => reached_take_subset requests,
    fun key entry hmem => ?_, fun i j first second hfirst hsecond hname => ?_⟩
  · have hperformed := r.perform_performed (reached (requests.take i))
    dsimp only
    rw [reached_take_succ hr]
    refine ⟨fun fault hfault => ?_, fun done hdone => ?_⟩
    · rw [hfault] at hperformed
      exact hperformed.of_error
    · rw [hdone] at hperformed
      obtain ⟨right, wheel, entry, hwheel, hget, hversion, hdigest⟩ := hperformed.of_ok
      refine ⟨wheel, entry, hwheel, hget, hversion, hdigest, fun declared hdeclared => ?_⟩
      have hparse : Digest.parse entry.digest = .ok (Blake3.hash r.bytes) := by
        rw [hdigest, Wheel.digest_of_ofBytes hwheel, Digest.parse_compute]
      exact ⟨_, Blake3.length_hash r.bytes, parse_of_declared right hdeclared, hparse⟩
  · have horderly := orderly_reached requests
    refine ⟨horderly.keyed key entry hmem, fun name => ?_⟩
    rw [horderly.get?_eq_some_iff]
    refine ⟨fun hname => ?_, fun hname => hname ▸ hmem⟩
    rw [horderly.keyed key entry hmem, ← horderly.keyed _ entry hname]
  · obtain ⟨one, hone, hversionOne, hdigestOne⟩ := hfirst.recorded
    obtain ⟨other, hother, hversionOther, hdigestOther⟩ := hsecond.recorded
    -- There is one package under the name that both have.
    have hsorted := (orderly_reached requests).sorted
    rw [hname, ← hsorted.get?_eq_some_iff] at hone
    rw [← hsorted.get?_eq_some_iff] at hother
    obtain rfl : one = other := Option.some.inj (hone.symm.trans hother)
    exact ⟨hversionOne.symm.trans hversionOther, hdigestOne.symm.trans hdigestOther⟩

end Environment

end DocRelay
