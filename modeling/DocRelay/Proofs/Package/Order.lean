import DocRelay.Archive.Basic
import DocRelay.Proofs.Package.History

namespace DocRelay.Environment

/-!
# The order of installations

Each package is checked against the one that is installed under its name already, which may be any
of those before it.  That all of them can be installed is nevertheless a statement on pairs: every
package has a wheel, and two wheels of one name are of one version and one content.  So the order
makes no difference to whether packages can be installed, nor to what is installed then.

* `Environment.installInTurn` — packages, one after the other, up to the first failure;
* `Request.Offers`, `Wheel.Agrees` — the wheel of a request, and wheels that can be installed
  together;
* `exists_installInTurn_iff` — all packages can be installed if and only if all have wheels and
  every two of them agree;
* `has_installInTurn`, `Orderly.get?_identities` — what is installed then;
* `installInTurn_perm` — the order does not matter.
-/

/-- The environment with a package installed. -/
def installOne (e : Environment) (r : Request) : Except Fault Environment := do
  let (_, after) ← e.install r.spec r.bytes
  return after

/-- Installs packages one after the other, up to the first failure. -/
def installInTurn (e : Environment) (requests : List Request) : Except Fault Environment :=
  requests.foldlM installOne e

/-- The request is for a wheel of the right digest. -/
def Request.Offers (r : Request) (wheel : Wheel) : Prop :=
  digestFault? r.spec r.bytes = none ∧ Wheel.ofBytes r.bytes = .ok wheel

/-- A request is for one wheel. -/
theorem Request.Offers.unique {r : Request} {first second : Wheel} (h : r.Offers first)
    (hs : r.Offers second) : first = second :=
  Except.ok.inj (h.2.symm.trans hs.2)

end Environment

/-- Under one name, the wheels are of one version and one content. -/
def Wheel.Agrees (first second : Wheel) : Prop :=
  first.normalizedName = second.normalizedName →
    first.version = second.version ∧ first.digest = second.digest

theorem Wheel.Agrees.symm {first second : Wheel} (h : first.Agrees second) :
    second.Agrees first := by
  intro hname
  obtain ⟨hversion, hdigest⟩ := h hname.symm
  exact ⟨hversion.symm, hdigest.symm⟩

namespace Environment

/-- What is installed under the name of the wheel is of its version and its content. -/
def Accepts (e : Environment) (wheel : Wheel) : Prop :=
  ∀ version digest, e.Has wheel.name version digest →
    version = wheel.version ∧ digest = wheel.digest

/-! ### One installation -/

/-- A wheel is added exactly if it is accepted. -/
theorem exists_add_iff {e : Environment} (locator : String) {wheel : Wheel} :
    (∃ done after, e.add locator wheel = .ok (done, after)) ↔ e.Accepts wheel := by
  unfold add Accepts Has get?
  show _ ↔ ∀ version digest, (∃ entry, e.packages.get? wheel.normalizedName = some entry ∧ _) → _
  cases ho : e.packages.get? wheel.normalizedName with
  | none => simp
  | some old =>
    by_cases hv : old.version = wheel.version
    · by_cases hd : old.digest = wheel.digest
      · simp [hv, hd]
      · simp [hv, hd]
    · simp [hv]

/-- **One package** can be installed exactly if it has a wheel that is accepted. -/
theorem exists_installOne_iff {e : Environment} {r : Request} :
    (∃ after, e.installOne r = .ok after) ↔ ∃ wheel, r.Offers wheel ∧ e.Accepts wheel := by
  constructor
  · rintro ⟨after, h⟩
    obtain ⟨⟨done, last⟩, hinstall, -⟩ := exists_of_bind_ok h
    obtain ⟨right, wheel, reads, hadd⟩ := exists_of_install hinstall
    exact ⟨wheel, ⟨right, reads⟩, (exists_add_iff _).mp ⟨done, last, hadd⟩⟩
  · rintro ⟨wheel, ⟨right, reads⟩, haccepts⟩
    obtain ⟨done, after, hadd⟩ := (exists_add_iff r.spec.locator).mpr haccepts
    refine ⟨after, ?_⟩
    unfold installOne install
    simp only [right, reads, hadd]
    rfl

/-- A package that is installed has a wheel, which is added. -/
theorem exists_of_installOne {e after : Environment} {r : Request}
    (h : e.installOne r = .ok after) :
    ∃ wheel, r.Offers wheel ∧ ∃ locator done, e.add locator wheel = .ok (done, after) := by
  obtain ⟨⟨done, last⟩, hinstall, hlast⟩ := exists_of_bind_ok h
  obtain rfl := Except.ok.inj hlast
  obtain ⟨right, wheel, reads, hadd⟩ := exists_of_install hinstall
  exact ⟨wheel, ⟨right, reads⟩, r.spec.locator, done, hadd⟩

/-- Behind a package, the wheels that are accepted are those that were accepted before and agree
    with the wheel of the package. -/
theorem accepts_installOne {e after : Environment} {r : Request} (h : e.installOne r = .ok after)
    {wheel : Wheel} (hw : r.Offers wheel) (other : Wheel) :
    after.Accepts other ↔ e.Accepts other ∧ wheel.Agrees other := by
  obtain ⟨found, hfound, locator, done, hadd⟩ := exists_of_installOne h
  obtain rfl := hfound.unique hw
  unfold Accepts
  simp only [has_add hadd]
  constructor
  · intro hall
    refine ⟨fun version digest hold => hall version digest (.inl hold), fun hname => ?_⟩
    exact hall _ _ (.inr ⟨hname, rfl, rfl⟩)
  · rintro ⟨hold, hagrees⟩ version digest (hhas | ⟨hname, rfl, rfl⟩)
    · exact hold version digest hhas
    · exact hagrees hname

/-- What is kept in order stays in order. -/
theorem Orderly.installOne {e after : Environment} (he : e.Orderly) {r : Request}
    (h : e.installOne r = .ok after) : after.Orderly := by
  obtain ⟨⟨done, last⟩, hinstall, hlast⟩ := exists_of_bind_ok h
  obtain rfl := Except.ok.inj hlast
  have hperformed := r.perform_performed e
  rw [r.perform_eq e, hinstall] at hperformed
  exact hperformed.orderly he

/-! ### Installations in turn -/

/-- The wheels of the two requests agree. -/
def Request.Agrees (first second : Request) : Prop :=
  ∀ one other, first.Offers one → second.Offers other → one.Agrees other

theorem Request.Agrees.symm {first second : Request} (h : first.Agrees second) :
    second.Agrees first := by
  intro one other hone hother
  exact (h other one hother hone).symm

theorem installInTurn_cons (e : Environment) (r : Request) (rest : List Request) :
    e.installInTurn (r :: rest) = (e.installOne r).bind fun mid => mid.installInTurn rest :=
  List.foldlM_cons

/-- **All packages** can be installed exactly if each has a wheel that is accepted at first, and the
    wheels of every two of them agree. -/
theorem exists_installInTurn_iff (e : Environment) (requests : List Request) :
    (∃ env, e.installInTurn requests = .ok env) ↔
      (∀ r ∈ requests, ∃ wheel, r.Offers wheel ∧ e.Accepts wheel) ∧
        requests.Pairwise Request.Agrees := by
  induction requests generalizing e with
  | nil => exact ⟨fun _ => ⟨by simp, .nil⟩, fun _ => ⟨e, rfl⟩⟩
  | cons r rest ih =>
    rw [installInTurn_cons, List.forall_mem_cons, List.pairwise_cons]
    cases hone : e.installOne r with
    | error fault =>
      have hnone : ¬∃ wheel, r.Offers wheel ∧ e.Accepts wheel := by
        rw [← exists_installOne_iff, hone]
        simp
      constructor
      · rintro ⟨env, henv⟩
        cases henv
      · intro h
        exact absurd h.1.1 hnone
    | ok mid =>
      obtain ⟨wheel, hwheel, haccepts⟩ := exists_installOne_iff.mp ⟨mid, hone⟩
      -- What the rest finds is what was there at first, and the wheel of this package.
      have hmid := accepts_installOne hone hwheel
      show (∃ env, mid.installInTurn rest = .ok env) ↔ _
      rw [ih mid]
      constructor
      · rintro ⟨hall, hpairs⟩
        refine ⟨⟨⟨wheel, hwheel, haccepts⟩, fun other hmem => ?_⟩, fun other hmem => ?_, hpairs⟩
        · obtain ⟨found, hfound, hacc⟩ := hall other hmem
          exact ⟨found, hfound, ((hmid found).mp hacc).1⟩
        · intro one found hone hfound
          obtain ⟨same, hsame, hacc⟩ := hall other hmem
          rw [hone.unique hwheel, hfound.unique hsame]
          exact ((hmid same).mp hacc).2
      · rintro ⟨⟨-, hall⟩, hagrees, hpairs⟩
        refine ⟨fun other hmem => ?_, hpairs⟩
        obtain ⟨found, hfound, hacc⟩ := hall other hmem
        have hpair := hagrees other hmem wheel found hwheel hfound
        exact ⟨found, hfound, (hmid found).mpr ⟨hacc, hpair⟩⟩

/-- What is there behind packages are their wheels, under all spellings of their names. -/
theorem has_installInTurn {requests : List Request} {env : Environment}
    (h : empty.installInTurn requests = .ok env) (name version digest : String) :
    env.Has name version digest ↔ ∃ r ∈ requests, ∃ wheel, r.Offers wheel ∧
      wheel.normalizedName = Wheel.normalizeName name ∧ wheel.version = version ∧
      wheel.digest = digest := by
  have hempty : ¬empty.Has name version digest := by
    rintro ⟨entry, hentry, -⟩
    cases hentry
  have hall := has_foldlM (fun r wheel _ (hw : Request.Offers r wheel) hs => hw.unique hs)
    (fun hone => exists_of_installOne hone) h name version digest
  rwa [or_iff_right hempty] at hall

/-- What is kept in order stays in order. -/
theorem Orderly.installInTurn {e env : Environment} (he : e.Orderly) {requests : List Request}
    (h : e.installInTurn requests = .ok env) : env.Orderly := by
  induction requests generalizing e with
  | nil =>
    obtain rfl := Except.ok.inj h
    exact he
  | cons r rest ih =>
    rw [installInTurn_cons] at h
    obtain ⟨mid, hone, hrest⟩ := exists_of_bind_ok h
    exact ih (he.installOne hone) hrest

/-! ### What is installed -/

/-- The installed packages by their normalised names: of each its version and its digest. -/
def identities (e : Environment) : Table (String × String) :=
  e.packages.mapValues fun entry => (entry.version, entry.digest)

theorem Orderly.sorted_identities {e : Environment} (h : e.Orderly) : e.identities.Sorted := by
  rw [Table.Sorted, identities, Table.keys_mapValues]
  exact h.sorted

/-- A key is that of a package of some name. -/
theorem Orderly.get?_identities {e : Environment} (h : e.Orderly) (key version digest : String) :
    e.identities.get? key = some (version, digest) ↔
      ∃ name, Wheel.normalizeName name = key ∧ e.Has name version digest := by
  rw [identities, Table.get?_mapValues, Option.map_eq_some_iff]
  constructor
  · rintro ⟨entry, hentry, heq⟩
    obtain ⟨rfl, rfl⟩ := Prod.mk.inj heq
    have hkey := h.keyed key entry (Table.mem_of_get? hentry)
    refine ⟨entry.name, hkey.symm, entry, ?_, rfl, rfl⟩
    rw [get?, ← hkey]
    exact hentry
  · rintro ⟨name, rfl, entry, hentry, rfl, rfl⟩
    exact ⟨entry, hentry, rfl⟩

/-- **The order does not matter.** Packages that are installed one after the other, from nothing on,
    can all be installed if and only if they can in another order, and then the same names are
    installed, each in the same version and with the same digest. -/
theorem installInTurn_perm {requests others : List Request} (h : requests.Perm others) :
    ((∃ env, empty.installInTurn requests = .ok env) ↔
      ∃ env, empty.installInTurn others = .ok env) ∧
    ∀ one other, empty.installInTurn requests = .ok one → empty.installInTurn others = .ok other →
      one.identities = other.identities := by
  refine ⟨?_, fun one other hone hother => ?_⟩
  · -- Neither the wheels nor the pairs of packages depend on the order.
    rw [exists_installInTurn_iff, exists_installInTurn_iff,
      h.pairwise_iff fun hagrees => hagrees.symm]
    simp only [h.mem_iff]
  · have hfirst := orderly_empty.installInTurn hone
    have hsecond := orderly_empty.installInTurn hother
    -- Each key has what some package of the list brings, wherever in the list it stands.
    refine hfirst.sorted_identities.ext hsecond.sorted_identities fun key => ?_
    ext ⟨version, digest⟩
    rw [hfirst.get?_identities, hsecond.get?_identities]
    simp only [has_installInTurn hone, has_installInTurn hother, h.mem_iff]

/-! ### A package that is asked for twice -/

/-- A wheel with nothing but its description. -/
def bareWheel (name version : String) : Bytes :=
  Archive.write [⟨name ++ "-" ++ version ++ ".dist-info/METADATA",
    Text.utf8 ("Name: " ++ name ++ "\nVersion: " ++ version ++ "\n")⟩]

/-- Two packages, the first of them from two places. -/
def askedTwice : List Request :=
  [⟨⟨"pkgA==2.0", none⟩, bareWheel "pkgA" "2.0"⟩, ⟨⟨"pkg-b", none⟩, bareWheel "pkg-b" "1"⟩,
    ⟨⟨"./pkgA-2.0.whl", none⟩, bareWheel "pkgA" "2.0"⟩]

/-- The packages can be installed in this order and from the last one to the first. -/
theorem installInTurn_perm_askedTwice :
    askedTwice.Perm askedTwice.reverse ∧
    ((empty.installInTurn askedTwice).map fun env => env.identities.keys).toOption
      = some ["pkg-b", "pkga"] ∧
    ((∃ env, empty.installInTurn askedTwice = .ok env) ↔
      ∃ env, empty.installInTurn askedTwice.reverse = .ok env) ∧
    ∀ one other, empty.installInTurn askedTwice = .ok one →
      empty.installInTurn askedTwice.reverse = .ok other → one.identities = other.identities :=
  ⟨askedTwice.reverse_perm.symm, by decide +kernel,
    installInTurn_perm askedTwice.reverse_perm.symm⟩

end DocRelay.Environment
