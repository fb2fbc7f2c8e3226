import DocRelay.Engine
import DocRelay.Proofs.Json.Decode

namespace DocRelay

/-!
# Packages that are installed in order

* `Environment.installFrom`, `Environment.installAll` — fetching and installing packages, one
  after the other, up to the first failure;
* `PackageSource.Provides` — the wheel that a source has for a package;
* `Environment.Has` — a package is installed, with its version and its content;
* `Environment.has_foldlM`, `has_installAll`, `isInstalled_installAll` — what is installed then: the
  wheels of the packages, under all spellings of their names;
* `Installing` — what can come of installing packages: the packages that are begun, and the
  environment or the first failure.
-/

namespace Environment

/-- Fetches a package and installs it. -/
def installFrom (source : PackageSource) (e : Environment) (spec : PackageSpec) :
    Except Fault Environment := do
  let bytes ← source.fetch spec
  let (_, after) ← e.install spec bytes
  return after

/-- Fetches and installs packages, one after the other. -/
def installAll (source : PackageSource) (e : Environment) (specs : List PackageSpec) :
    Except Fault Environment :=
  specs.foldlM (installFrom source) e

theorem installAll_cons (source : PackageSource) (e : Environment) (spec : PackageSpec)
    (rest : List PackageSpec) :
    installAll source e (spec :: rest)
      = (installFrom source e spec).bind fun mid => installAll source mid rest :=
  List.foldlM_cons

/-- A package that can be installed comes before the others. -/
theorem exists_of_installAll_cons {source : PackageSource} {e env : Environment}
    {spec : PackageSpec} {rest : List PackageSpec}
    (h : e.installAll source (spec :: rest) = .ok env) :
    ∃ mid, e.installFrom source spec = .ok mid ∧ mid.installAll source rest = .ok env := by
  rw [installAll_cons] at h
  exact exists_of_bind_ok h

end Environment

/-- The wheel that a source has for a package. -/
def PackageSource.Provides (source : PackageSource) (spec : PackageSpec) (wheel : Wheel) : Prop :=
  ∃ bytes, source.fetch spec = .ok bytes ∧ Wheel.ofBytes bytes = .ok wheel

/-- A source has one wheel for a package. -/
theorem PackageSource.Provides.unique {source : PackageSource} {spec : PackageSpec}
    {first second : Wheel} (h : source.Provides spec first) (hs : source.Provides spec second) :
    first = second := by
  obtain ⟨bytes, hf, hw⟩ := h
  obtain ⟨others, hfs, hws⟩ := hs
  obtain rfl := Except.ok.inj (hf.symm.trans hfs)
  exact Except.ok.inj (hw.symm.trans hws)

namespace Environment

/-- A package is installed under some spelling of the name, with the version and the content. -/
def Has (e : Environment) (name version digest : String) : Prop :=
  ∃ entry, e.get? name = some entry ∧ entry.version = version ∧ entry.digest = digest

/-- What is installed has a version and a content. -/
theorem isInstalled_iff_has {e : Environment} {name : String} :
    e.isInstalled name = true ↔ ∃ version digest, e.Has name version digest := by
  rw [isInstalled, Option.isSome_iff_exists]
  exact ⟨fun ⟨entry, h⟩ => ⟨_, _, entry, h, rfl, rfl⟩, fun ⟨_, _, entry, h, _⟩ => ⟨entry, h⟩⟩

/-- A wheel that is added is there under all spellings of its name, and all else is as it was. -/
theorem has_add {e after : Environment} {locator : String} {wheel : Wheel} {done : Installation}
    (h : e.add locator wheel = .ok (done, after)) (name version digest : String) :
    after.Has name version digest ↔
      e.Has name version digest ∨ (wheel.normalizedName = Wheel.normalizeName name ∧
        wheel.version = version ∧ wheel.digest = digest) := by
  unfold add at h
  unfold Has get?
  cases ho : e.packages.get? wheel.normalizedName with
  | some old =>
    -- A wheel of that name is there: the same one is found again, any other is refused.
    rw [ho] at h
    dsimp only at h
    split at h
    · cases h
    · rename_i hversion
      split at h
      · rename_i hdigest
        cases h
        refine ⟨.inl, fun h => h.elim id fun ⟨hname, hv, hd⟩ => ?_⟩
        exact ⟨old, hname ▸ ho, (Decidable.of_not_not hversion).trans hv, hdigest.trans hd⟩
      · cases h
  | none =>
    rw [ho] at h
    cases h
    dsimp only
    rw [Table.get?_insert]
    by_cases heq : wheel.normalizedName = Wheel.normalizeName name
    · rw [if_pos heq, ← heq, ho]
      simp
    · rw [if_neg heq]
      exact ⟨.inl, fun h => h.resolve_right fun h => heq h.1⟩

/-- An installation that succeeds has the right digest, reads a wheel and adds it. -/
theorem exists_of_install {e after : Environment} {spec : PackageSpec} {bytes : Bytes}
    {done : Installation} (h : e.install spec bytes = .ok (done, after)) :
    digestFault? spec bytes = none ∧
      ∃ wheel, Wheel.ofBytes bytes = .ok wheel ∧ e.add spec.locator wheel = .ok (done, after) := by
  unfold install at h
  -- A step that fails ends the installation, so each of them has succeeded.
  cases hd : digestFault? spec bytes with
  | some fault =>
    rw [hd] at h
    cases h
  | none =>
    cases hw : Wheel.ofBytes bytes with
    | error fault =>
      rw [hd, hw] at h
      cases h
    | ok wheel =>
      rw [hd, hw] at h
      cases ha : e.add spec.locator wheel with
      | error fault =>
        simp only [ha] at h
        cases h
      | ok result =>
        simp only [ha] at h
        obtain rfl := Except.ok.inj h
        exact ⟨rfl, wheel, rfl, ha⟩

/-- A package that is installed adds the wheel that its source has for it. -/
theorem exists_of_installFrom {source : PackageSource} {e after : Environment}
    {spec : PackageSpec} (h : e.installFrom source spec = .ok after) :
    ∃ wheel done, source.Provides spec wheel ∧ e.add spec.locator wheel = .ok (done, after) := by
  obtain ⟨bytes, hfetch, h⟩ := exists_of_bind_ok h
  obtain ⟨⟨done, last⟩, hinstall, h⟩ := exists_of_bind_ok h
  obtain rfl := Except.ok.inj h
  obtain ⟨-, wheel, hw, ha⟩ := exists_of_install hinstall
  exact ⟨wheel, done, ⟨bytes, hfetch, hw⟩, ha⟩

/-- Of packages that are all installed, each is fetched, has its digest and is a wheel. -/
theorem exists_of_mem_installAll {source : PackageSource} {e env : Environment}
    {specs : List PackageSpec} (h : e.installAll source specs = .ok env) {spec : PackageSpec}
    (hm : spec ∈ specs) :
    ∃ bytes wheel, source.fetch spec = .ok bytes ∧ digestFault? spec bytes = none ∧
      Wheel.ofBytes bytes = .ok wheel := by
  induction specs generalizing e with
  | nil => cases hm
  | cons first rest ih =>
    obtain ⟨mid, hone, hrest⟩ := exists_of_installAll_cons h
    rcases List.mem_cons.mp hm with rfl | hm
    · obtain ⟨bytes, hfetch, hone⟩ := exists_of_bind_ok hone
      obtain ⟨done, hinstall, -⟩ := exists_of_bind_ok hone
      obtain ⟨hdigest, wheel, hw, -⟩ := exists_of_install hinstall
      exact ⟨bytes, wheel, hfetch, hdigest, hw⟩
    · exact ih hrest hm

/-- **What is there** behind several installations, of whatever kind, are the wheels that they add,
    under all spellings of their names, and what was there before. -/
theorem has_foldlM {α : Type} {step : Environment → α → Except Fault Environment}
    {Adds : α → Wheel → Prop}
    (unique : ∀ a first second, Adds a first → Adds a second → first = second)
    (adds : ∀ {e after a}, step e a = .ok after → ∃ wheel, Adds a wheel ∧
      ∃ locator done, e.add locator wheel = .ok (done, after))
    {items : List α} {e env : Environment} (h : items.foldlM step e = .ok env)
    (name version digest : String) :
    env.Has name version digest ↔
      e.Has name version digest ∨ ∃ a ∈ items, ∃ wheel, Adds a wheel ∧
        wheel.normalizedName = Wheel.normalizeName name ∧ wheel.version = version ∧
        wheel.digest = digest := by
  induction items generalizing e with
  | nil =>
    obtain rfl := Except.ok.inj h
    simp
  | cons a rest ih =>
    rw [List.foldlM_cons] at h
    obtain ⟨mid, hone, hrest⟩ := exists_of_bind_ok h
    obtain ⟨wheel, hwheel, locator, done, hadd⟩ := adds hone
    rw [ih hrest, has_add hadd]
    constructor
    · rintro ((hold | hnew) | ⟨other, hmem, found⟩)
      · exact .inl hold
      · exact .inr ⟨a, List.mem_cons_self, wheel, hwheel, hnew⟩
      · exact .inr ⟨other, List.mem_cons_of_mem _ hmem, found⟩
    · rintro (hold | ⟨other, hmem, found, hfound, hnew⟩)
      · exact .inl (.inl hold)
      · rcases List.mem_cons.mp hmem with rfl | hmem
        · -- Installing the same again adds the same wheel.
          rw [unique _ _ _ hfound hwheel] at hnew
          exact .inl (.inr hnew)
        · exact .inr ⟨other, hmem, found, hfound, hnew⟩

/-- What is there behind packages are their wheels, under all spellings of their names, and what
    was there before. -/
theorem has_installAll {source : PackageSource} {e env : Environment} {specs : List PackageSpec}
    (h : e.installAll source specs = .ok env) (name version digest : String) :
    env.Has name version digest ↔
      e.Has name version digest ∨ ∃ spec ∈ specs, ∃ wheel, source.Provides spec wheel ∧
        wheel.normalizedName = Wheel.normalizeName name ∧ wheel.version = version ∧
        wheel.digest = digest := by
  refine has_foldlM (fun spec wheel _ (hf : source.Provides spec wheel) hs => hf.unique hs)
    (fun hone => ?_) h name version digest
  obtain ⟨wheel, done, hwheel, hadd⟩ := exists_of_installFrom hone
  exact ⟨wheel, hwheel, _, done, hadd⟩

/-- The names that are installed behind packages are those of their wheels, and those that were
    installed before. -/
theorem isInstalled_installAll {source : PackageSource} {e env : Environment}
    {specs : List PackageSpec} (h : e.installAll source specs = .ok env) (name : String) :
    env.isInstalled name = true ↔
      e.isInstalled name = true ∨ ∃ spec ∈ specs, ∃ wheel, source.Provides spec wheel ∧
        wheel.normalizedName = Wheel.normalizeName name := by
  simp only [isInstalled_iff_has, has_installAll h]
  constructor
  · rintro ⟨version, digest, hold | ⟨spec, hmem, wheel, hwheel, heq, -, -⟩⟩
    · exact .inl ⟨version, digest, hold⟩
    · exact .inr ⟨spec, hmem, wheel, hwheel, heq⟩
  · rintro (⟨version, digest, hold⟩ | ⟨spec, hmem, wheel, hwheel, heq⟩)
    · exact ⟨version, digest, .inl hold⟩
    · exact ⟨_, _, .inr ⟨spec, hmem, wheel, hwheel, heq, rfl, rfl⟩⟩

end Environment

/-- An engine installs a package into its environment. -/
theorem Engine.install_eq (e : Engine) (spec : PackageSpec) :
    e.install spec
      = (Environment.installFrom e.source e.environment spec).map fun env =>
          { e with environment := env } := by
  unfold Engine.install Environment.installFrom
  cases e.source.fetch spec with
  | error fault => rfl
  | ok bytes =>
    show (e.environment.install spec bytes).bind _
      = ((e.environment.install spec bytes).bind _).map _
    cases e.environment.install spec bytes <;> rfl

/-- What can come of installing packages in order: the packages that are begun, and the
    environment or the first failure. -/
inductive Installing (source : PackageSource) (e : Environment) (specs : List PackageSpec) :
    List PackageSpec → Except Fault Environment → Prop where
  | all {env : Environment} (installed : e.installAll source specs = .ok env) :
    Installing source e specs specs (.ok env)
  /-- All up to a package are installed, and that one is not. -/
  | stopped {before rest : List PackageSpec} {spec : PackageSpec} {env : Environment}
    {fault : Fault} (split : specs = before ++ spec :: rest)
    (installed : e.installAll source before = .ok env)
    (failed : env.installFrom source spec = .error fault) :
    Installing source e specs (before ++ [spec]) (.error fault)

/-- A package that can be installed comes before the others. -/
theorem Installing.cons {source : PackageSource} {e mid : Environment} {spec : PackageSpec}
    {rest begun : List PackageSpec} {result : Except Fault Environment}
    (h : e.installFrom source spec = .ok mid) (hr : Installing source mid rest begun result) :
    Installing source e (spec :: rest) (spec :: begun) result := by
  cases hr with
  | all installed =>
    refine .all ?_
    rw [Environment.installAll_cons, h]
    exact installed
  | stopped hs installed failed =>
    rw [← List.cons_append]
    refine .stopped (by rw [hs, List.cons_append]) ?_ failed
    rw [Environment.installAll_cons, h]
    exact installed

/-- What comes of installing packages is determined. -/
theorem Installing.eq_installAll {source : PackageSource} {e : Environment}
    {specs begun : List PackageSpec} {result : Except Fault Environment}
    (h : Installing source e specs begun result) : e.installAll source specs = result := by
  cases h with
  | all installed => exact installed
  | @stopped before rest spec env fault split installed failed =>
    have hrest : env.installAll source (spec :: rest) = .error fault := by
      rw [Environment.installAll_cons, failed]
      rfl
    rw [split, Environment.installAll, List.foldlM_append]
    show (e.installAll source before).bind _ = _
    rw [installed]
    exact hrest

end DocRelay
