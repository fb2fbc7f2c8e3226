import DocRelay.Archive.Basic
import DocRelay.Proofs.Worker.Bootstrap

namespace DocRelay

/-!
# What a worker has installed

A worker that is ready has installed the wheels that its source has for the packages of its
manifest.  A wheel says itself what its name and its version are: a requirement is the way to a
wheel, and what it says is not compared with what the wheel says.

* `Setup.installed_of_bootstrap` — the environment of a worker that is ready is that of all packages
  of its manifest;
* `Setup.bootstrap_installs` — every package has a wheel with the right digest, installed under its
  own name and with its own version, and a required name or version is there exactly if one of these
  wheels has it;
* `Setup.mislabelled_not_pinned` — the wheel of a requirement may have another version.
-/

namespace Setup

/-- The environment of a worker that is ready holds all packages of its manifest. -/
theorem installed_of_bootstrap {l : Loader} {st after : Setup} {relay : Relay}
    (h : st.bootstrap l = (.ok relay, after)) :
    Environment.empty.installAll l.source st.worker.manifest.packages
      = .ok relay.engine.environment := by
  obtain ⟨hp, ha⟩ := attempt_of_bootstrap h
  obtain ⟨ho, hr⟩ := isFresh_of_attempt hp ha
  rcases attempt_prepares l hp ho with
    ⟨_, _, _, _, _, heq, _⟩ | ⟨progress, live, env, ready, -, hinstalled, heq, hready⟩
  · cases ha.symm.trans heq
  · -- The engine that is handed to the relay has the environment of the packages.
    rw [finish_eq _ _ hready.phase (by rw [hready.outbox]; exact ho)
      (by rw [hready.outbox]; exact hr)] at heq
    cases ha.symm.trans heq
    exact hinstalled

/-- **What a manifest pins** is fetched and installed as the wheels of its packages say.  A required
    name is installed, and a required version is the one that is installed, exactly if some wheel of
    the packages has that name, and that version. -/
theorem bootstrap_installs {l : Loader} {st after : Setup} {relay : Relay}
    (h : st.bootstrap l = (.ok relay, after)) :
    let packages := st.worker.manifest.packages
    let env := relay.engine.environment
    (∀ spec ∈ packages, ∃ bytes wheel, l.source.fetch spec = .ok bytes ∧
      Environment.digestFault? spec bytes = none ∧ Wheel.ofBytes bytes = .ok wheel ∧
      env.Has wheel.name wheel.version wheel.digest) ∧
    ∀ spec ∈ packages, ∀ name version?, spec.target = .requirement name version? →
      (env.isInstalled name = true ↔ ∃ other ∈ packages, ∃ wheel, l.source.Provides other wheel ∧
        wheel.normalizedName = Wheel.normalizeName name) ∧
      ∀ pinned, version? = some pinned →
        ((∃ entry, env.get? name = some entry ∧ entry.version = pinned) ↔
          ∃ other ∈ packages, ∃ wheel, l.source.Provides other wheel ∧
            wheel.normalizedName = Wheel.normalizeName name ∧ wheel.version = pinned) := by
  intro packages env
  have hall := installed_of_bootstrap h
  -- There is nothing in the environment that the installation begins with.
  have hempty : ∀ name version digest, ¬Environment.empty.Has name version digest := by
    rintro name version digest ⟨entry, hentry, -⟩
    cases hentry
  refine ⟨fun spec hm => ?_, fun spec hm name version? htarget => ⟨?_, fun pinned hpinned => ?_⟩⟩
  · obtain ⟨bytes, wheel, hfetch, hdigest, hw⟩ := Environment.exists_of_mem_installAll hall hm
    exact ⟨bytes, wheel, hfetch, hdigest, hw, (Environment.has_installAll hall _ _ _).mpr
      (.inr ⟨spec, hm, wheel, ⟨bytes, hfetch, hw⟩, rfl, rfl, rfl⟩)⟩
  · rw [Environment.isInstalled_installAll hall]
    exact or_iff_right Bool.false_ne_true
  · constructor
    · rintro ⟨entry, hentry, hversion⟩
      obtain ⟨other, hmem, wheel, hwheel, hname, hv, -⟩ :=
        ((Environment.has_installAll hall name pinned entry.digest).mp
          ⟨entry, hentry, hversion, rfl⟩).resolve_left (hempty _ _ _)
      exact ⟨other, hmem, wheel, hwheel, hname, hv⟩
    · rintro ⟨other, hmem, wheel, hwheel, hname, hv⟩
      obtain ⟨entry, hentry, hversion, -⟩ := (Environment.has_installAll hall name pinned _).mpr
        (.inr ⟨other, hmem, wheel, hwheel, hname, hv, rfl⟩)
      exact ⟨entry, hentry, hversion⟩

/-! ### A wheel of another version -/

/-- A wheel that says that its version is 2.0. -/
def laterWheel : Bytes :=
  Archive.write [⟨"pkgA-2.0.dist-info/METADATA", Text.utf8 "Name: pkgA\nVersion: 2.0\n"⟩]

/-- A package that is required in version 1.0. -/
def earlierSpec : PackageSpec := ⟨"pkgA==1.0", none⟩

/-- A loader whose source has the later wheel for the earlier package. -/
def mislabelling : Loader :=
  { Loader.slider with
    source := (MemorySource.ofPairs [(earlierSpec.locator, laterWheel)]).toSource }

/-- A worker that is to run the slider with the package. -/
def mislabelled : Setup :=
  ⟨.ofManifest ⟨⟨"slider", Loader.defaultLabel⟩, [earlierSpec], ⟨"slider", [], false, []⟩⟩, .empty⟩

/-- The version of the package that the worker has installed, if it is ready. -/
def mislabelledVersion? : Option (Option String) :=
  ((mislabelled.bootstrap mislabelling).1.map fun relay =>
    (relay.engine.environment.get? "pkgA").map (·.version)).toOption

/-- The worker is ready with version 2.0. -/
theorem exists_mislabelled :
    ∃ relay after entry, mislabelled.bootstrap mislabelling = (.ok relay, after) ∧
      relay.engine.environment.get? "pkgA" = some entry ∧ entry.version = "2.0" := by
  have hversion : mislabelledVersion? = some (some "2.0") := by decide +kernel
  unfold mislabelledVersion? at hversion
  cases hb : mislabelled.bootstrap mislabelling with
  | mk reply after =>
    rw [hb] at hversion
    cases reply with
    | error fault => cases hversion
    | ok relay =>
      cases he : relay.engine.environment.get? "pkgA" with
      | none => simp [Except.map, Except.toOption, he] at hversion
      | some entry =>
        refine ⟨relay, after, entry, rfl, he, ?_⟩
        simpa [Except.map, Except.toOption, he] using hversion

/-- **The required version is not the one that is installed.** The manifest is accepted and the
    worker is ready, but with version 2.0 of what is required in version 1.0. -/
theorem mislabelled_not_pinned :
    mislabelled.worker.manifest.check = none ∧
      earlierSpec ∈ mislabelled.worker.manifest.packages ∧
      earlierSpec.target = .requirement "pkgA" (some "1.0") ∧
      ∃ relay after, mislabelled.bootstrap mislabelling = (.ok relay, after) ∧
        ¬∃ entry, relay.engine.environment.get? "pkgA" = some entry ∧ entry.version = "1.0" := by
  obtain ⟨relay, after, entry, hb, he, hversion⟩ := exists_mislabelled
  refine ⟨by decide +kernel, List.mem_singleton.mpr rfl, by decide +kernel, relay, after, hb, ?_⟩
  rintro ⟨other, ho, hother⟩
  obtain rfl := Option.some.inj (he.symm.trans ho)
  rw [hversion] at hother
  exact absurd hother (by decide)

/-- The wheel that the source has for the package is there, with its own version. -/
theorem bootstrap_installs_mislabelled :
    ∃ relay after, mislabelled.bootstrap mislabelling = (.ok relay, after) ∧
      (∃ wheel, mislabelling.source.fetch earlierSpec = .ok laterWheel ∧
        Wheel.ofBytes laterWheel = .ok wheel ∧
        relay.engine.environment.Has wheel.name wheel.version wheel.digest) ∧
      relay.engine.environment.isInstalled "pkgA" = true := by
  obtain ⟨relay, after, entry, hb, -, -⟩ := exists_mislabelled
  have hmem : earlierSpec ∈ mislabelled.worker.manifest.packages := List.mem_singleton.mpr rfl
  obtain ⟨hwheels, hrequired⟩ := bootstrap_installs hb
  obtain ⟨bytes, wheel, hfetch, -, hw, hhas⟩ := hwheels earlierSpec hmem
  have hbytes : mislabelling.source.fetch earlierSpec = .ok laterWheel := by rfl
  obtain rfl := Except.ok.inj (hbytes.symm.trans hfetch)
  have hname : ((Wheel.ofBytes laterWheel).map Wheel.normalizedName).toOption
      = some (Wheel.normalizeName "pkgA") := by decide +kernel
  rw [hw] at hname
  have htarget : earlierSpec.target = .requirement "pkgA" (some "1.0") := by decide +kernel
  exact ⟨relay, after, hb, ⟨wheel, hfetch, hw, hhas⟩,
    (hrequired earlierSpec hmem "pkgA" (some "1.0") htarget).1.mpr
      ⟨earlierSpec, hmem, wheel, ⟨_, hfetch, hw⟩, Option.some.inj hname⟩⟩

end Setup

end DocRelay
