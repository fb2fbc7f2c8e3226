import DocRelay.Engine
import DocRelay.Proofs.Document.AtRest

namespace DocRelay

/-!
# Applications that are run

* `Application.built` — what an application makes of an empty document, wherever it is run;
* `Application.built_eq`, `Application.built_reachable` — it posts nothing, and leaves a document
  that is reachable and not linked;
* `Building` — what can come of an application: its document, or why there is none;
* `Engine.execute_building` — an engine runs applications so.
-/

/-- How an application ends that is run on the `n`-th document, which is empty, and what it has
    made of it. -/
def Application.built (app : Application) (ctx : ApplicationContext) (n : Nat) :
    Outcome × LiveDocument :=
  let scene : Scene := ⟨.ofDocument (Engine.blankDocument ctx.descriptor n), .empty⟩
  let (outcome, after) := scene.runScript (app.build ctx)
  (outcome, after.live)

/-- The required packages that an environment lacks. -/
def Environment.lacking (env : Environment) (app : ApplicationDescriptor) : List String :=
  app.requires.filter fun name => !env.isInstalled name

/-- What can come of an application: its document, or why there is none. -/
inductive Building (registry : Registry) (env : Environment) (app : ApplicationDescriptor)
    (n : Nat) : Except ScriptFault LiveDocument → Prop where
  | unknownEntry (unknown : registry.get? app.entry = none) :
    Building registry env app n (.error (.unknownEntry app.entry))
  | missingPackages {found : Application} (known : registry.get? app.entry = some found)
    (lacking : env.lacking app ≠ []) :
    Building registry env app n (.error (.missingPackages (env.lacking app)))
  | failed {found : Application} {fault : Fault} {live : LiveDocument}
    (known : registry.get? app.entry = some found) (lacking : env.lacking app = [])
    (built : found.built ⟨app, env⟩ n = (.failed fault, live)) :
    Building registry env app n (.error (.failed fault.message))
  | panicked {found : Application} {text : Option String} {live : LiveDocument}
    (known : registry.get? app.entry = some found) (lacking : env.lacking app = [])
    (built : found.built ⟨app, env⟩ n = (.panicked text, live)) :
    Building registry env app n (.error (.panicked text))
  | done {found : Application} {live : LiveDocument}
    (known : registry.get? app.entry = some found) (lacking : env.lacking app = [])
    (built : found.built ⟨app, env⟩ n = (.done, live)) :
    Building registry env app n (.ok live)

/-- What an application makes of its document in any surroundings.  It posts nothing. -/
theorem Application.built_eq (app : Application) (ctx : ApplicationContext) (n : Nat)
    (s : Surroundings) :
    let r := Scene.runScript ⟨.ofDocument (Engine.blankDocument ctx.descriptor n), s⟩
      (app.build ctx)
    app.built ctx n = (r.1, r.2.live) ∧ r.2.around.outbox = s.outbox := by
  refine ⟨?_, ?_⟩
  · obtain ⟨hend, hlive⟩ := Scene.runScript_congr
      (s := ⟨.ofDocument (Engine.blankDocument ctx.descriptor n), .empty⟩)
      (t := ⟨.ofDocument (Engine.blankDocument ctx.descriptor n), s⟩) rfl (app.build ctx)
    exact Prod.ext hend hlive
  · exact (Scene.passes_unlinked (Script.passes_run _ _ _) rfl).2

/-- The document that an application has made is reachable, and is not linked. -/
theorem Application.built_reachable (app : Application) (ctx : ApplicationContext) (n : Nat) :
    (app.built ctx n).2.Reachable ∧ (app.built ctx n).2.link = none := by
  refine ⟨?_, (Scene.passes_unlinked (Script.passes_run _ _ _) rfl).1⟩
  refine Scene.passes_reachable (Script.passes_run _ _ _) ?_
  show LiveDocument.Reachable (.ofDocument (Engine.blankDocument ctx.descriptor n))
  rw [Engine.blankDocument]
  split
  · exact .relocate _ (.new _)
  · exact .new _

/-- **Application.** An engine without a document runs an application, and posts nothing. -/
theorem Engine.execute_building {e : Engine} (hd : e.document = none)
    (app : ApplicationDescriptor) (s : Surroundings) :
    (∃ fault after, Building e.registry e.environment app (s.documents + 1) (.error fault) ∧
      e.execute app s = (.error (.script fault), e, after) ∧ after.outbox = s.outbox) ∨
    ∃ live after, Building e.registry e.environment app (s.documents + 1) (.ok live) ∧
      e.execute app s
        = (.ok (.ofDocument live.document), { e with document := some live }, after) ∧
      after.outbox = s.outbox := by
  unfold Engine.execute Engine.select
  rw [hd, Option.isSome_none, if_neg Bool.false_ne_true]
  cases hk : e.registry.get? app.entry with
  | none => exact .inl ⟨_, _, .unknownEntry hk, rfl, rfl⟩
  | some found =>
    dsimp only
    -- The entry is known, so whether a package is missing decides if its script runs.
    by_cases hl : e.environment.lacking app = []
    · have hm : (e.missing app).isEmpty = true := List.isEmpty_iff.mpr hl
      rw [if_pos hm]
      obtain ⟨hbuilt, hbox⟩ := found.built_eq ⟨app, e.environment⟩ (s.documents + 1)
        { s with documents := s.documents + 1 }
      dsimp only at hbuilt hbox ⊢
      -- All that is left to tell apart is how the script has ended.
      generalize Scene.runScript _ _ = result at hbuilt hbox
      obtain ⟨outcome, after⟩ := result
      cases outcome with
      | done => exact .inr ⟨_, _, .done hk hl hbuilt, rfl, hbox⟩
      | failed fault => exact .inl ⟨_, _, .failed hk hl hbuilt, rfl, hbox⟩
      | panicked text => exact .inl ⟨_, _, .panicked hk hl hbuilt, rfl, hbox⟩
    · have hm : ¬(e.missing app).isEmpty = true := fun h => hl (List.isEmpty_iff.mp h)
      rw [if_neg hm]
      exact .inl ⟨_, _, .missingPackages hk hl, rfl, rfl⟩

end DocRelay
