import EvoClaw.SkillsEngine.Spares

namespace EvoClaw.SkillsEngine

open EventSystem Script

variable {β : Type}

def World.names (world : World β) : List String :=
  world.applied.map AppliedSkill.name

-- A skill for each name.
structure Library (β : Type) where
  skill : String → Skill β
  named : ∀ name, (skill name).manifest.skill = name

-- A call of apply_skill or of uninstall_skill, with what happens during it.
inductive Call where
  | apply (name : String) (events : List (Script.Event Error))
  | uninstall (name : String) (events : List (Script.Event Error))

-- What a call returns, if it does not raise.
def returned (env : Env β) {α : Type} (script : Engine β α) (events : List (Script.Event Error))
    (world : World β) : Option (α × World β) :=
  match run (Script.step (engine env)) ⟨script, world⟩ events with
  | some ⟨.done (.ok a), after⟩ => some (a, after)
  | _ => none

-- A successful call.
def Call.perform (env : Env β) (library : Library β) (world : World β) : Call → Option (World β)
  | .apply name events =>
      match returned env (applySkill env (library.skill name)) events world with
      | some (result, after) => if result.success then some after else none
      | none => none
  | .uninstall name events =>
      match returned env (uninstallSkill env name) events world with
      | some (result, after) => if result.success then some after else none
      | none => none

-- Every dependency of an applied skill is applied, and no other skill that it conflicts with.
def Closed (library : Library β) (world : World β) : Prop :=
  ∀ name ∈ world.names,
    (∀ dep ∈ (library.skill name).manifest.depends, dep ∈ world.names) ∧
    ∀ other ∈ (library.skill name).manifest.conflicts, other ∈ world.names → other = name

-- No other applied skill conflicts with a skill to apply, or depends on a skill to uninstall.
def MindsOthers (library : Library β) (world : World β) : Call → Prop
  | .apply name _ => ∀ other ∈ world.names, other ≠ name →
      name ∉ (library.skill other).manifest.conflicts
  | .uninstall name _ => ∀ other ∈ world.names, other ≠ name →
      name ∉ (library.skill other).manifest.depends

variable {env : Env β} {world after : World β}

theorem returned_yields {α : Type} {script : Engine β α} {events : List (Script.Event Error)}
    {a : α} {post : α → World β → Prop} (h : Yields (engine env) post script world)
    (hreturned : returned env script events world = some (a, after)) : post a after := by
  unfold returned at hreturned
  split at hreturned
  · rename_i hrun
    cases hreturned
    exact h.returns hrun
  · cases hreturned

-- The state that an operation reads is the one whose skills are applied.
theorem applied_of_state {state : SkillState} (h : world.state = .holds state) :
    world.applied = state.appliedSkills := by
  unfold World.applied
  rw [h]

theorem names_of_state (h : after.state = world.state) : after.names = world.names := by
  unfold World.names World.applied
  rw [h]

theorem spares_names {α : Type} {script : Engine β α} (h : Within SparesState script)
    {names : List String} (hnames : world.names = names) :
    Yields (engine env) (fun _ after => after.names = names) script world :=
  (spares_yields h world).mono fun _ _ hstate => (names_of_state hstate).trans hnames

-- A script that leaves the state alone, before another one.
theorem bind_spares {α γ : Type} {script : Engine β α} {post : γ → World β → Prop}
    {f : α → Engine β γ} {names : List String} (h : Within SparesState script)
    (hnames : world.names = names)
    (hf : ∀ a after, after.names = names → Yields (engine env) post (f a) after) :
    Yields (engine env) post (script.bind f) world :=
  .bind ((spares_names h hnames).mono hf)

theorem yields_readState {post : SkillState → World β → Prop}
    (h : ∀ state, world.state = .holds state → post state world) :
    Yields (engine env) post (op .readState) world := by
  refine .op fun state hstate => ?_
  cases hworld : world.state with
  | missing => simp [engine, perform, hworld] at hstate
  | unreadable => simp [engine, perform, hworld] at hstate
  | holds found =>
      simp only [engine, perform, hworld] at hstate ⊢
      cases hstate
      exact h state hworld

theorem ensureState_yields (world : World β) :
    Yields (engine env) (fun _ after => after.names = world.names) ensureState world := by
  refine .bind (.op fun found hfound => ?_)
  cases hfound
  split
  · rename_i hmissing
    have hnone : world.state = .missing := by simpa using hmissing
    refine .bind (.op fun _ _ => .op fun _ _ => ?_)
    simp [World.names, World.applied, engine, perform, hnone]
  · exact .ok rfl

theorem preflight_yields (manifest : Manifest) (world : World β) :
    Yields (engine env) (fun error after => error = none → after.names = world.names ∧
        (∀ dep ∈ manifest.depends, dep ∈ world.names) ∧
        ∀ other ∈ manifest.conflicts, other ∉ world.names)
      (preflight manifest) world := by
  refine .bind ((ensureState_yields world).mono fun _ ready hready => ?_)
  have hread : Within SparesState (op .readState : Engine β SkillState) := .op trivial
  refine bind_spares hread hready fun _ first hfirst => ?_
  refine bind_spares (spares_of_reads (reads_checkSystemVersion manifest)) hfirst
    fun ok second hsecond => ?_
  split
  · exact .ok nofun
  refine bind_spares (spares_of_reads (reads_checkCoreVersion manifest)) hsecond
    fun _ third hthird => ?_
  refine bind_spares (spares_of_reads reads_isCustomizeActive) hthird fun active fourth hfourth => ?_
  split
  · exact .ok nofun
  refine .bind (.bind (yields_readState fun state hstate => .ok ?_))
  have hnames : state.names = world.names := by
    rw [← hfourth]
    exact (congrArg (List.map AppliedSkill.name) (applied_of_state hstate)).symm
  split
  · exact .ok nofun
  · rename_i hmissing
    refine .bind (.bind (yields_readState fun again hagain => .ok ?_))
    have hsame : again = state := by
      rw [hstate] at hagain
      cases hagain
      rfl
    subst hsame
    split
    · exact .ok nofun
    · rename_i hconflicting
      rw [not_not, List.filter_eq_nil_iff] at hmissing hconflicting
      refine .ok fun _ => ⟨hfourth, fun dep hdep => ?_, fun other hother => ?_⟩
      · simpa [hnames] using hmissing dep hdep
      · simpa [hnames] using hconflicting other hother

theorem recordSkillApplication_yields (manifest : Manifest) (hashes : List (String × String))
    (world : World β) :
    Yields (engine env) (fun _ after => after.names =
        world.names.filter (· ≠ manifest.skill) ++ [manifest.skill])
      (recordSkillApplication manifest hashes) world := by
  refine .bind (yields_readState fun state hstate => .op fun _ _ => ?_)
  simp [World.names, World.applied, engine, perform, hstate, SkillState.without, List.filter_map]
  rfl

theorem runTests_yields (manifest : Manifest) (world : World β) :
    Yields (engine env) (fun failed after => failed = false → after.names = world.names)
      (runTests manifest) world := by
  unfold runTests
  split
  · exact .ok fun _ => rfl
  · refine .tryCatch (.bind (.op fun _ _ => .ok fun _ => rfl)) fun error before => ?_
    split
    · refine .bind ((Yields.any _ _).mono fun _ _ _ => ?_)
      refine .bind ((Yields.any _ _).mono fun _ _ _ => ?_)
      refine .bind ((Yields.any _ _).mono fun _ _ _ => ?_)
      exact .bind ((Yields.any _ _).mono fun _ _ _ => .ok nofun)
    · exact .error _

-- Without an error the skill is recorded as the last one.
theorem applyLocked_yields (remap : List (String × String)) (skill : Skill β) (world : World β) :
    Yields (engine env) (fun error after => error = none → after.names =
        world.names.filter (· ≠ skill.manifest.skill) ++ [skill.manifest.skill])
      (applyLocked env remap skill) world := by
  refine .tryCatch (.bind ?_) fun error before => ?_
  · refine (spares_names (spares_changeProject env remap skill) rfl).mono fun error first hfirst => ?_
    cases error with
    | some error => exact .ok nofun
    | none =>
        refine bind_spares (spares_of_reads (reads_hashFiles env remap _ _)) hfirst
          fun hashes second hsecond => ?_
        refine .bind ((recordSkillApplication_yields _ hashes second).mono fun _ third hthird => ?_)
        refine .bind ((runTests_yields _ third).mono fun failed fourth hfourth => ?_)
        split
        · exact .ok nofun
        · rename_i hpassed
          have hnames := (hfourth (by simpa using hpassed)).trans (hsecond ▸ hthird)
          exact bind_spares spares_clearBackup hnames fun _ _ hlast => .ok fun _ => hlast
  · exact .bind ((Yields.any _ _).mono fun _ _ _ => .error _)

-- After a success the skill is the last one, its dependencies were applied and no skill that it
-- conflicts with.
theorem applySkill_yields (skill : Skill β) (world : World β) :
    Yields (engine env) (fun result after => result.success →
        after.names = world.names.filter (· ≠ skill.manifest.skill) ++ [skill.manifest.skill] ∧
        (∀ dep ∈ skill.manifest.depends, dep ∈ world.names) ∧
        ∀ other ∈ skill.manifest.conflicts, other ∉ world.names)
      (applySkill env skill) world := by
  refine .bind (.op fun manifest hmanifest => ?_)
  cases hmanifest
  refine .bind ((preflight_yields skill.manifest world).mono fun error ready hready => ?_)
  split
  · exact .ok nofun
  obtain ⟨hnames, hdeps, hconflicts⟩ := hready rfl
  refine bind_spares (spares_of_reads reads_loadPathRemap) hnames fun remap first hfirst => ?_
  refine bind_spares (spares_of_reads (reads_detectDrift env remap _)) hfirst
    fun drift second hsecond => ?_
  have hlock : Within SparesState (op .acquireLock : Engine β Unit) := .op trivial
  have hstart : Within SparesState (op .startAdded : Engine β Unit).surely :=
    spares_surely (.op trivial)
  refine bind_spares hlock hsecond fun _ third hthird => ?_
  refine bind_spares hstart hthird fun _ fourth hfourth => ?_
  have hrelease : Within SparesState (op .releaseLock : Engine β Unit) := .op trivial
  refine .bind (.tryFinally ((applyLocked_yields remap skill fourth).mono fun error fifth hfifth => ?_))
  refine (spares_names hrelease rfl).mono fun _ last hlast => .ok fun hsuccess => ?_
  cases error with
  | none => exact ⟨hlast.trans (hfourth ▸ hfifth rfl), hdeps, hconflicts⟩
  | some error =>
      have hfailed : (applyResult skill.manifest drift (some error)).success = false := by
        cases error <;> rfl
      rw [hfailed] at hsuccess
      cases hsuccess

theorem uninstallSkill_yields (name : String) (world : World β) :
    Yields (engine env) (fun result after => result.success →
        after.names = world.names.filter (· ≠ name))
      (uninstallSkill env name) world := by
  refine .bind (yields_readState fun state hstate => ?_)
  dsimp only
  split
  · exact .ok nofun
  refine bind_spares (spares_of_reads (reads_findDirs _)) rfl fun found first hfirst => ?_
  split
  · exact .ok nofun
  · have hread : Within SparesState (op .readState : Engine β SkillState) := .op trivial
    have hlock : Within SparesState (op .acquireLock : Engine β Unit) := .op trivial
    have hrelease : Within SparesState (op .releaseLock : Engine β Unit) := .op trivial
    refine bind_spares hread hfirst fun _ second hsecond => ?_
    refine bind_spares (spares_of_plain (plain_removeTools env name)) hsecond
      fun _ third hthird => ?_
    refine bind_spares hlock hthird fun _ fourth hfourth => .tryFinally ?_
    refine bind_spares (spares_of_plain (plain_replaySkills env _ _)) hfourth
      fun result fifth hfifth => ?_
    split
    · exact .ok ((spares_names hrelease rfl).mono fun _ _ _ => nofun)
    · refine .bind (yields_readState fun current hcurrent => .bind (.op fun _ _ => .ok ?_))
      refine (spares_names hrelease rfl).mono fun _ last hlast _ => hlast.trans ?_
      rw [← hfifth]
      simp [World.names, World.applied, engine, perform, hcurrent, SkillState.without,
        List.filter_map]
      rfl

section Runs

variable (env : Env β) (library : Library β)

theorem perform_apply {name : String} {events : List (Script.Event Error)}
    (he : Call.perform env library world (.apply name events) = some after) :
    after.names = world.names.filter (· ≠ name) ++ [name] ∧
      (∀ dep ∈ (library.skill name).manifest.depends, dep ∈ world.names) ∧
      ∀ other ∈ (library.skill name).manifest.conflicts, other ∉ world.names := by
  simp only [Call.perform] at he
  split at he
  · rename_i result final hreturned
    split at he
    · rename_i hsuccess
      cases he
      have h := returned_yields (applySkill_yields (library.skill name) world) hreturned hsuccess
      rwa [library.named] at h
    · cases he
  · cases he

theorem perform_uninstall {name : String} {events : List (Script.Event Error)}
    (he : Call.perform env library world (.uninstall name events) = some after) :
    after.names = world.names.filter (· ≠ name) := by
  simp only [Call.perform] at he
  split at he
  · rename_i result final hreturned
    split at he
    · rename_i hsuccess
      cases he
      exact returned_yields (uninstallSkill_yields name world) hreturned hsuccess
    · cases he
  · cases he

theorem Closed.apply {name : String} {events : List (Script.Event Error)}
    (h : Closed library world) (hminds : MindsOthers library world (.apply name events))
    (he : Call.perform env library world (.apply name events) = some after) :
    Closed library after := by
  obtain ⟨hnames, hdeps, hconflicts⟩ := perform_apply env library he
  have hmem : ∀ other, other ∈ after.names ↔ other = name ∨ other ∈ world.names := by
    intro other
    rw [hnames, List.mem_append, List.mem_filter, List.mem_singleton]
    by_cases hother : other = name <;> simp [hother]
  intro other hother
  by_cases heq : other = name
  · subst heq
    refine ⟨fun dep hdep => (hmem dep).mpr (.inr (hdeps dep hdep)), fun found hfound hin => ?_⟩
    exact ((hmem found).mp hin).resolve_right (hconflicts found hfound)
  · obtain ⟨hother, hclosed⟩ := h other (((hmem other).mp hother).resolve_left heq)
    refine ⟨fun dep hdep => (hmem dep).mpr (.inr (hother dep hdep)), fun found hfound hin => ?_⟩
    rcases (hmem found).mp hin with rfl | hin
    · exact absurd hfound (hminds other (((hmem other).mp ‹_›).resolve_left heq) heq)
    · exact hclosed found hfound hin

theorem Closed.uninstall {name : String} {events : List (Script.Event Error)}
    (h : Closed library world) (hminds : MindsOthers library world (.uninstall name events))
    (he : Call.perform env library world (.uninstall name events) = some after) :
    Closed library after := by
  have hnames := perform_uninstall env library he
  have hmem : ∀ other, other ∈ after.names ↔ other ∈ world.names ∧ other ≠ name := by
    intro other
    rw [hnames]
    simp
  intro other hother
  obtain ⟨hin, hne⟩ := (hmem other).mp hother
  obtain ⟨hdeps, hconflicts⟩ := h other hin
  refine ⟨fun dep hdep => (hmem dep).mpr ⟨hdeps dep hdep, ?_⟩, fun found hfound hafter => ?_⟩
  · rintro rfl
    exact hminds other hin hne hdep
  · exact hconflicts found hfound ((hmem found).mp hafter).1

-- What a closed state says about the call that led to it.
theorem Closed.mindsOthers {call : Call} (he : call.perform env library world = some after)
    (h : Closed library after) : MindsOthers library world call := by
  cases call with
  | apply name events =>
      have hnames := (perform_apply env library he).1
      intro other hother hne hconflict
      have hin : other ∈ after.names := by simp [hnames, hother, hne]
      have hname : name ∈ after.names := by simp [hnames]
      exact hne ((h other hin).2 name hconflict hname).symm
  | uninstall name events =>
      have hnames := perform_uninstall env library he
      intro other hother hne hdep
      have hin : other ∈ after.names := by simp [hnames, hother, hne]
      have hname := (h other hin).1 name hdep
      simp [hnames] at hname

-- Every state of a run is closed exactly if every call minds the other skills.
theorem closed_iff_minds (project : Files β) (calls : List Call) :
    Always (Call.perform env library) (Closed library) (.initial project) calls ↔
      Along (Call.perform env library) (MindsOthers library) (.initial project) calls := by
  refine always_iff_along (Closed library) ?_ (fun _ h => h) ?_ nofun
  · intro world call after h hminds he
    cases call with
    | apply name events => exact h.apply env library hminds he
    | uninstall name events => exact h.uninstall env library hminds he
  · intro world call after _ he h
    exact h.mindsOthers env library he

end Runs

section Counterexample

-- "theme" depends on "core".
def themeLibrary : Library Sample where
  skill name :=
    { manifest :=
        { skill := name, version := "1.0.0", coreVersion := "0.0.0"
          depends := if name = "theme" then ["core"] else [] }
      add := none
      modify := {} }
  named _ := rfl

def themeEnv : Env Sample :=
  sampleEnv [themeLibrary.skill "core", themeLibrary.skill "theme"]

instance (library : Library β) (world : World β) : Decidable (Closed library world) :=
  inferInstanceAs (Decidable (∀ name ∈ world.names, _ ∧ ∀ other ∈ _, _))

-- Both are applied, and then "core" is uninstalled. Nothing fails from outside.
def themeCalls : List Call :=
  let core := applySkill themeEnv (themeLibrary.skill "core")
  let theme := applySkill themeEnv (themeLibrary.skill "theme")
  let start : World Sample := .initial {}
  let first := (exec (engine themeEnv) core start).2
  let second := (exec (engine themeEnv) theme first).2
  [.apply "core" (undisturbed (engine themeEnv) core start),
    .apply "theme" (undisturbed (engine themeEnv) theme first),
    .uninstall "core" (undisturbed (engine themeEnv) (uninstallSkill themeEnv "core") second)]

theorem core_uninstalled_under_theme :
    ¬ Always (Call.perform themeEnv themeLibrary) (Closed themeLibrary) (.initial {}) themeCalls := by
  decide +kernel

end Counterexample

end EvoClaw.SkillsEngine
