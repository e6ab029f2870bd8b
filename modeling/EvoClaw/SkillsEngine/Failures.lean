import EvoClaw.EventSystem.Commit
import EvoClaw.SkillsEngine.Spares

-- What a failed uninstall or rebase leaves behind.
namespace EvoClaw.SkillsEngine

open EventSystem Posix Script

variable {β : Type}

-- Every file, with it every tool, and the list of applied skills are as they were.
def Unchanged (before after : World β) : Prop :=
  (∀ p, after.project.fileAt p = before.project.fileAt p) ∧ after.applied = before.applied

theorem unchanged_equivalence : Equivalence (Unchanged (β := β)) where
  refl _ := ⟨fun _ => rfl, rfl⟩
  symm h := ⟨fun p => (h.1 p).symm, h.2.symm⟩
  trans hfirst hsecond := ⟨fun p => (hsecond.1 p).trans (hfirst.1 p), hsecond.2.trans hfirst.2⟩

def WritesState : (α : Type) → Op β α → Prop
  | _, .writeState _ => True
  | _, _ => False

-- A run that ends without success has changed nothing.
def FailsUnchanged (env : Env β) {α : Type} (success : α → Bool) (script : Engine β α)
    (world : World β) : Prop :=
  ∀ events, Always (Script.step (engine env))
    (KeptUnlessGood Unchanged (fun result => success result = true) world) ⟨script, world⟩ events

-- In no run an operation before the write of state.yaml changes a file.
def IdleUntilWritten (env : Env β) {α : Type} (script : Engine β α) (world : World β) : Prop :=
  ∀ events, Along (Script.step (engine env))
    (Idle (engine env) Unchanged WritesState).onStep ⟨script, world⟩ events

section Scripts

variable {env : Env β} {α γ : Type}

theorem mayFail_other {α : Type} (op : Op β α) : mayFail op .other := by
  cases op <;> rfl

-- What follows an operation that can be made to fail.
theorem fails_of_op {o : Op β γ} {f : γ → Engine β α} {success : α → Bool} :
    Fails (engine env) Unchanged (fun result => ∀ a, result = .ok a → ¬ success a = true)
      ((op o).bind f) :=
  Fails.op_bind (mayFail_other o) nofun

theorem exposed_of_looks {x : Engine β γ} {f : γ → Engine β α} {success : α → Bool}
    (h : Within Looks x)
    (hf : ∀ a, Exposed (engine env) Unchanged WritesState (fun a => success a = true) (f a)) :
    Exposed (engine env) Unchanged WritesState (fun a => success a = true) (x.bind f) :=
  .bind_calm (h.mono fun _ _ _ hlooks world => by
    rw [show (engine env).perform = perform env from rfl, hlooks env world]
    exact unchanged_equivalence.refl world) hf

theorem exposed_of_plain {x : Engine β γ} {f : γ → Engine β α} {success : α → Bool}
    (h : Within Plain x)
    (hfails : ∀ a, Fails (engine env) Unchanged
      (fun result => ∀ a, result = .ok a → ¬ success a = true) (f a))
    (hf : ∀ a, Exposed (engine env) Unchanged WritesState (fun a => success a = true) (f a)) :
    Exposed (engine env) Unchanged WritesState (fun a => success a = true) (x.bind f) := by
  refine .bind (h.mono fun _ _ o hplain => ⟨hplain.1, ⟨.other, mayFail_other o⟩, ?_⟩) hfails hf
  cases o with
  | writeState state => exact hplain.2.elim
  | _ => exact id

theorem exposed_release {x : Engine β α} {success : α → Bool}
    (h : Exposed (engine env) Unchanged WritesState (fun a => success a = true) x) :
    Exposed (engine env) Unchanged WritesState (fun a => success a = true)
      (x.tryFinally (op .releaseLock)) :=
  h.tryFinally ⟨unchanged_equivalence.refl, fun _ => trivial⟩
    ⟨unchanged_equivalence.refl, fun _ => trivial⟩ ⟨rfl, fun _ => ⟨(), rfl, trivial⟩⟩

-- The write of state.yaml before a success.
theorem exposed_writeState {state : SkillState} {a : α} {success : α → Bool} (h : success a) :
    Exposed (engine env) Unchanged WritesState (fun a => success a = true)
      ((op (.writeState state)).bind fun _ => .done (.ok a)) :=
  .commit trivial (fun _ => .done _) fun _ => ⟨(), rfl, h⟩

theorem looks_readState : Within Looks (op .readState : Engine β SkillState) :=
  looks_of_reads reads_readState

theorem exposed_uninstallSkill (name : String) :
    Exposed (engine env) Unchanged WritesState (fun result => result.success = true)
      (uninstallSkill env name) := by
  refine exposed_of_looks looks_readState fun state => ?_
  dsimp only
  split
  · exact .done _
  refine exposed_of_looks (looks_of_reads (reads_findDirs _)) fun found => ?_
  split
  · exact .done _
  rename_i dirs
  refine exposed_of_looks looks_readState fun _ => ?_
  refine exposed_of_plain (plain_removeTools env name) (fun _ => fails_of_op) fun _ => ?_
  refine exposed_of_looks (.op fun _ _ => rfl) fun _ => exposed_release ?_
  refine exposed_of_plain (plain_replaySkills env _ dirs) (fun result => ?_) fun result => ?_
  · split
    · rintro _ ⟨⟩
      exact Bool.false_ne_true
    · exact fails_of_op
  · split
    · exact .done _
    · exact exposed_of_looks looks_readState fun current => exposed_writeState rfl

theorem plain_applyPatch (text : String) : Within Plain (applyPatch env text) :=
  .ite trivial <| .ite (.tryCatch ((Within.op ⟨rfl, trivial⟩).bind fun _ => trivial)
    fun _ => trivial) trivial

theorem exposed_rebase :
    Exposed (engine env) Unchanged WritesState (fun result => result.success = true)
      (rebase env) := by
  refine exposed_of_looks looks_readState fun state => ?_
  dsimp only
  split
  · exact .done _
  refine exposed_of_looks (looks_of_reads (reads_findDirs _)) fun found => ?_
  split
  · exact .done _
  rename_i dirs
  refine exposed_of_looks (.op fun _ _ => rfl) fun _ => exposed_release ?_
  refine exposed_of_looks (looks_of_reads (reads_collectPatch _ _)) fun parts => ?_
  refine exposed_of_looks (.op fun _ _ => rfl) fun _ => ?_
  refine exposed_of_plain (plain_replaySkills env _ dirs) (fun result => ?_) fun result => ?_
  · split
    · rintro _ ⟨⟩
      exact Bool.false_ne_true
    · refine .bind (.of_within ((plain_applyPatch _).mono fun _ _ o hplain => ?_) ?_)
      · exact ⟨hplain.1, .other, mayFail_other o⟩
      · rintro (e | a)
        · exact nofun
        · exact fails_of_op
  · split
    · exact .done _
    · refine exposed_of_plain (plain_applyPatch _) (fun _ => fails_of_op) fun _ => ?_
      exact exposed_of_looks looks_readState fun current => exposed_writeState rfl

end Scripts

-- A call that fails changes nothing, exactly if in every run of it no operation before the write
-- of state.yaml changes a file.
theorem failsUnchanged_iff_idle (env : Env β) (name : String) (world : World β) :
    (FailsUnchanged env UninstallResult.success (uninstallSkill env name) world ↔
      IdleUntilWritten env (uninstallSkill env name) world) ∧
    (FailsUnchanged env RebaseResult.success (rebase env) world ↔
      IdleUntilWritten env (rebase env) world) :=
  ⟨(exposed_uninstallSkill name).kept_iff_idle unchanged_equivalence world,
    exposed_rebase.kept_iff_idle unchanged_equivalence world⟩

-- An undisturbed call that does not succeed and changes a file.
theorem not_failsUnchanged {env : Env β} {α : Type} {success : α → Bool} {script : Engine β α}
    {world : World β} {p : Place}
    (hend : (exec (engine env) script world).1.toOption.map success ≠ some true)
    (hfile : (exec (engine env) script world).2.project.fileAt p ≠ world.project.fileAt p) :
    ¬ FailsUnchanged env success script world := by
  intro h
  have hlast := (h _).reached (run_undisturbed (engine env) script world)
  refine hfile ((hlast _ rfl fun result hresult => ?_).1 p)
  intro hsuccess
  exact hend (by rw [hresult]; exact congrArg some hsuccess)

section Counterexample

-- "clock" has a tool, and "notes" has lost the file that it modifies.
def clock : Skill Sample where
  manifest :=
    { skill := "clock", version := "1.0.0", coreVersion := "0.0.0", containerTools := ["clock.py"] }
  add := some ⟨[(place "clock.py", .file (.ofString "clock"))]⟩
  modify := {}

def notes : Skill Sample where
  manifest := { skill := "notes", version := "1.0.0", coreVersion := "0.0.0", modifies := ["run.py"] }
  add := none
  modify := {}

def clockTool : Place := place "data/dynamic_tools/clock.py"

def clockWorld : World Sample where
  project :=
    ⟨[(place "data", .dir), (place "data/dynamic_tools", .dir),
      (clockTool, .file (.ofString "clock")), (place "run.py", .file (.ofString "run"))]⟩
  base := ⟨[(place "run.py", .file (.ofString "run"))]⟩
  backup := {}
  state := .holds
    { coreVersion := "0.0.0", appliedSkills := [⟨"clock", "1.0.0", []⟩, ⟨"notes", "1.0.0", []⟩] }

-- Nothing fails from outside. The tool is gone, and the replay ends with an error.
theorem tool_lost_by_failed_uninstall :
    ¬ FailsUnchanged (sampleEnv [clock, notes]) UninstallResult.success
      (uninstallSkill (sampleEnv [clock, notes]) "clock") clockWorld :=
  not_failsUnchanged (p := clockTool) (by decide +kernel) (by decide +kernel)

end Counterexample

end EvoClaw.SkillsEngine
