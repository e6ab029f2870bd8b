import EvoClaw.SkillsEngine.Replay

-- What the parts of the engine leave alone.
namespace EvoClaw.SkillsEngine

open Posix Script

variable {β : Type}

-- The operations that do not write state.yaml.
def SparesState : Bool → (α : Type) → Op β α → Prop
  | _, _, .writeState _ => False
  | _, _, _ => True

-- Those of them that can fail.
def Plain (sure : Bool) (α : Type) (op : Op β α) : Prop :=
  sure = false ∧ SparesState sure α op

theorem spares_of_plain {α : Type} {script : Engine β α} (h : Within Plain script) :
    Within SparesState script :=
  h.mono fun _ _ _ hplain => hplain.2

theorem spares_surely {α : Type} {script : Engine β α} (h : Within SparesState script) :
    Within SparesState script.surely := by
  refine h.surely fun sure α op hspares => ?_
  cases op <;> exact hspares

-- The operations that change nothing.
def Looks (_ : Bool) (α : Type) (op : Op β α) : Prop :=
  ∀ (env : Env β) world, (perform env op world).2 = world

def Reads (sure : Bool) (α : Type) (op : Op β α) : Prop :=
  Plain sure α op ∧ Looks sure α op

section Reads

theorem plain_of_reads {α : Type} {script : Engine β α} (h : Within Reads script) :
    Within Plain script :=
  h.mono fun _ _ _ hreads => hreads.1

theorem spares_of_reads {α : Type} {script : Engine β α} (h : Within Reads script) :
    Within SparesState script :=
  spares_of_plain (plain_of_reads h)

theorem looks_of_reads {α : Type} {script : Engine β α} (h : Within Reads script) :
    Within Looks script :=
  h.mono fun _ _ _ hreads => hreads.2

-- An operation whose answer does not depend on a case of the state.
theorem reads_op {α : Type} {o : Op β α} (hspares : SparesState false α o)
    (hlooks : ∀ (env : Env β) world, (perform env o world).2 = world) :
    Within Reads (op o : Engine β α) :=
  .op ⟨⟨rfl, hspares⟩, hlooks⟩

theorem reads_readState : Within Reads (op .readState : Engine β SkillState) := by
  refine reads_op trivial fun env world => ?_
  simp only [perform]
  split <;> rfl

theorem reads_read (area : Area) (p : Place) : Within Reads (op (.read area p) : Engine β β) := by
  refine reads_op trivial fun env world => ?_
  simp only [perform]
  split <;> rfl

theorem reads_occupied (area : Area) (p : Place) :
    Within Reads (op (.occupied area p) : Engine β Bool) :=
  reads_op trivial fun _ _ => rfl

theorem reads_readManifest (skill : Skill β) :
    Within Reads (op (.readManifest skill) : Engine β Manifest) :=
  reads_op trivial fun _ _ => rfl

theorem reads_loadPathRemap : Within Reads (loadPathRemap : Engine β _) :=
  .tryCatch ((reads_readState).bind fun _ => trivial) fun _ => .ite trivial trivial

theorem reads_mergedPackage (env : Env β) (incoming : List (String × String)) :
    Within Reads (mergedPackage env incoming) :=
  (reads_occupied _ _).bind fun _ =>
    .ite ((reads_read _ _).bind fun _ => (Within.orFail _ _).bind fun _ => trivial) trivial

theorem reads_mergedEnv (env : Env β) (incoming : List String) :
    Within Reads (mergedEnv env incoming) := by
  have hlines : Within Reads (envLines env) := (reads_occupied _ _).bind fun _ =>
    .ite ((reads_read _ _).bind fun _ => (Within.orFail _ _).bind fun _ => trivial) trivial
  exact hlines.bind fun _ => trivial

theorem reads_detectDrift (env : Env β) (remap : List (String × String)) (modifies : List String) :
    Within Reads (detectDrift env remap modifies) := by
  induction modifies with
  | nil => trivial
  | cons rel rest ih =>
      have hdrift : ∀ p, Within Reads (hasDrifted env p) := fun p =>
        (reads_occupied _ _).bind fun _ => (reads_occupied _ _).bind fun _ =>
          .ite ((reads_read _ _).bind fun _ => (reads_read _ _).bind fun _ => trivial) trivial
      exact (hdrift _).bind fun _ => ih.bind fun _ => trivial

theorem reads_hashFiles (env : Env β) (remap hashes : List (String × String))
    (rels : List String) : Within Reads (hashFiles env remap hashes rels) := by
  induction rels generalizing hashes with
  | nil => trivial
  | cons rel rest ih =>
      exact (reads_occupied _ _).bind fun _ => .ite ((reads_read _ _).bind fun _ => ih _) (ih _)

theorem reads_collectTouched (dirs : List (String × Skill β)) (names : List String) :
    Within Reads (collectTouched dirs names) := by
  induction names with
  | nil => trivial
  | cons name rest ih =>
      unfold collectTouched
      split
      · trivial
      · refine (reads_readManifest _).bind fun _ => ih.bind fun touched => ?_
        split <;> trivial

theorem reads_findDirs (names : List String) : Within Reads (findDirs names : Engine β _) := by
  induction names with
  | nil => trivial
  | cons name rest ih =>
      refine Within.bind (reads_op trivial fun _ _ => rfl) fun found => ?_
      split
      · trivial
      · refine ih.bind fun dirs => ?_
        split <;> trivial

theorem reads_diffFile (env : Env β) (p : Place) : Within Reads (diffFile env p) :=
  (reads_occupied _ _).bind fun _ => (reads_occupied _ _).bind fun _ =>
    .ite (.tryCatch ((reads_read _ _).bind fun _ => (reads_read _ _).bind fun _ => trivial)
      fun _ => trivial) trivial

theorem reads_collectPatch (env : Env β) (rels : List String) :
    Within Reads (collectPatch env rels) := by
  induction rels with
  | nil => trivial
  | cons rel rest ih => exact (reads_diffFile _ _).bind fun _ => ih.bind fun _ => trivial

theorem reads_checkSystemVersion (manifest : Manifest) :
    Within Reads (checkSystemVersion manifest : Engine β Bool) :=
  .ite trivial ((Within.orFail _ _).bind fun _ => trivial)

theorem reads_checkCoreVersion (manifest : Manifest) :
    Within Reads (checkCoreVersion manifest : Engine β Unit) :=
  (reads_readState).bind fun _ => (Within.orFail _ _).bind fun _ => trivial

theorem reads_isCustomizeActive : Within Reads (op .isCustomizeActive : Engine β Bool) :=
  reads_op trivial fun _ _ => rfl

-- With a state.yaml, the checks before an application only read.
theorem reads_preflight (manifest : Manifest) :
    ∃ checks : Engine β (Option ApplyError),
      preflight manifest = ensureState.bind (fun _ => checks) ∧ Within Reads checks := by
  refine ⟨_, rfl, (reads_readState).bind fun _ => ?_⟩
  have hdeps : Within Reads (checkDependencies manifest : Engine β _) :=
    (reads_readState).bind fun _ => trivial
  have hconflicts : Within Reads (checkConflicts manifest : Engine β _) :=
    (reads_readState).bind fun _ => trivial
  exact (reads_checkSystemVersion manifest).bind fun _ => .ite trivial <|
    (reads_checkCoreVersion manifest).bind fun _ => (reads_isCustomizeActive).bind fun _ =>
      .ite trivial <| hdeps.bind fun _ => .ite trivial <|
        hconflicts.bind fun _ => .ite trivial trivial

end Reads

theorem plain_copy2 (source : Area) (p : Place) (dest : Area) (q : Place) :
    Within Plain (copy2 source p dest q : Engine β Unit) :=
  (Within.op ⟨rfl, trivial⟩).bind fun _ => .op ⟨rfl, trivial⟩

theorem spares_restoreFile (p : Place) : Within SparesState (restoreFile p : Engine β Unit) :=
  .ite (.op trivial) ((Within.op trivial).bind fun _ => spares_of_plain (plain_copy2 _ _ _ _))

theorem spares_restoreBackup : Within SparesState (restoreBackup : Engine β Unit) :=
  (Within.op trivial).bind fun files => .forM files fun p _ => spares_restoreFile p

theorem plain_removeTree (area : Area) (root : Place) :
    Within Plain (removeTree area root : Engine β Unit) :=
  (Within.op ⟨rfl, trivial⟩).bind fun places => .forM places fun _ _ => .op ⟨rfl, trivial⟩

theorem spares_clearBackup : Within SparesState (clearBackup : Engine β Unit) :=
  spares_of_plain (plain_removeTree .backup [])

theorem spares_bringBack : Within SparesState (bringBack : Engine β Unit) :=
  spares_surely <| (Within.op trivial).bind fun added =>
    (Within.forM added fun _ _ => .op trivial).bind fun _ => spares_restoreBackup

theorem spares_undo : Within SparesState (undo : Engine β Unit) :=
  spares_bringBack.bind fun _ => spares_clearBackup

theorem spares_restoreAndClear : Within SparesState (restoreAndClear : Engine β Unit) :=
  (spares_surely spares_restoreBackup).bind fun _ => spares_clearBackup

theorem spares_atomicCopy (source : Node β) (name : Posix.Name) (dest : Place) :
    Within SparesState (atomicCopy source name dest) :=
  .tryFinally ((Within.op trivial).bind fun _ => .op trivial) (spares_surely (.op trivial))

theorem spares_atomicWriteText (p : Place) (content : β) :
    Within SparesState (atomicWriteText p content) :=
  .tryFinally ((Within.op trivial).bind fun _ => .op trivial) (spares_surely (.op trivial))

theorem plain_createBackup (env : Env β) (files : List Place) :
    Within Plain (createBackup env files) :=
  .forM files fun _ _ => .ite trivial <| (Within.op ⟨rfl, trivial⟩).bind fun _ =>
    (Within.op ⟨rfl, trivial⟩).bind fun _ => .ite (plain_copy2 _ _ _ _) (.op ⟨rfl, trivial⟩)

theorem plain_renameFile (fileOp : FileOp) : Within Plain (renameFile fileOp : Engine β _) := by
  unfold renameFile
  split
  · trivial
  · refine Within.bind ?_ fun _ => trivial
    exact (Within.op ⟨rfl, trivial⟩).bind fun _ =>
      .ite ((Within.op ⟨rfl, trivial⟩).bind fun _ => .op ⟨rfl, trivial⟩) trivial

theorem plain_deleteFile (fileOp : FileOp) : Within Plain (deleteFile fileOp : Engine β _) := by
  unfold deleteFile
  split
  · trivial
  · refine Within.bind ?_ fun _ => trivial
    exact (Within.op ⟨rfl, trivial⟩).bind fun _ => .ite
      ((Within.op ⟨rfl, trivial⟩).bind fun _ =>
        .ite (plain_removeTree .project _) (.op ⟨rfl, trivial⟩)) trivial

theorem plain_executeFileOps (fileOps : List FileOp) :
    Within Plain (executeFileOps fileOps : Engine β _) := by
  induction fileOps with
  | nil => trivial
  | cons fileOp rest ih =>
      have hone : Within Plain (executeFileOp fileOp : Engine β _) :=
        .tryCatch (.ite (plain_renameFile fileOp) (.ite (plain_deleteFile fileOp) trivial))
          fun _ => trivial
      exact hone.bind fun _ => ih.bind fun _ => trivial

theorem plain_mergeInto (resolved : Place) (source : Node β) (name : Posix.Name) :
    Within Plain (mergeInto resolved source name) := by
  have hbase : Within Plain (ensureBase resolved : Engine β Unit) :=
    (Within.op ⟨rfl, trivial⟩).bind fun _ =>
      .ite ((Within.op ⟨rfl, trivial⟩).bind fun _ => plain_copy2 _ _ _ _) trivial
  have hmerge : Within Plain (mergeFile resolved source) :=
    (Within.op ⟨rfl, trivial⟩).bind fun _ => (Within.op ⟨rfl, trivial⟩).bind fun _ =>
      (Within.orFail _ _).bind fun _ => (Within.op ⟨rfl, trivial⟩).bind fun _ =>
        (Within.op ⟨rfl, trivial⟩).bind fun _ => trivial
  exact (Within.op ⟨rfl, trivial⟩).bind fun _ => .ite (hbase.bind fun _ => hmerge)
    ((Within.op ⟨rfl, trivial⟩).bind fun _ => (Within.op ⟨rfl, trivial⟩).bind fun _ => trivial)

section Apply

variable (env : Env β) (remap : List (String × String))

theorem spares_addFiles (skill : Skill β) : Within SparesState (addFiles remap skill) := by
  have hadd : ∀ add rel, Within SparesState (addFile remap add rel : Engine β Unit) := by
    intro add rel
    have hnote : ∀ dest, Within SparesState (noteIfNew dest : Engine β Unit) := fun dest =>
      (Within.op trivial).bind fun _ => .ite (.op trivial) trivial
    refine (hnote _).bind fun _ => ?_
    split
    · trivial
    · exact (Within.op trivial).bind fun _ => spares_atomicCopy _ _ _
  unfold addFiles
  split
  · trivial
  · exact .forM _ fun rel _ => hadd _ rel

theorem spares_installTools (skill : Skill β) : Within SparesState (installTools env skill) := by
  have htool : ∀ rel, Within SparesState (installTool env skill.add rel) := by
    intro rel
    unfold installTool
    split
    · trivial
    · exact spares_atomicCopy _ _ _
  exact .ite trivial ((Within.op trivial).bind fun _ => .forM _ fun rel _ => htool rel)

theorem plain_mergeModified (skill : Skill β) (modifies : List String) :
    Within Plain (mergeModified remap skill modifies) := by
  induction modifies with
  | nil => trivial
  | cons rel rest ih =>
      exact (Within.orFail _ _).bind fun _ => (plain_mergeInto _ _ _).bind fun _ =>
        ih.bind fun _ => trivial

theorem spares_applyNpm (incoming : List (String × String)) :
    Within SparesState (applyNpm env incoming) := by
  refine .ite ((spares_of_reads (reads_mergedPackage env _)).bind fun package => ?_) trivial
  split
  · exact spares_atomicWriteText _ _
  · trivial

theorem spares_applyEnv (incoming : List String) : Within SparesState (applyEnv env incoming) :=
  .ite ((spares_of_reads (reads_mergedEnv env _)).bind fun _ => spares_atomicWriteText _ _) trivial

theorem spares_runPostApply (commands : List String) :
    Within SparesState (runPostApply commands : Engine β _) := by
  induction commands with
  | nil => trivial
  | cons command rest ih =>
      refine .ite (Within.bind (.tryCatch ((Within.op trivial).bind fun _ => trivial) fun error => ?_)
        fun _ => .ite trivial ih) ih
      exact .ite ((spares_undo).bind fun _ => trivial) trivial

theorem spares_changeProject (skill : Skill β) : Within SparesState (changeProject env remap skill) :=
  (spares_of_plain (plain_createBackup env _)).bind fun _ =>
    (spares_of_plain (plain_executeFileOps _)).bind fun _ =>
    .ite ((spares_restoreAndClear).bind fun _ => trivial) <|
      (spares_addFiles remap skill).bind fun _ => (spares_installTools env skill).bind fun _ =>
        (spares_of_plain (plain_mergeModified remap skill _)).bind fun _ =>
          .ite ((spares_restoreAndClear).bind fun _ => trivial) <|
            (spares_applyNpm env _).bind fun _ => (spares_applyEnv env _).bind fun _ =>
              (spares_runPostApply _).bind fun _ => trivial

end Apply

section Replay

variable (env : Env β) (remap : List (String × String))

theorem plain_resetFile (rel : String) : Within Plain (resetFile remap rel : Engine β _) :=
  (Within.op ⟨rfl, trivial⟩).bind fun _ =>
    .ite ((Within.op ⟨rfl, trivial⟩).bind fun _ => plain_copy2 _ _ _ _) <|
      (Within.op ⟨rfl, trivial⟩).bind fun _ => .ite (.op ⟨rfl, trivial⟩) trivial

theorem plain_replayAdds (skill : Skill β) : Within Plain (replayAdds remap skill) := by
  have hadd : ∀ add rel, Within Plain (replayAdd remap add rel : Engine β Unit) := by
    intro add rel
    unfold replayAdd
    split
    · trivial
    · exact (Within.op ⟨rfl, trivial⟩).bind fun _ => .op ⟨rfl, trivial⟩
  unfold replayAdds
  split
  · trivial
  · exact .forM _ fun rel _ => hadd _ rel

theorem plain_replayModified (skill : Skill β) (modifies : List String) :
    Within Plain (replayModified remap skill modifies) := by
  induction modifies with
  | nil => trivial
  | cons rel rest ih =>
      have hone : Within Plain (replayModify remap skill rel) := by
        unfold replayModify
        split
        · trivial
        · exact (plain_mergeInto _ _ _).bind fun _ => trivial
      exact hone.bind fun _ => ih.bind fun _ => trivial

theorem plain_replayFiles (skill : Skill β) : Within Plain (replayFiles remap skill) :=
  .tryCatch ((Within.op ⟨rfl, trivial⟩).bind fun _ => (plain_executeFileOps _).bind fun _ =>
    .ite trivial <| (plain_replayAdds remap skill).bind fun _ =>
      (plain_replayModified remap skill _).bind fun _ => trivial) fun _ => trivial

theorem plain_replayLoop (collected : Structured) (perSkill : List (String × Bool))
    (skills : List (String × Skill β)) :
    Within Plain (replayLoop env remap collected perSkill skills) := by
  induction skills generalizing collected perSkill with
  | nil =>
      have hnpm : Within Plain (replayNpm env collected.npmDependencies) := by
        refine .ite ((plain_of_reads (reads_mergedPackage env _)).bind fun package => ?_) trivial
        split
        · exact .op ⟨rfl, trivial⟩
        · trivial
      have henv : Within Plain (replayEnv env collected.envAdditions) :=
        .ite ((plain_of_reads (reads_mergedEnv env _)).bind fun _ => .op ⟨rfl, trivial⟩) trivial
      exact hnpm.bind fun _ => henv.bind fun _ => trivial
  | cons entry rest ih =>
      refine (plain_replayFiles remap entry.2).bind fun replayed => ?_
      split
      · exact ih _ _
      all_goals trivial

theorem plain_replaySkills (names : List String) (dirs : List (String × Skill β)) :
    Within Plain (replaySkills env names dirs) := by
  refine (plain_of_reads reads_loadPathRemap).bind fun remap => ?_
  refine (plain_of_reads (reads_collectTouched dirs names)).bind fun touched => ?_
  split
  · trivial
  · exact (Within.forM _ fun rel _ => plain_resetFile remap rel).bind fun _ =>
      plain_replayLoop env remap _ _ _

theorem plain_removeTools (skillName : String) : Within Plain (removeTools env skillName) := by
  refine (Within.op ⟨rfl, trivial⟩).bind fun found => ?_
  split
  · trivial
  · refine .tryCatch (Within.bind (.op ⟨rfl, trivial⟩) fun manifest => ?_) fun _ => trivial
    refine .forM _ fun rel _ => ?_
    exact (Within.op ⟨rfl, trivial⟩).bind fun _ => .ite (.op ⟨rfl, trivial⟩) trivial

end Replay

theorem change_state (world : World β) (area : Area) (f : Files β → Option (Files β)) :
    (world.change area f).2.state = world.state := by
  unfold World.change
  split
  · cases area <;> rfl
  · rfl

theorem perform_state (env : Env β) {α : Type} (op : Op β α) (world : World β)
    {sure : Bool} (h : SparesState sure α op) : (perform env op world).2.state = world.state := by
  cases op with
  | writeState state => exact h.elim
  | readState | fetch | read | merge | runPatch =>
      simp only [perform]
      split <;> rfl
  | makeDirs | copy | write | replace | unlink | move => exact change_state _ _ _
  | discard area root p => cases area <;> rfl
  | _ => rfl

-- Such a script leaves state.yaml as it is.
theorem spares_yields {env : Env β} {α : Type} {script : Engine β α} (h : Within SparesState script)
    (world : World β) :
    Yields (engine env) (fun _ after => after.state = world.state) script world :=
  h.yields (fun _ _ op before hspares hbefore => (perform_state env op before hspares).trans hbefore) rfl

end EvoClaw.SkillsEngine
