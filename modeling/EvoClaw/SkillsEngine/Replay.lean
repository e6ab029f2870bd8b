import EvoClaw.SkillsEngine.Apply

namespace EvoClaw.SkillsEngine

open Posix Script

variable {β : Type}

section Replay

inductive ReplayError where
  | missingSkillDir (name : String)
  | fileOps (name : String) (errors : List FileOpError)
  | mergeConflicts (paths : List String)
  | failed (name : String)
deriving DecidableEq

structure ReplayResult where
  success : Bool
  -- the skills that were replayed, each with its success
  perSkill : List (String × Bool) := []
  error : Option ReplayError := none

variable (env : Env β) (remap : List (String × String))

-- The manifests of the skills, read one by one, up to the first name without a directory.
def collectTouched (dirs : List (String × Skill β)) :
    List String → Engine β (Except String (List String))
  | [] => return .ok []
  | name :: rest =>
      match dirs.lookup name with
      | none => return .error name
      | some skill => do
          let manifest ← op (.readManifest skill)
          match ← collectTouched dirs rest with
          | .error missing => return .error missing
          | .ok touched => return .ok (manifest.adds ++ manifest.modifies ++ touched)

-- A touched file goes back to its base copy, or goes if it has none.
def resetFile (rel : String) : Engine β Unit := do
  let resolved := place (resolvePathRemap rel remap)
  if ← op (.occupied .base resolved) then
    op (.makeDirs .project resolved.dropLast)
    copy2 .base resolved .project resolved
  else if ← op (.occupied .project resolved) then
    op (.unlink false resolved)

def replayAdd (add : Files β) (rel : String) : Engine β Unit :=
  match add.get (place rel) with
  | none => return ()
  | some source => do
      let dest := place (resolvePathRemap rel remap)
      op (.makeDirs .project dest.dropLast)
      op (.copy .project source (fileName (place rel)) dest)

def replayAdds (skill : Skill β) : Engine β Unit :=
  match skill.add with
  | none => return ()
  | some add => skill.manifest.adds.forM (replayAdd remap add)

-- A file that the skill does not have is a conflict.
def replayModify (skill : Skill β) (rel : String) : Engine β (List String) :=
  match skill.modify.get (place rel) with
  | none => return [rel]
  | some source => do
      let resolved := resolvePathRemap rel remap
      let conflict ← mergeInto (place resolved) source (fileName (place rel))
      return if conflict then [resolved] else []

-- The modified files that end in a conflict.
def replayModified (skill : Skill β) : List String → Engine β (List String)
  | [] => return []
  | rel :: rest => do
      let conflict ← replayModify remap skill rel
      let conflicts ← replayModified skill rest
      return conflict ++ conflicts

-- What one skill of the loop ends with.
inductive Replayed where
  | applied
  | fileOps (errors : List FileOpError)
  | conflicts (paths : List String)
  | failed

def replayFiles (skill : Skill β) : Engine β Replayed :=
  tryCatch (do
    let manifest ← op (.readManifest skill)
    let errors ← executeFileOps manifest.fileOps
    if errors ≠ [] then return .fileOps errors
    replayAdds remap skill
    let conflicts ← replayModified remap skill manifest.modifies
    return if conflicts = [] then .applied else .conflicts conflicts)
    fun _ => return .failed

-- dict.update
def updateKeys (dict others : List (String × String)) : List (String × String) :=
  others.foldl (fun dict entry => setKey dict entry.1 entry.2) dict

def replayNpm (incoming : List (String × String)) : Engine β Unit := do
  if incoming ≠ [] then
    match ← mergedPackage env incoming with
    | some package => op (.write .project packageJson package)
    | none => return ()

def replayEnv (incoming : List String) : Engine β Unit := do
  if incoming ≠ [] then
    let content ← mergedEnv env incoming
    op (.write .project envExample content)

def collect (collected : Structured) (structured : Structured) : Structured where
  npmDependencies := updateKeys collected.npmDependencies structured.npmDependencies
  envAdditions := collected.envAdditions ++ structured.envAdditions

-- Steps 3 and 4. What the skills ask for is collected, and merged at the end.
def replayLoop (collected : Structured) (perSkill : List (String × Bool)) :
    List (String × Skill β) → Engine β ReplayResult
  | [] => do
      replayNpm env collected.npmDependencies
      replayEnv env collected.envAdditions
      return { success := true, perSkill := perSkill }
  | (name, skill) :: rest => do
      match ← replayFiles remap skill with
      | .applied =>
          replayLoop (collect collected skill.manifest.structured) (perSkill ++ [(name, true)]) rest
      | .fileOps errors =>
          return { success := false, perSkill := perSkill ++ [(name, false)],
                   error := some (.fileOps name errors) }
      | .conflicts paths =>
          return { success := false, perSkill := perSkill ++ [(name, false)],
                   error := some (.mergeConflicts paths) }
      | .failed =>
          return { success := false, perSkill := perSkill ++ [(name, false)],
                   error := some (.failed name) }

def replaySkills (names : List String) (dirs : List (String × Skill β)) :
    Engine β ReplayResult := do
  let remap ← loadPathRemap
  match ← collectTouched dirs names with
  | .error missing =>
      return { success := false, perSkill := [(missing, false)],
               error := some (.missingSkillDir missing) }
  | .ok touched => do
      (env.arrange touched.dedup).forM (resetFile remap)
      replayLoop env remap {} [] (names.filterMap fun name => (dirs.lookup name).map (name, ·))

end Replay

section Uninstall

variable (env : Env β)

inductive UninstallError where
  | notApplied
  | skillDirNotFound (name : String)
  | replay (error : Option ReplayError)
deriving DecidableEq

structure UninstallResult where
  success : Bool
  skill : String
  -- the patch with custom modifications of the skill's files
  customPatch : Option String := none
  replayResults : List (String × Bool) := []
  error : Option UninstallError := none

-- The skills' directories, or the first name without one.
def findDirs : List String → Engine β (Except String (List (String × Skill β)))
  | [] => return .ok []
  | name :: rest => do
      match ← op (.findSkillDir name) with
      | none => return .error name
      | some skill =>
          match ← findDirs rest with
          | .error missing => return .error missing
          | .ok dirs => return .ok ((name, skill) :: dirs)

-- The patch of the last custom modification of a file of the skill.
def customPatch (applied : List AppliedSkill) (mods : List CustomModification)
    (skillName : String) : Option String :=
  match applied.find? (·.name = skillName) with
  | none => none
  | some skill =>
      (mods.reverse.find? fun mod =>
        skill.fileHashes.any fun entry => entry.1 ∈ mod.filesModified).map (·.patchFile)

def removeTool (rel : String) : Engine β Unit := do
  if ← op (.occupied .project (toolPlace env rel)) then op (.unlink false (toolPlace env rel))

-- An exception only ends the removal.
def removeTools (skillName : String) : Engine β Unit := do
  match ← op (.findSkillDir skillName) with
  | none => return ()
  | some skill =>
      tryCatch (do
        let manifest ← op (.readManifest skill)
        manifest.containerTools.forM (removeTool env))
        fun _ => return ()

def uninstallSkill (skillName : String) : Engine β UninstallResult := do
  let state ← op .readState
  let names := state.names
  if skillName ∉ names then
    return { success := false, skill := skillName, error := some .notApplied }
  let remaining := names.filter (· ≠ skillName)
  match ← findDirs remaining with
  | .error name =>
      return { success := false, skill := skillName, error := some (.skillDirNotFound name) }
  | .ok dirs => do
      let snapshot ← op .readState
      let patch := customPatch state.appliedSkills snapshot.customModifications skillName
      removeTools env skillName
      op .acquireLock
      tryFinally (do
        let result ← replaySkills env remaining dirs
        if !result.success then
          return { success := false, skill := skillName, replayResults := result.perSkill,
                   error := some (.replay result.error) }
        let current ← op .readState
        op (.writeState (current.without skillName))
        return { success := true, skill := skillName, customPatch := patch,
                 replayResults := result.perSkill })
        (op .releaseLock)

end Uninstall

section Rebase

variable (env : Env β)

inductive RebaseError where
  | skillDirNotFound (name : String)
  | replay (error : Option ReplayError)
deriving DecidableEq

structure RebaseResult where
  success : Bool
  filesInPatch : Nat := 0
  error : Option RebaseError := none

-- The difference of a tracked file to its base copy. An unreadable file is skipped.
def diffFile (p : Place) : Engine β (Option String) := do
  if (← op (.occupied .project p)) && (← op (.occupied .base p)) then
    tryCatch (do
      let base ← op (.read .base p)
      let current ← op (.read .project p)
      return env.diff p base current)
      fun _ => return none
  else return none

def collectPatch : List String → Engine β (List String)
  | [] => return []
  | rel :: rest => do
      let part ← diffFile env (place rel)
      let parts ← collectPatch rest
      return part.toList ++ parts

-- What the patch program does or fails to do is only reported.
def applyPatch (text : String) : Engine β Unit :=
  if strip text.toList = [] then return ()
  else if env.patch.isSome then
    tryCatch (do
      let _ ← op (.runPatch text)
      return ())
      fun _ => return ()
  else return ()

def rebase : Engine β RebaseResult := do
  let state ← op .readState
  if state.appliedSkills = [] then return { success := true }
  match ← findDirs state.names with
  | .error name => return { success := false, error := some (.skillDirNotFound name) }
  | .ok dirs => do
      let tracked := state.appliedSkills.flatMap fun skill => skill.fileHashes.map Prod.fst
      op .acquireLock
      tryFinally (do
        let parts ← collectPatch env tracked.eraseDups
        let text := "\n".intercalate parts
        op (.savePatch text)
        let result ← replaySkills env state.names dirs
        if !result.success then
          return { success := false, filesInPatch := parts.length,
                   error := some (.replay result.error) }
        applyPatch env text
        let current ← op .readState
        op (.writeState current)
        return { success := true, filesInPatch := parts.length })
        (op .releaseLock)

end Rebase

end EvoClaw.SkillsEngine
