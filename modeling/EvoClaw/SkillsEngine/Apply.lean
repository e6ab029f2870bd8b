import EvoClaw.SkillsEngine.Files

namespace EvoClaw.SkillsEngine

open Posix Script

variable {β : Type}

section Versions

def compareParts : List Int → List Int → Int
  | [], [] => 0
  | x :: xs, [] => if x = 0 then compareParts xs [] else x
  | [], y :: ys => if y = 0 then compareParts [] ys else -y
  | x :: xs, y :: ys => if x = y then compareParts xs ys else x - y

-- int() of each part, which may raise
def semverParts (version : String) : Option (List Int) :=
  (version.toList.splitOn '.').mapM fun part => intOfText (String.ofList part)

def compareSemver (a b : String) : Option Int := do
  let partsA ← semverParts a
  let partsB ← semverParts b
  return compareParts partsA partsB

end Versions

inductive ApplyError where
  | systemVersion
  | customizeActive
  | missingDependencies (missing : List String)
  | conflictingSkills (conflicting : List String)
  | fileOps (errors : List FileOpError)
  | mergeConflicts (paths : List String)
  | postApply (command : String)
  | tests
deriving DecidableEq

structure ApplyResult where
  success : Bool
  skill : String
  version : String
  untrackedChanges : List String := []
  error : Option ApplyError := none

def refuse (manifest : Manifest) (error : ApplyError) : ApplyResult :=
  { success := false, skill := manifest.skill, version := manifest.version, error := some error }

section Preflight

def initEvoclawDir : Engine β Unit := do
  let coreVersion ← op .snapshotBase
  op (.writeState { coreVersion := coreVersion })

def checkSystemVersion (manifest : Manifest) : Engine β Bool :=
  if manifest.minSkillsSystemVersion = "" then return true
  else do
    let cmp ← orFail .other (compareSemver manifest.minSkillsSystemVersion SKILLS_SCHEMA_VERSION)
    return cmp ≤ 0

-- It only warns, but the versions have to be readable.
def checkCoreVersion (manifest : Manifest) : Engine β Unit := do
  let state ← op .readState
  let _ ← orFail .other (compareSemver manifest.coreVersion state.coreVersion)
  return ()

def SkillState.names (state : SkillState) : List String :=
  state.appliedSkills.map AppliedSkill.name

-- The dependencies that are missing.
def checkDependencies (manifest : Manifest) : Engine β (List String) := do
  let state ← op .readState
  return manifest.depends.filter (· ∉ state.names)

-- The conflicts that are applied.
def checkConflicts (manifest : Manifest) : Engine β (List String) := do
  let state ← op .readState
  return manifest.conflicts.filter (· ∈ state.names)

def ensureState : Engine β Unit := do
  if !(← op .stateExists) then initEvoclawDir

def preflight (manifest : Manifest) : Engine β (Option ApplyError) := do
  ensureState
  let _ ← op .readState
  if !(← checkSystemVersion manifest) then return some .systemVersion
  checkCoreVersion manifest
  if ← op .isCustomizeActive then return some .customizeActive
  let missing ← checkDependencies manifest
  if missing ≠ [] then return some (.missingDependencies missing)
  let conflicting ← checkConflicts manifest
  if conflicting ≠ [] then return some (.conflictingSkills conflicting)
  return none

def hasDrifted (env : Env β) (resolved : Place) : Engine β Bool := do
  if (← op (.occupied .project resolved)) && (← op (.occupied .base resolved)) then
    let current ← op (.read .project resolved)
    let base ← op (.read .base resolved)
    return env.hash current != env.hash base
  else return false

-- The modified files that differ from their base copies.
def detectDrift (env : Env β) (remap : List (String × String)) :
    List String → Engine β (List String)
  | [] => return []
  | rel :: rest => do
      let drifted ← hasDrifted env (place (resolvePathRemap rel remap))
      let others ← detectDrift env remap rest
      return if drifted then rel :: others else others

end Preflight

section Body

variable (env : Env β) (remap : List (String × String))

def filesToBackup (manifest : Manifest) : List Place :=
  manifest.modifies.map (fun rel => place (resolvePathRemap rel remap)) ++
    manifest.adds.map (fun rel => place (resolvePathRemap rel remap)) ++
    (manifest.fileOps.filter fun fileOp => fileOp.source ≠ "").map
      (fun fileOp => place (resolvePathRemap fileOp.source remap)) ++
    [place "requirements.txt", place ".env.example", place "docker-compose.yml"]

def noteIfNew (dest : Place) : Engine β Unit := do
  if !(← op (.occupied .project dest)) then op (.noteAdded dest)

def addFile (add : Files β) (rel : String) : Engine β Unit := do
  let dest := place (resolvePathRemap rel remap)
  noteIfNew dest
  match add.get (place rel) with
  | none => return ()
  | some source => do
      op (.makeDirs .project dest.dropLast)
      atomicCopy source (fileName (place rel)) dest

def addFiles (skill : Skill β) : Engine β Unit :=
  match skill.add with
  | none => return ()
  | some add => skill.manifest.adds.forM (addFile remap add)

def toolPlace (rel : String) : Place :=
  env.toolsDir ++ [fileName (place rel)]

def installTool (add : Option (Files β)) (rel : String) : Engine β Unit :=
  match add.bind (·.get (place rel)) with
  | none => return ()
  | some source => atomicCopy source (fileName (place rel)) (toolPlace env rel)

def installTools (skill : Skill β) : Engine β Unit :=
  if skill.manifest.containerTools = [] then return ()
  else do
    op (.makeDirs .project env.toolsDir)
    skill.manifest.containerTools.forM (installTool env skill.add)

-- The modified files that end in a conflict.
def mergeModified (skill : Skill β) : List String → Engine β (List String)
  | [] => return []
  | rel :: rest => do
      let source ← orFail .fileNotFound (skill.modify.get (place rel))
      let conflict ← mergeInto (place (resolvePathRemap rel remap)) source (fileName (place rel))
      let conflicts ← mergeModified skill rest
      return if conflict then rel :: conflicts else conflicts

def applyNpm (incoming : List (String × String)) : Engine β Unit := do
  if incoming ≠ [] then
    match ← mergedPackage env incoming with
    | some package => atomicWriteText packageJson package
    | none => return ()

def applyEnv (incoming : List String) : Engine β Unit := do
  if incoming ≠ [] then
    let content ← mergedEnv env incoming
    atomicWriteText envExample content

-- The way back: added files go, and the backup comes back. It is taken to work.
def bringBack : Engine β Unit :=
  surely do
    let added ← op .addedFiles
    added.forM fun p => op (.unlink true p)
    restoreBackup

-- The exit after a failure.
def undo : Engine β Unit := do
  bringBack
  clearBackup

def POST_APPLY_ALLOWED_PREFIXES : List String :=
  ["pip install", "pip3 install", "python -m pip install", "python3 -m pip install", "npm install",
    "npm ci", "yarn install", "python -m pytest", "python3 -m pytest", "pytest"]

def isAllowed (command : String) : Bool :=
  let lower := (strip command.toList).map Char.toLower
  POST_APPLY_ALLOWED_PREFIXES.any fun allowed => allowed.toList.isPrefixOf lower

-- The command that has failed. Other commands than the allowed ones are skipped.
def runPostApply : List String → Engine β (Option String)
  | [] => return none
  | command :: rest =>
      if isAllowed command then do
        let failed ← tryCatch (do
          op (.runCommand command)
          return false)
          fun error => if error = .calledProcess then (do undo; return true) else fail error
        if failed then return some command else runPostApply rest
      else runPostApply rest

-- dict[key] = value
def setKey (dict : List (String × String)) (key value : String) : List (String × String) :=
  if (dict.lookup key).isSome then dict.map fun entry => if entry.1 = key then (key, value) else entry
  else dict ++ [(key, value)]

def hashFiles : List (String × String) → List String → Engine β (List (String × String))
  | hashes, [] => return hashes
  | hashes, rel :: rest => do
      let resolved := resolvePathRemap rel remap
      if ← op (.occupied .project (place resolved)) then
        let content ← op (.read .project (place resolved))
        hashFiles (setKey hashes resolved (env.hash content)) rest
      else hashFiles hashes rest

def SkillState.without (state : SkillState) (name : String) : SkillState :=
  { state with appliedSkills := state.appliedSkills.filter (·.name ≠ name) }

def recordSkillApplication (manifest : Manifest) (hashes : List (String × String)) :
    Engine β Unit := do
  let state ← op .readState
  let rest := state.without manifest.skill
  op (.writeState { rest with
    appliedSkills := rest.appliedSkills ++ [⟨manifest.skill, manifest.version, hashes⟩] })

-- A failing test also takes the skill out of the state. True is a failure.
def runTests (manifest : Manifest) : Engine β Bool :=
  if manifest.test = "" then return false
  else
    tryCatch (do
      op (.runTest manifest.test)
      return false)
      fun error =>
        if error = .calledProcess then do
          bringBack
          let state ← op .readState
          op (.writeState (state.without manifest.skill))
          clearBackup
          return true
        else fail error

def restoreAndClear : Engine β Unit := do
  surely restoreBackup
  clearBackup

-- The changes to the project. Some error is an exit that has undone them.
def changeProject (skill : Skill β) : Engine β (Option ApplyError) := do
  let manifest := skill.manifest
  createBackup env (filesToBackup remap manifest)
  let errors ← executeFileOps manifest.fileOps
  if errors ≠ [] then
    restoreAndClear
    return some (.fileOps errors)
  addFiles remap skill
  installTools env skill
  let conflicts ← mergeModified remap skill manifest.modifies
  if conflicts ≠ [] then
    restoreAndClear
    return some (.mergeConflicts conflicts)
  applyNpm env manifest.structured.npmDependencies
  applyEnv env manifest.structured.envAdditions
  let failed ← runPostApply manifest.postApply
  return failed.map .postApply

def recordAndTest (skill : Skill β) : Engine β (Option ApplyError) := do
  let manifest := skill.manifest
  let hashes ← hashFiles env remap [] (manifest.adds ++ manifest.modifies)
  recordSkillApplication manifest hashes
  if ← runTests manifest then return some .tests
  clearBackup
  return none

-- What apply_skill does between the lock and its release.
def applyLocked (skill : Skill β) : Engine β (Option ApplyError) :=
  tryCatch (do
    match ← changeProject env remap skill with
    | some error => return some error
    | none => recordAndTest env remap skill)
    fun error => do
      undo
      fail error

-- The drift is reported with a success and with merge conflicts.
def applyResult (manifest : Manifest) (drift : List String) : Option ApplyError → ApplyResult
  | none =>
      { success := true, skill := manifest.skill, version := manifest.version,
        untrackedChanges := drift }
  | some (.mergeConflicts paths) =>
      { refuse manifest (.mergeConflicts paths) with untrackedChanges := drift }
  | some error => refuse manifest error

end Body

def applySkill (env : Env β) (skill : Skill β) : Engine β ApplyResult := do
  let manifest ← op (.readManifest skill)
  match ← preflight manifest with
  | some error => return refuse manifest error
  | none => do
      let remap ← loadPathRemap
      let drift ← detectDrift env remap manifest.modifies
      op .acquireLock
      surely (op .startAdded)
      let error ← tryFinally (applyLocked env remap skill) (op .releaseLock)
      return applyResult manifest drift error

end EvoClaw.SkillsEngine
