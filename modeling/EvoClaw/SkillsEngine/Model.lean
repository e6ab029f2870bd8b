import EvoClaw.EventSystem.Script
import EvoClaw.Json
import EvoClaw.Posix.Path
import EvoClaw.Posix.Tree
import EvoClaw.Text.Lines

namespace EvoClaw.SkillsEngine

open Posix

-- A place relative to the project root. A place outside the project begins with the name "/".
abbrev Place := List Name

abbrev Files (β : Type) := Tree Name β

def EVOCLAW_DIR : Name := ".evoclaw".toList

def SKILLS_SCHEMA_VERSION : String := "0.1.0"

def BASE_INCLUDES : List String := ["host/", "container/", "run.py", ".env.example"]

def BASE_EXCLUDES : List String :=
  ["__pycache__", ".evoclaw", ".git", "dist", "data", "groups", "store", "logs", ".venv", "venv",
    "node_modules"]

def TOMBSTONE_SUFFIX : Name := ".tombstone".toList

-- project_root / path
def place (path : String) : Place :=
  let path := Path.parse path.toList
  if path.root.isSome then ['/'] :: path.parts else path.parts

def isOutside (p : Place) : Bool :=
  p.head? = some ['/']

def fileName (p : Place) : Name :=
  p.getLastD []

def withSuffix (p : Place) (suffix : Name) : Place :=
  p.dropLast ++ [fileName p ++ suffix]

-- path.parent / (path.name + ".tmp")
def tmpOf (p : Place) : Place :=
  withSuffix p ".tmp".toList

section Manifests

-- An entry of file_ops. A key that is missing is empty.
structure FileOp where
  kind : String
  source : String := ""
  dest : String := ""
  path : String := ""

structure Structured where
  npmDependencies : List (String × String) := []
  envAdditions : List String := []

-- What read_manifest has accepted. A text that is missing is empty.
structure Manifest where
  skill : String
  version : String
  coreVersion : String
  adds : List String := []
  modifies : List String := []
  conflicts : List String := []
  depends : List String := []
  fileOps : List FileOp := []
  structured : Structured := {}
  test : String := ""
  minSkillsSystemVersion : String := ""
  postApply : List String := []
  containerTools : List String := []

-- A skill directory: its manifest, and what stands in add/ (if there is one) and modify/.
structure Skill (β : Type) where
  manifest : Manifest
  add : Option (Files β)
  modify : Files β

end Manifests

section States

structure AppliedSkill where
  name : String
  version : String
  fileHashes : List (String × String)
deriving DecidableEq

structure CustomModification where
  filesModified : List String
  patchFile : String
deriving DecidableEq

structure SkillState where
  coreVersion : String
  appliedSkills : List AppliedSkill := []
  customModifications : List CustomModification := []
  pathRemap : List (String × String) := []
deriving DecidableEq

-- state.yaml. From an unreadable one read_state raises.
inductive StateFile where
  | missing
  | unreadable
  | holds (state : SkillState)
deriving DecidableEq

structure World (β : Type) where
  project : Files β
  base : Files β
  backup : Files β
  state : StateFile
  customizing : Bool := false
  -- the local variable added_files of apply_skill
  addedFiles : List Place := []

def World.applied {β : Type} (world : World β) : List AppliedSkill :=
  match world.state with
  | .holds state => state.appliedSkills
  | _ => []

-- A project before the engine has been used in it.
def World.initial {β : Type} (project : Files β) : World β :=
  { project := project, base := {}, backup := {}, state := .missing }

end States

-- What the engine uses from outside of it.
structure Env (β : Type) where
  toolsDir : Place
  -- the skill directory of a name below skills/
  find : String → Option (Skill β)
  find_name : ∀ name skill, find name = some skill → skill.manifest.skill = name
  -- git merge-file: the result, and whether it is clean
  merge : β → β → β → Option (β × Bool)
  hash : β → String
  decode : β → Option (List Char)
  encode : List Char → β
  decode_encode : ∀ text, decode (encode text) = some text
  -- the dependencies of a package.json, and the package.json with other dependencies
  dependencies : β → Option (List (String × String))
  setDependencies : β → List (String × String) → β
  dependencies_set : ∀ package deps, dependencies (setDependencies package deps) = some deps
  set_set : ∀ package deps others,
    setDependencies (setDependencies package deps) others = setDependencies package others
  -- the order of a set
  arrange : List String → List String
  arrange_perm : ∀ paths, (arrange paths).Perm paths
  coreVersion : Files β → String
  diff : Place → β → β → Option String
  -- the patch program: its exit code, and what it leaves
  patch : Option (String → Files β → Nat × Files β)

inductive Error where
  | calledProcess
  | fileNotFound
  | other
deriving DecidableEq

inductive Area where
  | project
  | base
  | backup
deriving DecidableEq

inductive Op (β : Type) : Type → Type where
  | acquireLock : Op β Unit
  | releaseLock : Op β Unit
  | readManifest (skill : Skill β) : Op β Manifest
  | findSkillDir (name : String) : Op β (Option (Skill β))
  | stateExists : Op β Bool
  | readState : Op β SkillState
  | writeState (state : SkillState) : Op β Unit
  | isCustomizeActive : Op β Bool
  | snapshotBase : Op β String
  | occupied (area : Area) (p : Place) : Op β Bool
  | isDir (area : Area) (p : Place) : Op β Bool
  | fetch (area : Area) (p : Place) : Op β (Node β)
  | read (area : Area) (p : Place) : Op β β
  | makeDirs (area : Area) (p : Place) : Op β Unit
  | copy (area : Area) (source : Node β) (name : Name) (p : Place) : Op β Unit
  | write (area : Area) (p : Place) (content : β) : Op β Unit
  | replace (source dest : Place) : Op β Unit
  | unlink (missingOk : Bool) (p : Place) : Op β Unit
  -- what stands in a tree, and the removal of one of these places from it
  | below (area : Area) (root : Place) : Op β (List Place)
  | discard (area : Area) (root p : Place) : Op β Unit
  | move (source dest : Place) : Op β Unit
  | startAdded : Op β Unit
  | noteAdded (p : Place) : Op β Unit
  | addedFiles : Op β (List Place)
  | backupFiles : Op β (List Place)
  | merge (ours base theirs : β) : Op β (β × Bool)
  | runCommand (command : String) : Op β Unit
  | runTest (command : String) : Op β Unit
  | savePatch (text : String) : Op β Unit
  | runPatch (text : String) : Op β Nat

section Performing

variable {β : Type}

def World.files (world : World β) : Area → Files β
  | .project => world.project
  | .base => world.base
  | .backup => world.backup

def World.setFiles (world : World β) (files : Files β) : Area → World β
  | .project => { world with project := files }
  | .base => { world with base := files }
  | .backup => { world with backup := files }

def World.change (world : World β) (area : Area) (f : Files β → Option (Files β)) :
    Except Error Unit × World β :=
  match f (world.files area) with
  | some files => (.ok (), world.setFiles files area)
  | none => (.error .other, world)

-- The base snapshot: what BASE_INCLUDES name, without what lies below an excluded name.
def snapshot (project : Files β) : Files β :=
  ⟨project.entries.filter fun entry =>
    BASE_INCLUDES.any fun included =>
      place included <+: entry.1 ∧
        (entry.1.drop (place included).length).all fun name => String.ofList name ∉ BASE_EXCLUDES⟩

-- Only a command raises a CalledProcessError, and read_state raises a FileNotFoundError exactly
-- when there is no state.yaml.
def mayFail {α : Type} : Op β α → Error → Bool
  | .runCommand _, _ | .runTest _, _ => true
  | .readState, error => error = .other
  | _, error => error ≠ .calledProcess

def perform (env : Env β) {α : Type} : Op β α → World β → Except Error α × World β
  | .acquireLock, world => (.ok (), world)
  | .releaseLock, world => (.ok (), world)
  | .readManifest skill, world => (.ok skill.manifest, world)
  | .findSkillDir name, world => (.ok (env.find name), world)
  | .stateExists, world => (.ok (world.state ≠ .missing), world)
  | .readState, world =>
      match world.state with
      | .missing => (.error .fileNotFound, world)
      | .unreadable => (.error .other, world)
      | .holds state => (.ok state, world)
  | .writeState state, world => (.ok (), { world with state := .holds state })
  | .isCustomizeActive, world => (.ok world.customizing, world)
  | .snapshotBase, world =>
      (.ok (env.coreVersion world.project), { world with base := snapshot world.project })
  | .occupied area p, world => (.ok ((world.files area).occupied p), world)
  | .isDir area p, world => (.ok ((world.files area).isDir p), world)
  | .fetch area p, world =>
      match (world.files area).get p with
      | some node => (.ok node, world)
      | none => (.error .fileNotFound, world)
  | .read area p, world =>
      match (world.files area).fileAt p with
      | some content => (.ok content, world)
      | none => (.error .other, world)
  | .makeDirs area p, world => world.change area fun files => files.makeDirs p
  | .copy area source name p, world => world.change area fun files => files.copy source name p
  | .write area p content, world => world.change area fun files => files.write p content
  | .replace source dest, world => world.change .project fun files => files.rename source dest
  | .unlink missingOk p, world => world.change .project fun files => files.unlink missingOk p
  | .below area root, world => (.ok ((world.files area).below root), world)
  | .discard area _ p, world => (.ok (), world.setFiles ((world.files area).remove p) area)
  | .move source dest, world => world.change .project fun files => files.move source dest
  | .startAdded, world => (.ok (), { world with addedFiles := [] })
  | .noteAdded p, world => (.ok (), { world with addedFiles := world.addedFiles ++ [p] })
  | .addedFiles, world => (.ok world.addedFiles, world)
  | .backupFiles, world => (.ok world.backup.files, world)
  | .merge ours base theirs, world =>
      match env.merge ours base theirs with
      | some merged => (.ok merged, world)
      | none => (.error .other, world)
  | .runCommand _, world => (.ok (), world)
  | .runTest _, world => (.ok (), world)
  | .savePatch _, world => (.ok (), world)
  | .runPatch text, world =>
      match env.patch with
      | none => (.error .other, world)
      | some patch =>
          let (code, project) := patch text world.project
          (.ok code, { world with project := project })

-- The engine as a system of operations.
def engine (env : Env β) : Script.Semantics (Op β) Error (World β) where
  perform := perform env
  mayFail := mayFail

end Performing

section Sample

-- Contents that are texts or the dependencies of a package.json.
inductive Sample where
  | text (text : List Char)
  | package (deps : List (String × String))
deriving DecidableEq

def Sample.ofString (text : String) : Sample := .text text.toList

-- A three-way merge of whole files.
def mergeWhole (ours base theirs : Sample) : Option (Sample × Bool) :=
  if ours = base then some (theirs, true)
  else if theirs = base ∨ theirs = ours then some (ours, true)
  else some (ours, false)

def sampleEnv (skills : List (Skill Sample)) : Env Sample where
  toolsDir := place "data/dynamic_tools"
  find name := skills.find? fun skill => skill.manifest.skill = name
  find_name name skill h := by simpa using List.find?_some h
  merge := mergeWhole
  hash
    | .text text => String.ofList text
    | .package _ => ""
  decode
    | .text text => some text
    | .package _ => none
  encode := .text
  decode_encode _ := rfl
  dependencies
    | .package deps => some deps
    | .text _ => none
  setDependencies _ := .package
  dependencies_set _ _ := rfl
  set_set _ _ _ := rfl
  arrange paths := paths
  arrange_perm := .refl
  coreVersion _ := "0.0.0"
  diff _ base current := if base = current then none else some "difference"
  patch := none

end Sample

end EvoClaw.SkillsEngine
