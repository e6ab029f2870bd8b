import EvoClaw.Ipc.Handler

namespace EvoClaw.Ipc

open Posix
open MessageLoop (Group upsertGroup)

structure SkillResult where
  success : Bool
  skill : String := ""
  version : String := ""
  error : String := ""
  mergeConflicts : List String := []
  customPatchWarning : String := ""

inductive SkillOutcome where
  | raised
  | timedOut
  | finished (result : SkillResult) (routeRaises : Bool)

-- How _run_start_remote_control ends.
inductive RemoteOutcome where
  | raised
  | reused (url : String)
  | openFailed (exc : String)
  | spawnFailed (exc : String)
  | died
  | ready (url : String)
  | timedOut

-- What the coroutine of a job meets while it runs, some time after the handler.
structure Surroundings where
  groups : List Group
  devTaskActive : Bool := false
  sessionFound : Bool := true
  engineTexts : List String := []
  skill : SkillOutcome := .raised
  listed : Bool := true
  subagentCancelled : Bool := false
  searched : Bool := true
  remote : RemoteOutcome := .timedOut
  updateTexts : List String := []
  restartError : Option String := none
  canWrite : Path → Bool := fun _ => true

def resultDir (settings : Settings) (folder : Folder) : Path :=
  ((settings.dataDir.child "ipc".toList).child folder.toList).child "results".toList

-- The temporary file, then the file that it is renamed to. The first one that cannot be
-- written ends the attempt.
def writeFiles (canWrite : Path → Bool) (tmp out : Path) : List Effect :=
  ([tmp, out].takeWhile canWrite).map .writeResult

-- The file that a request id names, and its temporary file.
def resultFiles (runtime : Runtime) (settings : Settings) (folder : Folder) (requestId : Json) :
    Option (Path × Path) :=
  let out := (resultDir settings folder).child
    ((requestId.format runtime.repr).toList ++ ".json".toList)
  (out.withSuffix ".json.tmp".toList).map fun tmp => (tmp, out)

def writeResult (runtime : Runtime) (settings : Settings) (canWrite : Path → Bool)
    (folder : Folder) (requestId : Json) : List Effect :=
  match resultFiles runtime settings folder requestId with
  | some (tmp, out) => writeFiles canWrite tmp out
  | none => []

def writeIfAsked (runtime : Runtime) (settings : Settings) (canWrite : Path → Bool)
    (folder : Folder) (requestId : Json) : List Effect :=
  if requestId.truthy then writeResult runtime settings canWrite folder requestId else []

def resolveIpcResponseFile (runtime : Runtime) (settings : Settings) (path : Json)
    (folder : Folder) : Option AbsPath :=
  match path with
  | .str text =>
      if text = "" ∨ '\x00' ∈ text.toList then none
      else
        (runtime.resolve (resultDir settings folder)).bind fun resultsRoot =>
        (runtime.resolve (Path.parse text.toList)).bind fun resolved =>
        if resolved.isRelativeTo resultsRoot ∧ suffix resolved.name = ".json".toList then
          some resolved
        else none
  | _ => none

-- The second attempt, with the error text, meets the same path and the same file system.
def writeIpcResponse (runtime : Runtime) (settings : Settings) (canWrite : Path → Bool)
    (path : Json) (folder : Folder) : List Effect :=
  match resolveIpcResponseFile runtime settings path folder with
  | none => []
  | some resolved =>
      let out := resolved.toPath
      match out.withSuffix (suffix resolved.name ++ ".tmp".toList) with
      | some tmp => writeFiles canWrite tmp out
      | none => []

def route (jid : Json) (text : String) : Effect :=
  .routeFn jid (.str text) .null

def routeIfKnown (jid text : String) : List Effect :=
  if jid = "" then [] else [route (.str jid) text]

def applyText (result : SkillResult) : String :=
  if result.success then "✅ Skill applied: " ++ result.skill ++ " v" ++ result.version
  else "❌ Skill apply failed: " ++ result.error ++
    if result.mergeConflicts = [] then ""
    else "\nConflicts: " ++ String.intercalate ", " result.mergeConflicts

def uninstallText (result : SkillResult) : String :=
  if result.success then "✅ Skill uninstalled: " ++ result.skill ++
    if result.customPatchWarning = "" then "" else "\n⚠️ " ++ result.customPatchWarning
  else "❌ Skill uninstall failed: " ++ result.error

-- _run_apply_skill and _run_uninstall_skill differ in the engine call and in the text.
def runSkill (runtime : Runtime) (settings : Settings) (around : Surroundings) (folder : Folder)
    (requestId : Json) (text : SkillResult → String) : List Effect :=
  let jid := ((around.groups.find? fun group => group.folder = folder).map Group.jid).getD ""
  match around.skill with
  | .raised => []
  | .timedOut => routeIfKnown jid "⚠️ Skill operation timed out (>5 min). Try again."
  | .finished result routeRaises =>
      routeIfKnown jid (text result) ++
        if jid ≠ "" ∧ routeRaises then []
        else writeIfAsked runtime settings around.canWrite folder requestId

def runApplySkill (runtime : Runtime) (settings : Settings) (around : Surroundings)
    (folder : Folder) (requestId : Json) : List Effect :=
  runSkill runtime settings around folder requestId applyText

def runUninstallSkill (runtime : Runtime) (settings : Settings) (around : Surroundings)
    (folder : Folder) (requestId : Json) : List Effect :=
  runSkill runtime settings around folder requestId uninstallText

def runListSkills (runtime : Runtime) (settings : Settings) (around : Surroundings)
    (folder : Folder) (requestId : Json) : List Effect :=
  if around.listed then writeIfAsked runtime settings around.canWrite folder requestId else []

-- The outcome of the container, an error of it included, is written in any case.
def runSubagent (runtime : Runtime) (settings : Settings) (around : Surroundings)
    (folder : Folder) (requestId : Json) : List Effect :=
  if around.subagentCancelled then []
  else writeResult runtime settings around.canWrite folder requestId

def runMemorySearch (runtime : Runtime) (settings : Settings) (around : Surroundings)
    (folder : Folder) (requestId : Json) : List Effect :=
  if around.searched then writeIfAsked runtime settings around.canWrite folder requestId else []

-- prompt[:100]. Only strings and lists can be sliced.
def promptHead (runtime : Runtime) : Json → Option String
  | .str text => some (String.ofList (text.toList.take 100))
  | .arr items => some (runtime.repr (.arr (items.take 100)))
  | _ => none

def devTexts (runtime : Runtime) (around : Surroundings) (prompt mode sessionId : Json) :
    List String :=
  let session := sessionId.format runtime.repr
  if sessionId.truthy then
    if around.sessionFound then
      ("▶️ DevEngine resuming session \x60" ++ session ++ "\x60...") :: around.engineTexts
    else ["❌ DevEngine: session \x60" ++ session ++ "\x60 not found"]
  else match promptHead runtime prompt with
    | none => []
    | some head =>
        ("🚀 DevEngine 啟動（mode=" ++ mode.format runtime.repr ++ "）\n> " ++ head) ::
          around.engineTexts

def runDevTask (runtime : Runtime) (around : Surroundings) (prompt mode sessionId : Json)
    (groupJid : String) : List Effect :=
  if around.devTaskActive then
    [route (.str groupJid) "⚙️ A dev task is already running for this group. Please wait."]
  else
    let byJid := around.groups.find? fun group => group.jid = groupJid
    match byJid.or (around.groups.find? fun group => group.folder = groupJid) with
    | none => []
    | some group => (devTexts runtime around prompt mode sessionId).map (route (.str group.jid))

def RemoteOutcome.texts : RemoteOutcome → List String
  | .raised => []
  | .reused url => ["✅ Remote control 已啟動：" ++ url]
  | .openFailed exc => ["❌ Remote control 啟動失敗：" ++ exc]
  | .spawnFailed exc => ["❌ Remote control 啟動失敗：" ++ exc]
  | .died => ["❌ Remote control 程序意外結束，請再試一次。"]
  | .ready url => ["🖥️ Remote control 已就緒！\n點此連線：" ++ url]
  | .timedOut => ["⏱️ Remote control 等待 URL 逾時，請再試一次。"]

def runStartRemoteControl (around : Surroundings) (jid : Json) : List Effect :=
  around.remote.texts.map (route jid)

def updateStart (settings : Settings) : String :=
  if settings.updateUsesWorktree then
    "🔄 EvoClaw 更新中：fetch origin/" ++ settings.updateBranch ++ "..."
  else "🔄 EvoClaw 更新中：執行 git pull..."

-- Every text of the two update flows goes to the one jid, after the first one that
-- announces the update.
def runSelfUpdate (settings : Settings) (around : Surroundings) (jid : Json) : List Effect :=
  if jid.truthy then (updateStart settings :: around.updateTexts).map (route jid) else []

def doRestartHost (around : Surroundings) (jid : Json) : List Effect :=
  let ifKnown (text : String) : List Effect := if jid.truthy then [route jid text] else []
  ifKnown "🔁 EvoClaw 即將重啟（不更新代碼）..." ++
    match around.restartError with
    | none => [.writeFlag "restart.flag"]
    | some exc => ifKnown ("❌ 重啟失敗：" ++ exc)

def Job.run (runtime : Runtime) (settings : Settings) (around : Surroundings) (folder : Folder) :
    Job → List Effect
  | .applySkill requestId => runApplySkill runtime settings around folder requestId
  | .uninstallSkill requestId => runUninstallSkill runtime settings around folder requestId
  | .listSkills requestId => runListSkills runtime settings around folder requestId
  | .subagent requestId => runSubagent runtime settings around folder requestId
  | .devTask prompt mode sessionId groupJid =>
      runDevTask runtime around prompt mode sessionId groupJid
  | .sendAndCleanup jid path caption => [.routeFile jid path caption]
  | .routeText jid text => [route jid text]
  | .memoryRecall responseFile =>
      writeIpcResponse runtime settings around.canWrite responseFile folder
  | .memoryRemember responseFile =>
      writeIpcResponse runtime settings around.canWrite responseFile folder
  | .memorySearch requestId => runMemorySearch runtime settings around folder requestId
  | .startRemoteControl jid => runStartRemoteControl around jid
  | .selfUpdate jid => runSelfUpdate settings around jid
  | .restartHost jid => doRestartHost around jid

def Handled.total (runtime : Runtime) (settings : Settings) (around : Surroundings)
    (folder : Folder) (handled : Handled) : List Effect :=
  handled.effects ++ handled.jobs.flatMap (Job.run runtime settings around folder)

-- All that the host does because of one payload, its coroutines included.
def effects (runtime : Runtime) (settings : Settings) (host : Host) (around : Surroundings)
    (folder : Folder) (isMain : Bool) (payload : Json) : List Effect :=
  (handleIpc runtime settings host folder isMain payload).total runtime settings around folder

-- What an effect does to the tables.
def Host.apply (host : Host) : Effect → Host
  | .createTask task =>
      { host with tasks := (host.tasks.createTask task).getD host.tasks }
  | .updateTask id fields => { host with tasks := host.tasks.updateTask id fields }
  | .deleteTask id => { host with tasks := host.tasks.deleteTask id }
  | .setRegisteredGroup group => { host with groups := upsertGroup host.groups group }
  | _ => host

section Total

variable {runtime : Runtime} {settings : Settings} {around : Surroundings} {folder : Folder}

@[simp] theorem total_empty : ({} : Handled).total runtime settings around folder = [] := rfl

@[simp] theorem total_raise (error : Error) :
    (Handled.raise error).total runtime settings around folder = [] := rfl

@[simp] theorem total_effect (effect : Effect) :
    ({ effects := [effect] } : Handled).total runtime settings around folder = [effect] := rfl

@[simp] theorem total_job (job : Job) :
    ({ jobs := [job] } : Handled).total runtime settings around folder =
      job.run runtime settings around folder := by
  simp [Handled.total]

end Total

-- A host with two groups, on a file system without links.
def plainRuntime : Runtime where
  now := 1000
  uuid4 := "t1"
  fromIsoFormat := fun _ => none
  croniterNext := fun _ => none
  realText := fun _ => none
  repr := fun _ => ""
  lower := id
  resolve := fun path => some (AbsPath.join ⟨.slash, []⟩ path).normalise
  pathExists := fun _ => false

def plainSettings : Settings where
  dataDir := Path.parse "/srv/data".toList
  groupsDir := Path.parse "/srv/groups".toList
  baseDir := Path.parse "/srv".toList
  assistantName := "Eve"

def twoGroups : Host where
  groups := [{ jid := "tg:1", folder := "one" }, { jid := "tg:2", folder := "two" }]

end EvoClaw.Ipc
