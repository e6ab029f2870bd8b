import EvoClaw.Json
import EvoClaw.MessageLoop.Model
import EvoClaw.Posix.Path
import EvoClaw.Tasks.Table

namespace EvoClaw.Ipc

open Posix
open MessageLoop (Group upsertGroup)
open Tasks (Task Fields Table)

-- What the code takes from config and from the environment variables.
structure Settings where
  dataDir : Path
  groupsDir : Path
  baseDir : Path
  assistantName : String
  selfUpdateToken : String := ""
  updateBranch : String := "main"
  updateUsesWorktree : Bool := true

-- The language, the operating system and the third-party packages, at the call.
-- Times are milliseconds. The two parsers raise where they give none.
structure Runtime where
  now : Int
  uuid4 : TaskId
  fromIsoFormat : String → Option Int
  croniterNext : String → Option Int
  realText : BitVec 64 → Option String
  repr : Json → String
  lower : List Char → List Char
  resolve : Path → Option AbsPath
  pathExists : Path → Bool

-- The tables registered_groups and scheduled_tasks.
structure Host where
  groups : List Group := []
  tasks : Table := {}

inductive Error where
  | permissionError (text : String)
  | valueError (text : String)
  | attributeError
  | typeError
  | databaseError
deriving DecidableEq

inductive Effect where
  | routeFn (jid text sender : Json)
  | routeFile (jid : Json) (path : Path) (caption : Json)
  | createTask (task : Task)
  | updateTask (id : TaskId) (fields : Fields)
  | deleteTask (id : TaskId)
  | setRegisteredGroup (group : Group)
  | writeFlag (name : String)
  | writeResult (path : Path)

-- The coroutines that the handler starts and does not wait for.
inductive Job where
  | applySkill (requestId : Json)
  | uninstallSkill (requestId : Json)
  | listSkills (requestId : Json)
  | subagent (requestId : Json)
  | devTask (prompt mode sessionId : Json) (groupJid : String)
  | sendAndCleanup (jid : Json) (hostPath : Path) (caption : Json)
  | routeText (jid : Json) (text : String)
  | memoryRecall (responseFile : Json)
  | memoryRemember (responseFile : Json)
  | memorySearch (requestId : Json)
  | startRemoteControl (jid : Json)
  | selfUpdate (jid : Json)
  | restartHost (jid : Json)

structure Handled where
  effects : List Effect := []
  jobs : List Job := []
  error : Option Error := none

def Handled.raise (error : Error) : Handled :=
  { error := some error }

-- next((g for g in groups if g.get("folder") == group_folder), None)
def Host.ownGroup (host : Host) (folder : Folder) : Option Group :=
  host.groups.find? fun group => group.folder = folder

-- A falsy target falls back to the JID that the group is registered with.
def Host.resolveJid (host : Host) (folder : Folder) (jid : Json) : Json :=
  if jid.truthy then jid
  else match host.ownGroup folder with
    | some group => .str group.jid
    | none => .str ""

def requireOwnOrMain (folder : Folder) (target : Json) (isMain : Bool) : Bool :=
  isMain ∨ target = .str folder

def Host.getAuthorizedTask (host : Host) (taskId : Json) (folder : Folder) (isMain : Bool) :
    Option Task :=
  match taskId with
  | .str id => (host.tasks.find id).filter fun task => isMain ∨ task.groupFolder = folder
  | _ => none

-- _compute_next_run of ipc_watcher.py. A failure is logged and gives None.
def computeNextRun (runtime : Runtime) (scheduleType scheduleValue : Json) : Option Int :=
  if scheduleType = .str "once" then
    match scheduleValue with
    | .str text => runtime.fromIsoFormat text
    | _ => none
  else if scheduleType = .str "interval" then
    scheduleValue.toInt.map fun value => runtime.now + value
  else if scheduleType = .str "cron" then
    match scheduleValue with
    | .str text => runtime.croniterNext text
    | _ => none
  else none

-- The value of a NOT NULL TEXT column, none where the statement raises.
def requiredText (runtime : Runtime) (value : Json) : Option String :=
  (value.column runtime.realText).join

def bindNextRun (nextRun : Option Int) : Option (Option Int) :=
  if nextRun.all isInt64 then some nextRun else none

namespace Handler

variable (runtime : Runtime) (settings : Settings) (host : Host) (folder : Folder) (isMain : Bool)
  (payload : Payload)

def message : Handled :=
  let jid := payload.get "chatJid" (.str "")
  let text := payload.get "text" (.str "")
  if jid.truthy = true ∧ isMain = false ∧ ∃ group ∈ host.ownGroup folder, jid ≠ .str group.jid then {}
  else if jid.truthy = true ∧ text.truthy = true then
    { effects := [.routeFn jid text (payload.get "sender" .null)] }
  else {}

-- The row that schedule_task inserts, none where a value cannot be stored.
def newTask : Option Task :=
  let scheduleType := payload.get "schedule_type" (.str "")
  let scheduleValue := payload.get "schedule_value" (.str "")
  let given := payload.get "chatJid" (.str "")
  let chatJid := if given.truthy then given
    else ((host.ownGroup folder).map fun group => Json.str group.jid).getD given
  (requiredText runtime chatJid).bind fun chatJid =>
  (requiredText runtime (payload.get "prompt" (.str ""))).bind fun prompt =>
  (requiredText runtime scheduleType).bind fun scheduleTypeText =>
  (requiredText runtime scheduleValue).bind fun scheduleValueText =>
  (bindNextRun (computeNextRun runtime scheduleType scheduleValue)).bind fun nextRun =>
  ((payload.get "context_mode" (.str "group")).column runtime.realText).map fun contextMode =>
    { id := runtime.uuid4
      groupFolder := folder
      chatJid := chatJid
      prompt := prompt
      scheduleType := scheduleTypeText
      scheduleValue := scheduleValueText
      nextRun := nextRun
      contextMode := contextMode }

def scheduleTask : Handled :=
  let target := payload.get "groupFolder" (.str folder)
  if requireOwnOrMain folder target isMain then
    match newTask runtime host folder payload with
    | none => .raise .databaseError
    | some task =>
        if task.id ∈ host.tasks.rows.map Task.id then .raise .databaseError
        else { effects := [.createTask task] }
  else .raise (.permissionError
    ("Group " ++ folder ++ " cannot manage " ++ target.format runtime.repr))

-- pause_task, resume_task and cancel_task differ in what they do to the row.
def manageTask (manage : TaskId → Effect) : Handled :=
  match host.getAuthorizedTask (payload.get "task_id" (.str "")) folder isMain with
  | none => {}
  | some task => { effects := [manage task.id] }

def pauseTask : Handled :=
  manageTask host folder isMain payload fun id => .updateTask id { status := some .paused }

def resumeTask : Handled :=
  manageTask host folder isMain payload fun id => .updateTask id { status := some .active }

def cancelTask : Handled :=
  manageTask host folder isMain payload .deleteTask

-- An absent key leaves its column alone.
def updateText (key : String) : Option (Option String) :=
  match payload.lookup key with
  | none => some none
  | some value => (requiredText runtime value).map some

def reschedules : Bool :=
  (payload.lookup "schedule_type").isSome ∨ (payload.lookup "schedule_value").isSome

-- The columns that update_task sets, none where a value cannot be stored.
def updates (task : Task) : Option Fields :=
  let nextRun := computeNextRun runtime
    (payload.get "schedule_type" (.str task.scheduleType))
    (payload.get "schedule_value" (.str task.scheduleValue))
  (updateText runtime payload "prompt").bind fun prompt =>
  (updateText runtime payload "schedule_type").bind fun scheduleType =>
  (updateText runtime payload "schedule_value").bind fun scheduleValue =>
  (match payload.lookup "context_mode" with
    | none => some none
    | some value => (value.column runtime.realText).map some).bind fun contextMode =>
  (if reschedules payload then (bindNextRun nextRun).map some else some none).map fun nextRun =>
    { prompt := prompt
      scheduleType := scheduleType
      scheduleValue := scheduleValue
      nextRun := nextRun
      contextMode := contextMode }

def updateTask : Handled :=
  match host.getAuthorizedTask (payload.get "task_id" (.str "")) folder isMain with
  | none => {}
  | some task =>
      match updates runtime payload task with
      | none => .raise .databaseError
      | some fields => if fields = {} then {} else { effects := [.updateTask task.id fields] }

end Handler

end EvoClaw.Ipc
