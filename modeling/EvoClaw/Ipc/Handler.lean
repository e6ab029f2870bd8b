import EvoClaw.Ipc.Model

namespace EvoClaw.Ipc

open Posix
open MessageLoop (Group upsertGroup)

def maxFolderNameLen : Nat := 128

-- The characters of ^[a-zA-Z0-9_-]+$
def isFolderChar (c : Char) : Bool :=
  c.isAlphanum ∨ c = '_' ∨ c = '-'

-- `$` also matches before a newline that ends the text.
def matchesFolderPattern (text : List Char) : Bool :=
  let body := if text.getLast? = some '\n' then text.dropLast else text
  body ≠ [] ∧ body.all isFolderChar

def isValidGroupFolder (folder : String) : Bool :=
  folder ≠ "global" ∧ folder.toList.length ≤ maxFolderNameLen ∧ matchesFolderPattern folder.toList

def isSensitiveName (name : Name) : Bool :=
  [".env", ".env.local", ".netrc", "id_rsa", "id_dsa", "id_ecdsa", "id_ed25519"].any
      (fun sensitive => name = sensitive.toList) ∨
    [".pem", ".key", ".p12", ".pfx", ".crt"].any fun suffix => suffix.toList.isSuffixOf name

def isSensitiveDir (name : Name) : Bool :=
  [".git", "store", "data"].any fun dir => name = dir.toList

def isSensitiveSendFilePath (runtime : Runtime) (path root : AbsPath) : Bool :=
  let name := runtime.lower path.name
  let parts := if path.isRelativeTo root
    then (path.parts.drop root.parts.length).map runtime.lower
    else [name]
  parts.any isSensitiveDir ∨ isSensitiveName name

-- The mount that a container path lies in, as the host sees it, and the rest of the path.
-- The project is mounted for the main group only.
def mountOf (settings : Settings) (folder : Folder) (isMain : Bool) (text : List Char) :
    Option (Path × List Char) :=
  let below (mount : String) : Option (List Char) :=
    if mount.toList.isPrefixOf text then some (text.drop mount.toList.length) else none
  match below "/workspace/group/" with
  | some rel => some (settings.groupsDir.child folder.toList, rel)
  | none => match below "/workspace/project/" with
    | some rel => if isMain then some (settings.baseDir, rel) else none
    | none => match below "/workspace/ipc/" with
      | some rel => some ((settings.dataDir.child "ipc".toList).child folder.toList, rel)
      | none => (below "/workspace/global/").map fun rel =>
          (settings.groupsDir.child "global".toList, rel)

def resolveContainerPath (runtime : Runtime) (settings : Settings) (containerPath : String)
    (folder : Folder) (isMain : Bool) : Option Path :=
  if folder = "" then none
  else
    let text := strip (containerPath.toList.map fun c => if c = '\\' then '/' else c)
    (mountOf settings folder isMain text).bind fun (expectedRoot, rel) =>
    let host := expectedRoot.child rel
    (runtime.resolve host).bind fun resolved =>
    (runtime.resolve expectedRoot).bind fun root =>
    if resolved.isRelativeTo root ∧ ¬ isSensitiveSendFilePath runtime resolved root then some host
    else none

-- os.path.basename
def basename (text : List Char) : List Char :=
  (text.reverse.takeWhile (· ≠ '/')).reverse

namespace Handler

variable (runtime : Runtime) (settings : Settings) (host : Host) (folder : Folder) (isMain : Bool)
  (payload : Payload)

def registerGroup : Handled :=
  let jid := payload.get "jid" (.str "")
  let name := payload.get "name" (.str "")
  let target := payload.get "folder" (.str "")
  let trigger := payload.get "trigger" (.str ("@" ++ settings.assistantName))
  if isMain = false then .raise (.permissionError "Only main group can register new groups")
  else match target with
    | .str target =>
        if target ≠ "" ∧ isValidGroupFolder target = false then
          .raise (.valueError ("Invalid group folder name: " ++ runtime.repr (.str target) ++
            " — must be alphanumeric with hyphens/underscores only"))
        else if jid.truthy = true ∧ name.truthy = true ∧ target ≠ "" then
          match requiredText runtime jid, requiredText runtime name,
            trigger.column runtime.realText with
          | some jid, some _, some _ =>
              if ∃ other ∈ host.groups, other.jid ≠ jid ∧ other.folder = target then
                .raise .databaseError
              else { effects := [.setRegisteredGroup { jid := jid, folder := target }] }
          | _, _, _ => .raise .databaseError
        else {}
    | target => if target.truthy then .raise .typeError else {}

def refreshGroups : Handled :=
  { effects := [.writeFlag "refresh_groups.flag"] }

def resetGroup : Handled :=
  if isMain = false then
    .raise (.permissionError "Only main group can reset group failure counters")
  else if (payload.get "jid" (.str "")).truthy then
    { effects := [.writeFlag "reset_group.flag"] }
  else .raise (.valueError "reset_group requires 'jid' field")

def applySkill : Handled :=
  if isMain = false then .raise (.permissionError "Only main group can apply skills")
  else if (payload.get "skill_path" (.str "")).truthy then
    { jobs := [.applySkill (payload.get "requestId" (.str ""))] }
  else {}

def uninstallSkill : Handled :=
  if isMain = false then .raise (.permissionError "Only main group can uninstall skills")
  else if (payload.get "skill_name" (.str "")).truthy then
    { jobs := [.uninstallSkill (payload.get "requestId" (.str ""))] }
  else {}

def listSkills : Handled :=
  { jobs := [.listSkills (payload.get "requestId" (.str ""))] }

def spawnAgent : Handled :=
  let requestId := payload.get "requestId" (.str "")
  if requestId.truthy = true ∧ (payload.get "prompt" (.str "")).truthy = true then
    { jobs := [.subagent requestId] }
  else {}

def devTask : Handled :=
  let prompt := payload.get "prompt" (.str "")
  let sessionId := payload.get "session_id" (.str "")
  if prompt.truthy = true ∨ sessionId.truthy = true then
    let groupJid := ((host.ownGroup folder).map Group.jid).getD folder
    { jobs := [.devTask prompt (payload.get "mode" (.str "auto")) sessionId groupJid] }
  else {}

-- The text for a file that cannot be sent. Only a string has a base name.
def missingFile (containerPath : Json) (hostPath : Option Path) : Option String :=
  let text (fname : String) := "⚠️ 檔案無法傳送：找不到 " ++ fname ++ "\n路徑：" ++
    (hostPath.map fun path => String.ofList path.toText).getD "None"
  match containerPath with
  | .str path => some (text (if path = "" then "unknown" else String.ofList (basename path.toList)))
  | value => if value.truthy then none else some (text "unknown")

def sendFile : Handled :=
  let containerPath := payload.get "filePath" (.str "")
  let caption := payload.get "caption" (.str "")
  let jid := host.resolveJid folder (payload.get "chatJid" (.str ""))
  let resolved : Except Error (Option Path) := match containerPath with
    | .str path => .ok (resolveContainerPath runtime settings path folder isMain)
    | _ => if folder = "" then .ok none else .error .attributeError
  match resolved with
  | .error error => .raise error
  | .ok hostPath =>
      match hostPath.filter runtime.pathExists with
      | some path => { jobs := [.sendAndCleanup jid path caption] }
      | none =>
          match missingFile containerPath hostPath with
          | some text => { jobs := [.routeText jid text] }
          | none => .raise .typeError

def memoryRecall : Handled :=
  let responseFile := payload.get "response_file" (.str "")
  if (payload.get "query" (.str "")).truthy = true ∧ responseFile.truthy = true then
    { jobs := [.memoryRecall responseFile] }
  else {}

def memoryRemember : Handled :=
  let responseFile := payload.get "response_file" (.str "")
  if (payload.get "content" (.str "")).truthy = true ∧ responseFile.truthy = true then
    { jobs := [.memoryRemember responseFile] }
  else {}

def memorySearch : Handled :=
  let jid := ((host.ownGroup folder).map Group.jid).getD ""
  if (payload.get "query" (.str "")).truthy = true ∧ jid ≠ "" then
    { jobs := [.memorySearch (payload.get "requestId" (.str ""))] }
  else {}

def startRemoteControl : Handled :=
  let jid := host.resolveJid folder (payload.get "jid" (.str ""))
  if jid.truthy then { jobs := [.startRemoteControl jid] } else {}

def selfUpdate : Handled :=
  let jid := host.resolveJid folder (payload.get "jid" (.str ""))
  if settings.selfUpdateToken = "" then
    if jid.truthy then
      { jobs := [.routeText jid
          "❌ self_update 已停用。請在 .env 設定 SELF_UPDATE_TOKEN，再以 token 確認後執行。"] }
    else {}
  else if payload.get "confirm_token" (.str "") = .str settings.selfUpdateToken then
    { jobs := [.selfUpdate jid] }
  else {}

def restartHost : Handled :=
  { jobs := [.restartHost (host.resolveJid folder (payload.get "jid" (.str "")))] }

end Handler

inductive MsgType where
  | message
  | scheduleTask
  | pauseTask
  | resumeTask
  | cancelTask
  | updateTask
  | registerGroup
  | refreshGroups
  | resetGroup
  | applySkill
  | uninstallSkill
  | listSkills
  | spawnAgent
  | devTask
  | sendFile
  | memoryRecall
  | memoryRemember
  | memorySearch
  | startRemoteControl
  | selfUpdate
  | restartHost
deriving DecidableEq

def MsgType.names : List (String × MsgType) :=
  [("message", .message), ("schedule_task", .scheduleTask), ("pause_task", .pauseTask),
    ("resume_task", .resumeTask), ("cancel_task", .cancelTask), ("update_task", .updateTask),
    ("register_group", .registerGroup), ("refresh_groups", .refreshGroups),
    ("reset_group", .resetGroup), ("apply_skill", .applySkill),
    ("uninstall_skill", .uninstallSkill), ("list_skills", .listSkills),
    ("spawn_agent", .spawnAgent), ("dev_task", .devTask), ("send_file", .sendFile),
    ("memory_recall", .memoryRecall), ("memory_remember", .memoryRemember),
    ("memory_search", .memorySearch), ("start_remote_control", .startRemoteControl),
    ("self_update", .selfUpdate), ("restart_host", .restartHost)]

def msgType (payload : Payload) : Option MsgType :=
  match payload.get "type" .null with
  | .str text => MsgType.names.lookup text
  | _ => none

def dispatch (runtime : Runtime) (settings : Settings) (host : Host) (folder : Folder)
    (isMain : Bool) (payload : Payload) : MsgType → Handled
  | .message => Handler.message host folder isMain payload
  | .scheduleTask => Handler.scheduleTask runtime host folder isMain payload
  | .pauseTask => Handler.pauseTask host folder isMain payload
  | .resumeTask => Handler.resumeTask host folder isMain payload
  | .cancelTask => Handler.cancelTask host folder isMain payload
  | .updateTask => Handler.updateTask runtime host folder isMain payload
  | .registerGroup => Handler.registerGroup runtime settings host isMain payload
  | .refreshGroups => Handler.refreshGroups
  | .resetGroup => Handler.resetGroup isMain payload
  | .applySkill => Handler.applySkill isMain payload
  | .uninstallSkill => Handler.uninstallSkill isMain payload
  | .listSkills => Handler.listSkills payload
  | .spawnAgent => Handler.spawnAgent payload
  | .devTask => Handler.devTask host folder payload
  | .sendFile => Handler.sendFile runtime settings host folder isMain payload
  | .memoryRecall => Handler.memoryRecall payload
  | .memoryRemember => Handler.memoryRemember payload
  | .memorySearch => Handler.memorySearch host folder payload
  | .startRemoteControl => Handler.startRemoteControl host folder payload
  | .selfUpdate => Handler.selfUpdate settings host folder payload
  | .restartHost => Handler.restartHost host folder payload

-- A payload that is no object has no get. An unknown type is only logged.
def handleIpc (runtime : Runtime) (settings : Settings) (host : Host) (folder : Folder)
    (isMain : Bool) : Json → Handled
  | .obj payload =>
      match msgType payload with
      | some type => dispatch runtime settings host folder isMain payload type
      | none => {}
  | _ => .raise .attributeError

end EvoClaw.Ipc
