import EvoClaw.ContainerRunner.Output
import Mathlib.Logic.Function.Basic

namespace EvoClaw.ContainerRunner

inductive Fault where
  | timeout
  | other
deriving DecidableEq

-- The messages that on_error gets, without their texts.
inductive Notice where
  | truncated
  | outOfMemory
  | interrupted
  | tooLarge
  | notJson
  | notDict
  | timedOut
  | raised
deriving DecidableEq

-- What a run does to the outside.
inductive Call where
  | recordRun (success : Bool)
  | logContainerFinish (status : String)
  | setSession (folder : String) (session : Json)
  | updateHotMemory (patch : String)
  | recordDockerSuccess (folder : String)
  | recordDockerFailure (folder : String)
  | onSuccess
  | setState (key : String)
  | onOutput (text : Json)
  | onError (notice : Notice)
  | userHint

structure Group where
  jid : String
  folder : String

-- _docker_failures, _group_fail_counts and _per_jid_cursors. `runSucceeded` is the flag of
-- the call of _process_group_messages, and `calls` is its history.
structure Host where
  dockerFailures : String → Option Nat := fun _ => none
  failCounts : String → Option Nat := fun _ => none
  cursors : String → Option Int := fun _ => none
  lastTimestamp : Int := 0
  runSucceeded : Bool := false
  calls : List Call := []

abbrev Script := EStateM Fault Host

-- How the container has ended.
inductive Container where
  | collected (stdout : List Char) (exitCode : Option Int)
  | raised (fault : Fault)

section Callbacks

-- The calls that raise.
variable (faults : Call → Option Fault) (group : Group)

def note (made : Call) : Script Unit :=
  modify fun host => { host with calls := host.calls ++ [made] }

def call (made : Call) : Script Unit := do
  note made
  match faults made with
  | none => pure ()
  | some fault => throw fault

-- An exception of the call is logged and forgotten.
def quietly (made : Call) : Script Unit :=
  tryCatch (call faults made) fun _ => pure ()

def recordDockerSuccess : Script Unit := do
  note (.recordDockerSuccess group.folder)
  modify fun host =>
    { host with dockerFailures := Function.update host.dockerFailures group.folder none }

def recordDockerFailure : Script Unit := do
  note (.recordDockerFailure group.folder)
  modify fun host =>
    { host with
      dockerFailures := Function.update host.dockerFailures group.folder
        (some ((host.dockerFailures group.folder).getD 0 + 1)) }

-- advance() of _process_messages_for_jid, for a batch whose last timestamp is `ts`.
def advance (ts : Int) : Script Unit := do
  modify fun host =>
    { host with
      cursors := Function.update host.cursors group.jid
        (some (max ((host.cursors group.jid).getD 0) ts)) }
  call faults (.setState ("cursorJID:" ++ group.jid))
  if (← get).lastTimestamp < ts then
    modify fun host => { host with lastTimestamp := ts }
    call faults (.setState "lastTimestamp")

-- _on_success_tracked
def onSuccess (ts : Int) : Script Unit := do
  note .onSuccess
  modify fun host =>
    { host with
      runSucceeded := true
      failCounts := Function.update host.failCounts group.jid none }
  advance faults group ts

end Callbacks

section Run

variable (faults : Call → Option Fault) (floatOf : List Char → BitVec 64) (group : Group) (ts : Int)

def errorResult (error : String) : Payload :=
  [("status", .str "error"), ("error", .str error), ("messages", .arr [])]

-- The container has failed, or what it wrote is no dictionary.
def rejected (notice : Notice) (error : String) : Script Payload := do
  quietly faults (.recordRun false)
  call faults (.logContainerFinish "error")
  recordDockerFailure group
  quietly faults (.onError notice)
  return errorResult error

-- Exit codes of a container that has run, whatever its agent did.
def AGENT_EXIT_CODES : List Int := [0, 124, 137, 143]

def withoutMarkers (exitCode : Option Int) : Script Payload := do
  quietly faults (.recordRun false)
  call faults (.logContainerFinish "error")
  if ∃ code ∈ exitCode, code ∈ AGENT_EXIT_CODES then
    if exitCode = some 137 then quietly faults (.onError .outOfMemory)
    recordDockerSuccess group
  else recordDockerFailure group
  quietly faults (.onError (if exitCode = some 137 then .outOfMemory else .interrupted))
  return errorResult "no output markers"

def truncatedOutput : Script Payload := do
  quietly faults (.onError .truncated)
  quietly faults (.recordRun false)
  call faults (.logContainerFinish "error")
  recordDockerSuccess group
  return errorResult "output truncated (too large)"

def updateMemory (fields : Payload) : Script Unit :=
  match fields.get "memory_patch" .null with
  | .str patch => if patch ≠ "" then quietly faults (.updateHotMemory patch) else pure ()
  | _ => pure ()

def recordSession (fields : Payload) : Script Unit :=
  if (fields.get "newSessionId" .null).truthy then
    call faults (.setSession group.folder (fields.get "newSessionId" .null))
  else pure ()

-- A dictionary is a success, whatever its status says.
def succeeded (fields : Payload) : Script Payload := do
  quietly faults (.recordRun true)
  call faults (.logContainerFinish "success")
  recordDockerSuccess group
  onSuccess faults group ts
  let text := fields.get "result" .null
  if text.truthy then call faults (.onOutput text)
  return fields

def accepted (fields : Payload) : Script Payload := do
  updateMemory faults fields
  recordSession faults group fields
  succeeded faults group ts fields

def collectedOutput (stdout : List Char) (exitCode : Option Int) : Script Payload :=
  match Output.ofStdout floatOf stdout with
  | .noMarkers => withoutMarkers faults group exitCode
  | .truncated => truncatedOutput faults group
  | .tooLarge => do
      quietly faults (.onError .tooLarge)
      return [("status", .str "error"), ("result", .str "Output too large")]
  | .notJson => rejected faults group .notJson "JSON parse error"
  | .notDict => rejected faults group .notDict "schema mismatch: result is not a dict"
  | .result fields => accepted faults group ts fields

-- The handlers of an exception of the run.
def handled (fault : Fault) : Script Payload := do
  quietly faults (.recordRun false)
  match fault with
  | .timeout =>
      call faults (.logContainerFinish "timeout")
      recordDockerFailure group
      quietly faults (.onError .timedOut)
      return [("status", .str "error"), ("result", .null),
        ("error", .str "Container timed out")]
  | .other =>
      call faults (.logContainerFinish "error")
      recordDockerFailure group
      quietly faults (.onError .raised)
      return [("status", .str "error"), ("result", .null), ("error", .str "exception")]

-- run_container_agent from the end of its container on.
def runContainerAgent (container : Container) : Script Payload :=
  tryCatch
    (match container with
      | .collected stdout exitCode => collectedOutput faults floatOf group ts stdout exitCode
      | .raised fault => throw fault)
    (handled faults group)

def countFailure : Script Unit :=
  modify fun host =>
    { host with
      failCounts := Function.update host.failCounts group.jid
        (some ((host.failCounts group.jid).getD 0 + 1)) }

-- The end of _process_group_messages. An exception that is no timeout leaves it.
def processGroupMessages (container : Container) : Script Unit := do
  modify fun host => { host with runSucceeded := false, calls := [] }
  tryCatch
    (do
      let result ← runContainerAgent faults floatOf group ts container
      if (← get).runSucceeded = false ∧ result.get "status" .null = .str "error" then
        countFailure group
        quietly faults .userHint)
    fun fault =>
      match fault with
      | .timeout => do
          countFailure group
          quietly faults .userHint
      | .other => throw .other

end Run

end EvoClaw.ContainerRunner
