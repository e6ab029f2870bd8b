import EvoClaw.DevEngine.Deploy
import EvoClaw.EventSystem.Runs

-- The calls of host/dev_engine.py for one session. A call of run works on an object of its own
-- that it shares only with other calls that are given the same object.
namespace EvoClaw.DevEngine

inductive DevStage where
  | ANALYZE
  | DESIGN
  | IMPLEMENT
  | TEST
  | REVIEW
  | DOCUMENT
  | DEPLOY
deriving DecidableEq

def DevStage.value : DevStage → String
  | .ANALYZE => "analyze"
  | .DESIGN => "design"
  | .IMPLEMENT => "implement"
  | .TEST => "test"
  | .REVIEW => "review"
  | .DOCUMENT => "document"
  | .DEPLOY => "deploy"

def STAGE_ORDER : List DevStage :=
  [.ANALYZE, .DESIGN, .IMPLEMENT, .TEST, .REVIEW, .DOCUMENT, .DEPLOY]

inductive Status where
  | pending
  | running
  | paused
  | completed
  | failed
  | cancelled
deriving DecidableEq

inductive Mode where
  | auto
  | interactive
deriving DecidableEq

structure DevSession where
  sessionId : String
  prompt : String
  jid : String
  mode : Mode
  artifacts : Artifacts := []
  currentStage : Option String := none
  status : Status := .pending
  error : Option String := none
deriving DecidableEq

-- Where a call of run waits. `leaving` is its last notification.
inductive Point where
  | starting (stage : DevStage)
  | executing (stage : DevStage)
  | done (stage : DevStage)
  | leaving (result : Bool)
  | returned (result : Bool)
deriving DecidableEq

structure Run where
  object : Nat
  point : Point
deriving DecidableEq

-- The row of the session, the objects and the calls of run. `cancelled` says that a cancel has
-- returned True; the stages that are started and the files that are touched from then on are kept.
structure State where
  stored : Option DevSession
  objects : List DevSession
  runs : List Run := []
  cancelled : Bool := false
  startedLate : List DevStage := []
  touchedLate : List Posix.AbsPath := []
deriving DecidableEq

def start (jid sessionId prompt : String) (mode : Mode) : DevSession where
  sessionId := sessionId
  prompt := prompt
  jid := jid
  mode := mode

namespace State

def session? (state : State) (object : Nat) : Option DevSession :=
  state.objects[object]?

-- The assignments to the object's fields, then save_session.
def saveSession (state : State) (object : Nat) (session : DevSession) : State :=
  { state with objects := state.objects.set object session, stored := some session }

def loadSession (state : State) : Option DevSession :=
  state.stored

def startStage (state : State) (stage : DevStage) : State :=
  if state.cancelled then { state with startedLate := state.startedLate ++ [stage] } else state

def touch (state : State) (targets : List Posix.AbsPath) : State :=
  if state.cancelled then { state with touchedLate := state.touchedLate ++ targets } else state

-- A stage that returns no artifact and a deployment that goes wrong end the run.
def failStage (state : State) (object : Nat) (session : DevSession) (error : String) :
    State × Point :=
  (state.saveSession object { session with status := .failed, error := some error },
    .leaving false)

def finishStage (state : State) (object : Nat) (session : DevSession) (stage : DevStage)
    (artifact : String) : State × Point :=
  (state.saveSession object
    { session with artifacts := session.artifacts.set stage.value artifact }, .done stage)

-- The stages that are left, up to the first notification.
def runStages (state : State) (object : Nat) (session : DevSession) :
    List DevStage → State × Point
  | [] =>
      (state.saveSession object { session with status := .completed, currentStage := none },
        .leaving true)
  | stage :: rest =>
      if (session.artifacts.lookup stage.value).isSome then
        state.runStages object session rest
      else
        (state.saveSession object { session with currentStage := some stage.value },
          .starting stage)

def deploy (state : State) (object : Nat) (session : DevSession) (disk : Disk) : State × Point :=
  let (deployed, ok, msg) := deployFiles disk session.artifacts
  let state := state.touch deployed.touched
  if ok then state.finishStage object session .DEPLOY ("OK " ++ String.ofList msg)
  else state.failStage object session (String.ofList msg)

-- The start notification has ended.
def execute (state : State) (object : Nat) (session : DevSession) (stage : DevStage)
    (disk : Disk) : State × Point :=
  let state := state.startStage stage
  if stage = .DEPLOY then state.deploy object session disk
  else (state, .executing stage)

-- `result` is the container's text, and none where it raises.
def runLlmStage (result : Option String) : Option String :=
  let text := strip (result.getD "").toList
  if text = [] then none else some (String.ofList text)

def endStage (state : State) (object : Nat) (session : DevSession) (stage : DevStage)
    (result : Option String) : State × Point :=
  match runLlmStage result with
  | none => state.failStage object session ("Stage " ++ stage.value ++ " returned no output")
  | some artifact => state.finishStage object session stage artifact

-- The notification that a stage is done has ended.
def proceed (state : State) (object : Nat) (session : DevSession) (stage : DevStage) :
    State × Point :=
  if session.mode = .interactive then
    (state.saveSession object { session with status := .paused }, .leaving true)
  else
    state.runStages object session ((STAGE_ORDER.dropWhile (· ≠ stage)).drop 1)

def addRun (object : Nat) (reached : State × Point) : State :=
  { reached.1 with runs := reached.1.runs ++ [⟨object, reached.2⟩] }

def moveRun (index : Nat) (object : Nat) (reached : State × Point) : State :=
  { reached.1 with runs := reached.1.runs.set index ⟨object, reached.2⟩ }

def run (state : State) (object : Nat) (session : DevSession) : State :=
  let session := { session with status := .running }
  addRun object ((state.saveSession object session).runStages object session STAGE_ORDER)

def resume (state : State) : State :=
  match state.loadSession with
  | none => state
  | some session =>
      if session.status = .paused ∨ session.status = .failed then
        let object := state.objects.length
        { state with objects := state.objects ++ [session] }.run object session
      else state

def cancel (state : State) : State :=
  match state.loadSession with
  | none => state
  | some session =>
      { state with
        stored := some { session with status := .cancelled, currentStage := none }
        cancelled := true }

end State

inductive Event where
  | run (object : Nat)
  | resume
  | cancel
  | notified (index : Nat) (disk : Disk)
  | executed (index : Nat) (result : Option String)

def step (state : State) : Event → Option State
  | .run object => (state.session? object).map (state.run object)
  | .resume => some state.resume
  | .cancel => some state.cancel
  | .notified index disk =>
      state.runs[index]?.bind fun run => (state.session? run.object).bind fun session =>
        match run.point with
        | .starting stage =>
            some (State.moveRun index run.object (state.execute run.object session stage disk))
        | .done stage =>
            some (State.moveRun index run.object (state.proceed run.object session stage))
        | .leaving result => some (State.moveRun index run.object (state, .returned result))
        | .executing _ | .returned _ => none
  | .executed index result =>
      state.runs[index]?.bind fun run => (state.session? run.object).bind fun session =>
        match run.point with
        | .executing stage =>
            some (State.moveRun index run.object (state.endStage run.object session stage result))
        | .starting _ | .done _ | .leaving _ | .returned _ => none

-- The session is stored as it is.
def initial (session : DevSession) : State where
  stored := some session
  objects := [session]

end EvoClaw.DevEngine
