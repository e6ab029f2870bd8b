import EvoClaw.EventSystem.Runs
import EvoClaw.Ipc.Jobs
import EvoClaw.Scheduler.Model

namespace EvoClaw.Scheduler

open EventSystem
open Ipc (Effect Runtime)
open MessageLoop (Group)
open Tasks (Task Fields Table)

-- The messages that manage an existing task.
inductive Request where
  | pauseTask
  | resumeTask
  | cancelTask
  | updateTask
deriving DecidableEq

def Request.handle (request : Request) (runtime : Runtime) (host : Ipc.Host) (folder : Folder)
    (isMain : Bool) (payload : Payload) : Ipc.Handled :=
  match request with
  | .pauseTask => Ipc.Handler.pauseTask host folder isMain payload
  | .resumeTask => Ipc.Handler.resumeTask host folder isMain payload
  | .cancelTask => Ipc.Handler.cancelTask host folder isMain payload
  | .updateTask => Ipc.Handler.updateTask runtime host folder isMain payload

-- A run_task coroutine with the row it was made for. It has no start time while it waits in
-- GroupQueue. The requests are history: what was done to the row since it was read.
structure Run where
  id : Nat
  task : Task
  start : Option Int := none
  requests : List Effect := []

-- What a finished run leaves behind.
structure Finished where
  requests : List Effect
  row : Option Task
  computedFrom : Option (String × String)

-- The tables and the runs in flight. The last two fields are history that no function reads:
-- the schedule that each next_run was computed from, and the finished runs.
structure System where
  groups : List Group := []
  db : Db := {}
  runs : List Run := []
  nextId : Nat := 0
  computedFrom : TaskId → Option (String × String) := fun _ => none
  finished : List Finished := []

def taskOf : Effect → Option TaskId
  | .updateTask id _ => some id
  | .deleteTask id => some id
  | _ => none

namespace System

def host (system : System) : Ipc.Host :=
  { groups := system.groups, tasks := system.db.tasks }

-- The schedule that a request's next_run is computed from is the one it leaves in the row.
def sourceAfter (system : System) (tasks : Table) : Effect → TaskId → Option (String × String)
  | .updateTask id fields =>
      if fields.nextRun.isSome then
        Function.update system.computedFrom id ((tasks.find id).map Task.schedule)
      else system.computedFrom
  | _ => system.computedFrom

def perform (system : System) (effect : Effect) : System :=
  let tasks := (system.host.apply effect).tasks
  { system with
    db := { system.db with tasks := tasks }
    runs := system.runs.map fun run =>
      if taskOf effect = some run.task.id then { run with requests := run.requests ++ [effect] }
      else run
    computedFrom := system.sourceAfter tasks effect }

def queued? (system : System) (id : Nat) : Option Run :=
  system.runs.find? fun run => run.id = id ∧ run.start = none

def started? (system : System) (id : Nat) : Option Run :=
  system.runs.find? fun run => run.id = id ∧ run.start ≠ none

def withoutRun (system : System) (id : Nat) : System :=
  { system with runs := system.runs.filter (·.id ≠ id) }

-- A run ends: it leaves the system, with what it wrote and with its place in history.
def close (system : System) (run : Run) (db : Db) (source : Option (String × String)) : System :=
  { system.withoutRun run.id with
    db := db
    computedFrom := Function.update system.computedFrom run.task.id source
    finished := system.finished ++ [⟨run.requests, db.tasks.find run.task.id, source⟩] }

def begin (system : System) (run : Run) (now : Int) (launch : Launch) : System :=
  let db := system.db.beginRun run.task now launch
  match launch with
  | .groupMissing => system.close run db none
  | .markFailed => system.close run db (system.computedFrom run.task.id)
  | .launched =>
      { system with
        db := db
        runs := system.runs.map fun other =>
          if other.id = run.id then { other with start := some now } else other }

-- A cancelled run writes a next_run that no schedule was asked for.
def sourceOf (task : Task) : AgentOutcome → Option (String × String)
  | .cancelled => none
  | _ => some task.schedule

def finish (system : System) (run : Run) (clock : Clock) (start : Int) (outcome : AgentOutcome) :
    System :=
  system.close run (system.db.finishRun clock run.task start outcome) (sourceOf run.task outcome)

end System

inductive Event where
  | queue (id : TaskId) (now : Int)
  | drop (id : Nat)
  | start (id : Nat) (now : Int) (launch : Launch)
  | finish (id : Nat) (clock : Clock) (outcome : AgentOutcome)
  | ipc (request : Request) (runtime : Runtime) (folder : Folder) (isMain : Bool)
      (payload : Payload)

namespace System

-- The synchronous stretches of the scheduler, of run_task and of the IPC handler. A row waits
-- in GroupQueue from the moment it is read, and may be refused there.
def step (system : System) : Event → Option System
  | .queue id now =>
      ((system.db.tasks.getDueTasks now).find? fun task => task.id = id).map fun task =>
        { system with
          runs := system.runs ++ [{ id := system.nextId, task := task }]
          nextId := system.nextId + 1 }
  | .drop id => (system.queued? id).map fun run => system.withoutRun run.id
  | .start id now launch => (system.queued? id).map fun run => system.begin run now launch
  | .finish id clock outcome => (system.started? id).bind fun run =>
      run.start.map fun start => system.finish run clock start outcome
  | .ipc request runtime folder isMain payload =>
      some ((request.handle runtime system.host folder isMain payload).effects.foldl perform system)

end System

end EvoClaw.Scheduler
