import EvoClaw.Scheduler.Requests

-- All that writes to scheduled_tasks: the IPC handler, the dashboard, run_task and the recovery
-- after a restart.
namespace EvoClaw.Scheduler

open Ipc (Effect Runtime)
open MessageLoop (Group)
open Tasks (Task Fields Table)

-- What the next_run of a row was computed from.
inductive Origin where
  | unknown
  | postponed
  | computed (schedule : String × String)
deriving DecidableEq

-- A coroutine of run_task with the row that was read for it.
structure Flight where
  id : Nat
  task : Task
  start : Option Int := none
deriving DecidableEq

-- The tables, and the runs in flight. The last two fields are history that no function reads:
-- where each next_run comes from, and which tasks have been started.
structure Board where
  groups : List Group := []
  db : Db := {}
  flights : List Flight := []
  nextId : Nat := 0
  origin : TaskId → Origin := fun _ => .unknown
  started : TaskId → Bool := fun _ => false

inductive BoardEvent where
  | schedule (runtime : Runtime) (folder : Folder) (isMain : Bool) (payload : Payload)
  | manage (request : Request) (runtime : Runtime) (folder : Folder) (isMain : Bool)
      (payload : Payload)
  | dashboardCancel (id : TaskId)
  | dashboardUpdate (id : TaskId) (body : Payload) (realText : BitVec 64 → Option String)
  | queue (id : TaskId) (now : Int)
  | drop (id : Nat)
  | start (id : Nat) (now : Int) (launch : Launch)
  | finish (id : Nat) (now : Int) (outcome : AgentOutcome)
  -- the process ends at any moment, and the recovery comes as far as `count` rows
  | restart (now : Int) (count : Nat)

-- [a-zA-Z0-9_\-]{1,128}
def isTaskId (id : TaskId) : Bool :=
  1 ≤ id.toList.length ∧ id.toList.length ≤ 128 ∧ id.toList.all Ipc.isFolderChar

-- The schedule_value that the dashboard stores, if it stores one.
def dashboardValue (body : Payload) (realText : BitVec 64 → Option String) : Option String :=
  let sv := body.get "schedule_value" (.str "")
  if sv.truthy then (sv.column realText).join else none

-- What recover_stale_running_tasks writes to a row that is left running.
def recoverFields (clock : Clock) (task : Task) : Fields :=
  if task.scheduleType = "once" then
    { status := some .failed
      lastResult := some
        "Interrupted by host restart — not retried to prevent duplicate execution" }
  else
    { status := some .active
      nextRun := some (computeNextRun clock task.scheduleType task.scheduleValue task.nextRun) }

def staleTasks (table : Table) : List Task := table.rows.filter fun task => task.status = .running

def recover (clock : Clock) (stale : List Task) (table : Table) : Table :=
  stale.foldl (fun table task => table.updateTask task.id (recoverFields clock task)) table

namespace Board

def host (board : Board) : Ipc.Host := { groups := board.groups, tasks := board.db.tasks }

-- What the handler does to the table. A next_run that it sets comes from the schedule that it
-- leaves in the row.
def perform (board : Board) (effect : Effect) : Board :=
  let tasks := (board.host.apply effect).tasks
  { board with
    db := { board.db with tasks := tasks }
    origin := match effect with
      | .createTask task => Function.update board.origin task.id (.computed task.schedule)
      | .updateTask id fields =>
          if fields.nextRun.isSome then
            Function.update board.origin id
              (((tasks.find id).map fun task => .computed task.schedule).getD .unknown)
          else board.origin
      | _ => board.origin }

def updateRow (board : Board) (id : TaskId) (fields : Fields) : Board :=
  { board with db := board.db.updateTask id fields }

def queued? (board : Board) (id : Nat) : Option Flight :=
  board.flights.find? fun flight => flight.id = id ∧ flight.start = none

def started? (board : Board) (id : Nat) : Option Flight :=
  board.flights.find? fun flight => flight.id = id ∧ flight.start ≠ none

def withoutFlight (board : Board) (id : Nat) : Board :=
  { board with flights := board.flights.filter (·.id ≠ id) }

def begin (board : Board) (flight : Flight) (now : Int) (launch : Launch) : Board :=
  let db := board.db.beginRun flight.task now launch
  match launch with
  | .groupMissing =>
      { board.withoutFlight flight.id with
        db := db
        origin := Function.update board.origin flight.task.id .postponed }
  | .markFailed => { board.withoutFlight flight.id with db := db }
  | .launched =>
      { board with
        db := db
        flights := board.flights.map fun other =>
          if other = flight then { flight with start := some now } else other
        started := Function.update board.started flight.task.id true }

def finish (board : Board) (clock : Clock) (flight : Flight) (start : Int)
    (outcome : AgentOutcome) : Board :=
  { board.withoutFlight flight.id with
    db := board.db.finishRun clock flight.task start outcome
    origin := Function.update board.origin flight.task.id
      (if outcome = .cancelled then .unknown else .computed flight.task.schedule) }

def restart (board : Board) (clock : Clock) (count : Nat) : Board :=
  let stale := (staleTasks board.db.tasks).take count
  { board with
    db := { board.db with tasks := recover clock stale board.db.tasks }
    flights := []
    origin := fun id =>
      match stale.find? fun task => task.id = id ∧ task.scheduleType ≠ "once" with
      | some task => .computed task.schedule
      | none => board.origin id }

-- `clocks` gives the clock of the scheduler at each time.
def step (clocks : Int → Clock) (board : Board) : BoardEvent → Option Board
  | .schedule runtime folder isMain payload =>
      some ((Ipc.Handler.scheduleTask runtime board.host folder isMain payload).effects.foldl
        perform board)
  | .manage request runtime folder isMain payload =>
      some ((request.handle runtime board.host folder isMain payload).effects.foldl perform board)
  | .dashboardCancel id =>
      some (if isTaskId id then board.updateRow id { status := some .cancelled } else board)
  | .dashboardUpdate id body realText =>
      some (match dashboardValue body realText with
        | some value =>
            if isTaskId id then board.updateRow id { scheduleValue := some value } else board
        | none => board)
  | .queue id now =>
      ((board.db.tasks.getDueTasks now).find? fun task => task.id = id).map fun task =>
        { board with
          flights := board.flights ++ [{ id := board.nextId, task := task }]
          nextId := board.nextId + 1 }
  | .drop id => (board.queued? id).map fun flight => board.withoutFlight flight.id
  | .start id now launch => (board.queued? id).map fun flight => board.begin flight now launch
  | .finish id now outcome => (board.started? id).bind fun flight =>
      flight.start.map fun start => board.finish (clocks now) flight start outcome
  | .restart now count => some (board.restart (clocks now) count)

end Board

end EvoClaw.Scheduler
