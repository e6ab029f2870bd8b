import EvoClaw.Json
import EvoClaw.Tasks.Table
import Mathlib.Data.List.Sort

namespace EvoClaw.Scheduler

open Tasks (Task Fields Table)

-- _MAX_TASK_FAILURES, as no TASK_MAX_FAILURES is configured.
def MAX_TASK_FAILURES : Nat := 5

-- The delay after which a task without a group is tried again.
def GROUP_MISSING_BACKOFF_MS : Int := 3600 * 1000

-- The time of a call, in milliseconds, and what the libraries compute from it. `add` is
-- int((base + ms / 1000) * 1000) in floating point, from the time itself where there is no
-- base, and none where that overflows. `cronNext` is what the call of croniter gives for an
-- expression in the configured time zone, none where it raises.
structure Clock where
  now : Int
  add : Option Int → Int → Option Int
  cronNext : String → Option Int

-- croniter with the present and the configured time zone. An expression that it cannot read, or
-- that never matches, has no next match.
structure Croniter where
  -- the constructor knows the keyword argument hash_use_datetime
  hashUseDatetime : Bool
  getNext : String → Option Int

-- croniter(schedule_value, start_time, hash_use_datetime=True).get_next(datetime)
def Croniter.call (croniter : Croniter) (expression : String) : Option Int :=
  if croniter.hashUseDatetime then croniter.getNext expression else none

def Croniter.clock (croniter : Croniter) (now : Int) (add : Option Int → Int → Option Int) :
    Clock where
  now
  add
  cronNext := croniter.call

-- while next_ts <= now_ms: next_ts += ms
def advance (ms now : Int) : Nat → Int → Int
  | 0, next => next
  | fuel + 1, next => if next ≤ now then advance ms now fuel (next + ms) else next

-- compute_next_run of task_scheduler.py. A last_run of 0 counts as missing.
def computeNextRun (clock : Clock) (scheduleType scheduleValue : String) (lastRun : Option Int) :
    Option Int :=
  if scheduleType = "once" then none
  else if scheduleType = "interval" then
    (intOfText scheduleValue).bind fun ms =>
      if ms ≤ 0 then none
      else (clock.add (lastRun.filter (· ≠ 0)) ms).map fun next =>
        advance ms clock.now (clock.now + 1 - next).toNat next
  else if scheduleType = "cron" then clock.cronNext scheduleValue
  else none

-- A row of task_run_logs.
structure LogRow where
  taskId : TaskId
  runAt : Int
  status : String
deriving DecidableEq

structure Db where
  tasks : Table := {}
  logs : List LogRow := []

namespace Db

def updateTask (db : Db) (id : TaskId) (fields : Fields) : Db :=
  { db with tasks := db.tasks.updateTask id fields }

def logTaskRun (db : Db) (id : TaskId) (runAt : Int) (status : String) : Db :=
  { db with logs := db.logs ++ [⟨id, runAt, status⟩] }

def countRecentFailures (db : Db) (id : TaskId) : Nat :=
  let rows := (db.logs.filter fun row => row.taskId = id).insertionSort
    fun first second => second.runAt ≤ first.runAt
  ((rows.take MAX_TASK_FAILURES).takeWhile fun row =>
    row.status = "error" ∨ row.status = "timeout").length

end Db

-- How the awaited agent call ends. The result of a returned dict may be absent or None.
-- CancelledError is no Exception, so it reaches only the finally block.
inductive AgentOutcome where
  | returned (status : String) (result : Option (Option String))
  | timedOut
  | raised
  | cancelled
deriving DecidableEq

-- What run_task does before it awaits the agent.
inductive Launch where
  | groupMissing
  | markFailed
  | launched
deriving DecidableEq

namespace Db

-- run_task up to its await. It works on the row that the scheduler has read.
def beginRun (db : Db) (task : Task) (now : Int) : Launch → Db
  | .groupMissing =>
      db.updateTask task.id { nextRun := some (some (now + GROUP_MISSING_BACKOFF_MS)) }
  | .markFailed => db
  | .launched => db.updateTask task.id { status := some .running }

-- Which of its four writes the finally block makes.
inductive Ending where
  | invalidSchedule
  | autoPaused (count : Nat)
  | failed
  | succeeded
deriving DecidableEq

def ending (db : Db) (task : Task) (nextRun : Option Int) (failed : Bool) : Ending :=
  if nextRun = none ∧ task.scheduleType ≠ "once" then .invalidSchedule
  else if failed then
    if MAX_TASK_FAILURES ≤ db.countRecentFailures task.id then
      .autoPaused (db.countRecentFailures task.id)
    else .failed
  else .succeeded

def Ending.pauses : Ending → Bool
  | .invalidSchedule | .autoPaused _ => true
  | .failed | .succeeded => false

def Ending.fields (nextRun : Option Int) : Ending → Fields
  | .invalidSchedule =>
      { status := some .paused
        nextRun := some none
        lastResult := some
          "Invalid schedule expression — task paused. Repair the schedule to resume." }
  | .autoPaused count =>
      { status := some .paused
        nextRun := some nextRun
        lastResult := some ("Auto-paused after " ++ toString count ++ " consecutive failures.") }
  | .failed => { status := some .active, nextRun := some nextRun }
  | .succeeded => { status := some .active, nextRun := some nextRun }

def finalUpdate (db : Db) (task : Task) (nextRun : Option Int) (failed : Bool) : Db :=
  db.updateTask task.id ((db.ending task nextRun failed).fields nextRun)

end Db

-- task.get("next_run") or start, for an interval task, and start for the others.
def lastRunBase (task : Task) (start : Int) : Int :=
  if task.scheduleType = "interval" then (task.nextRun.filter (· ≠ 0)).getD start else start

def nextRunOf (clock : Clock) (task : Task) (start : Int) : Option Int :=
  computeNextRun clock task.scheduleType task.scheduleValue (some (lastRunBase task start))

namespace Db

-- The rows of the log once the outcome is known. A result of None cannot be sliced, so the
-- success branch raises after it has logged the run.
def logOutcome (db : Db) (task : Task) (start : Int) : AgentOutcome → Db
  | .returned status (some none) =>
      (db.logTaskRun task.id start status).logTaskRun task.id start "error"
  | .returned status _ => db.logTaskRun task.id start status
  | .timedOut => db.logTaskRun task.id start "timeout"
  | .raised => db.logTaskRun task.id start "error"
  | .cancelled => db

end Db

-- The local variable failed when the finally block runs.
def AgentOutcome.failed : AgentOutcome → Bool
  | .returned _ (some none) => true
  | .returned _ _ => false
  | .timedOut => true
  | .raised => true
  | .cancelled => false

-- The local variable next_run_ts when the finally block runs.
def AgentOutcome.nextRun (clock : Clock) (task : Task) (start : Int) : AgentOutcome → Option Int
  | .cancelled => none
  | _ => nextRunOf clock task start

-- The update of the success branch, which keeps the first 500 characters of the result.
def AgentOutcome.successFields (start : Int) (nextRun : Option Int) :
    AgentOutcome → Option Fields
  | .returned _ (some none) => none
  | .returned _ result => some
      { lastRun := some start
        lastResult := some (String.ofList (((result.getD none).getD "").toList.take 500))
        nextRun := some nextRun }
  | _ => none

-- run_task from the end of its await.
def Db.finishRun (db : Db) (clock : Clock) (task : Task) (start : Int) (outcome : AgentOutcome) :
    Db :=
  let nextRun := outcome.nextRun clock task start
  let logged := db.logOutcome task start outcome
  let updated := match outcome.successFields start nextRun with
    | some fields => logged.updateTask task.id fields
    | none => logged
  updated.finalUpdate task nextRun outcome.failed

section Specs

variable {clock : Clock} {db : Db} {task row : Task} {id : TaskId} {start now : Int}
  {outcome : AgentOutcome} {ms next : Int} {fuel : Nat}

-- With as much fuel as the loop is given, it ends in the future.
theorem now_lt_advance (hms : 0 < ms) (hfuel : now + 1 - next ≤ fuel) :
    now < advance ms now fuel next := by
  induction fuel generalizing next with
  | zero =>
      simp only [advance]
      omega
  | succ fuel ih =>
      unfold advance
      split_ifs with hpast
      · apply ih
        omega
      · omega

-- croniter gives the next match after the start time.
def Clock.Advances (clock : Clock) : Prop :=
  ∀ expression next, clock.cronNext expression = some next → clock.now < next

theorem now_lt_computeNextRun (hcron : clock.Advances) {scheduleType scheduleValue : String}
    {lastRun : Option Int} (h : computeNextRun clock scheduleType scheduleValue lastRun = some next) :
    clock.now < next := by
  unfold computeNextRun at h
  split_ifs at h with honce hinterval hcronType
  · obtain ⟨ms, -, h⟩ := Option.bind_eq_some_iff.mp h
    split_ifs at h with hms
    obtain ⟨first, -, rfl⟩ := Option.map_eq_some_iff.mp h
    exact now_lt_advance (by omega) (Int.self_le_toNat _)
  · exact hcron _ _ h

theorem now_lt_nextRun (hcron : clock.Advances)
    (h : outcome.nextRun clock task start = some next) : clock.now < next := by
  cases outcome with
  | cancelled => cases h
  | _ => exact now_lt_computeNextRun hcron h

-- How the run ends, and the status and the columns that it then writes.
def Db.finalEnding (db : Db) (clock : Clock) (task : Task) (start : Int) (outcome : AgentOutcome) :
    Db.Ending :=
  (db.logOutcome task start outcome).ending task (outcome.nextRun clock task start) outcome.failed

def Db.finalStatus (db : Db) (clock : Clock) (task : Task) (start : Int) (outcome : AgentOutcome) :
    Tasks.Status :=
  if (db.finalEnding clock task start outcome).pauses then .paused else .active

def Db.finalFields (db : Db) (clock : Clock) (task : Task) (start : Int) (outcome : AgentOutcome) :
    Fields :=
  (db.finalEnding clock task start outcome).fields (outcome.nextRun clock task start)

theorem ending_updateTask (db : Db) (other : TaskId) (fields : Fields) (nextRun : Option Int)
    (failed : Bool) :
    (db.updateTask other fields).ending task nextRun failed = db.ending task nextRun failed := rfl

theorem ending_fields_nextRun (db : Db) (nextRun : Option Int) (failed : Bool) :
    ((db.ending task nextRun failed).fields nextRun).nextRun = some nextRun := by
  unfold Db.ending
  split_ifs with hinvalid hfailed hmany
  · rw [hinvalid.1]
    rfl
  · rfl
  · rfl
  · rfl

theorem ending_fields_status (ending : Db.Ending) (nextRun : Option Int) :
    (ending.fields nextRun).status = some (if ending.pauses then .paused else .active) := by
  cases ending <;> rfl

@[simp] theorem ending_fields_scheduleType (ending : Db.Ending) (nextRun : Option Int) :
    (ending.fields nextRun).scheduleType = none := by
  cases ending <;> rfl

@[simp] theorem ending_fields_scheduleValue (ending : Db.Ending) (nextRun : Option Int) :
    (ending.fields nextRun).scheduleValue = none := by
  cases ending <;> rfl

-- A finished run writes its own status and next_run and leaves the schedule alone.
structure Written (status : Tasks.Status) (nextRun : Option Int) (before after : Task) : Prop where
  id : after.id = before.id
  status : after.status = status
  nextRun : after.nextRun = nextRun
  scheduleType : after.scheduleType = before.scheduleType
  scheduleValue : after.scheduleValue = before.scheduleValue

theorem Written.schedule {status : Tasks.Status} {nextRun : Option Int} {before after : Task}
    (h : Written status nextRun before after) : after.schedule = before.schedule := by
  rw [Task.schedule, h.scheduleType, h.scheduleValue, Task.schedule]

theorem written_final (db : Db) (clock : Clock) (task : Task) (start : Int)
    (outcome : AgentOutcome) (row : Task) :
    Written (db.finalStatus clock task start outcome) (outcome.nextRun clock task start) row
      (row.set (db.finalFields clock task start outcome)) where
  id := rfl
  status := by
    rw [Task.set_status, Db.finalFields, ending_fields_status, Option.getD_some]
    rfl
  nextRun := by
    rw [Task.set_nextRun, Db.finalFields, Db.finalEnding, ending_fields_nextRun, Option.getD_some]
  scheduleType := by simp [Task.set, Db.finalFields]
  scheduleValue := by simp [Task.set, Db.finalFields]

theorem successFields_keep {fields : Fields} {nextRun : Option Int}
    (h : outcome.successFields start nextRun = some fields) (row : Task) :
    (row.set fields).scheduleType = row.scheduleType ∧
      (row.set fields).scheduleValue = row.scheduleValue := by
  cases outcome with
  | returned status result =>
      cases result with
      | none => cases h; exact ⟨rfl, rfl⟩
      | some result =>
          cases result with
          | none => cases h
          | some text => cases h; exact ⟨rfl, rfl⟩
  | _ => cases h

theorem logOutcome_tasks (db : Db) (task : Task) (start : Int) (outcome : AgentOutcome) :
    (db.logOutcome task start outcome).tasks = db.tasks := by
  unfold Db.logOutcome
  split <;> rfl

theorem find_finishRun (db : Db) (clock : Clock) (task : Task) (start : Int)
    (outcome : AgentOutcome) :
    ∃ write : Task → Task,
      (∀ row, Written (db.finalStatus clock task start outcome) (outcome.nextRun clock task start)
        row (write row)) ∧
      ∀ id, (db.finishRun clock task start outcome).tasks.find id =
        if id = task.id then (db.tasks.find id).map write else db.tasks.find id := by
  cases hfields : outcome.successFields start (outcome.nextRun clock task start) with
  | none =>
      refine ⟨_, written_final db clock task start outcome, fun id => ?_⟩
      simp only [Db.finishRun, hfields, Db.finalUpdate]
      simp only [Db.updateTask, Table.find_updateTask, logOutcome_tasks]
      rfl
  | some fields =>
      refine ⟨fun row => (row.set fields).set (db.finalFields clock task start outcome),
        fun row => ?_, fun id => ?_⟩
      · obtain ⟨htype, hvalue⟩ := successFields_keep hfields row
        have hfinal := written_final db clock task start outcome (row.set fields)
        exact ⟨rfl, hfinal.status, hfinal.nextRun, hfinal.scheduleType.trans htype,
          hfinal.scheduleValue.trans hvalue⟩
      · simp only [Db.finishRun, hfields, Db.finalUpdate, ending_updateTask]
        simp only [Db.updateTask, Table.find_updateTask, logOutcome_tasks]
        split_ifs
        · rw [Option.map_map]
          rfl
        · rfl

end Specs

end EvoClaw.Scheduler
