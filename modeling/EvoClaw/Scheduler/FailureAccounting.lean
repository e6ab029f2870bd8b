import EvoClaw.EventSystem.Runs
import EvoClaw.Scheduler.Recovery

-- The rows and the pauses that finished runs leave behind.
namespace EvoClaw.Scheduler

open EventSystem
open Tasks (Task Table)

-- The end of one run_task, for the row that the scheduler had read.
structure TaskRun where
  task : Task
  croniter : Croniter
  now : Int
  add : Option Int → Int → Option Int
  start : Int
  ended : AgentEnd

def TaskRun.clock (run : TaskRun) : Clock := run.croniter.clock run.now run.add

-- A run ends, or something other than the scheduler writes the tasks.
inductive LogEvent where
  | finished (run : TaskRun)
  | tasksWritten (tasks : Table)

def logStep (realText : BitVec 64 → Option String) (db : Db) : LogEvent → Option Db
  | .finished run =>
      if (db.tasks.find run.task.id).isSome then
        some (db.endRun realText run.clock run.task run.start run.ended)
      else none
  | .tasksWritten tasks => some { db with tasks := tasks }

-- The last MAX_TASK_FAILURES runs of the log are there and have all failed.
def Db.LastFailed (db : Db) (id : TaskId) : Prop :=
  (db.recentRuns id).length = MAX_TASK_FAILURES ∧ ∀ run ∈ db.recentRuns id, run.failed

-- What a run leaves paused, for its failures or for its schedule.
def Db.AutoPaused (db : Db) (id : TaskId) : Prop :=
  ∃ row, db.tasks.find id = some row ∧ row.status = .paused

-- The run has added one row to the log, and has paused its task exactly if its last runs
-- have failed.
def TaskRun.Accounted (run : TaskRun) (before after : Db) : Prop :=
  (∃ status, after.logs = before.logs ++ [⟨run.task.id, run.start, status⟩]) ∧
    (after.AutoPaused run.task.id ↔ after.LastFailed run.task.id)

-- The status of the row that an end of the run adds to the log. A result that is no text is logged
-- twice, and a cancelled run is not logged.
def AgentOutcome.logged : AgentOutcome → Option String
  | .returned _ (some none) => none
  | .returned status _ => some status
  | .timedOut => some "timeout"
  | .raised => some "error"
  | .cancelled => none

-- The run has one row. A next run keeps the task from being paused for a result, and without one it
-- is always paused, so that the row has to complete a row of failures only there.
def TaskRun.CountedOnce (run : TaskRun) (before : Db) (outcome : AgentOutcome) : Prop :=
  ∃ status, outcome.logged = some status ∧
    if Evaluated run.croniter run.task then
      outcome.failed = false →
        ¬ (before.logTaskRun run.task.id run.start status).LastFailed run.task.id
    else (before.logTaskRun run.task.id run.start status).LastFailed run.task.id

-- An exception is logged once where its text can be logged.
def TaskRun.Counts (run : TaskRun) (realText : BitVec 64 → Option String) (before : Db) : Prop :=
  match run.ended with
  | .returned result => run.CountedOnce before (outcomeOfResult realText result)
  | .timedOut => run.CountedOnce before .timedOut
  | .raised text => text ≠ none ∧ run.CountedOnce before .raised
  | .escaped => False

-- The schedule of a finished run is valid.
def LogEvent.Valid : LogEvent → Prop
  | .finished run => ValidSchedule run.croniter run.add run.task run.start
  | .tasksWritten _ => True

def LogEvent.Accounted (realText : BitVec 64 → Option String) (db : Db) (event : LogEvent) : Prop :=
  match event with
  | .finished run => ∀ next, logStep realText db event = some next → run.Accounted db next
  | .tasksWritten _ => True

def LogEvent.Counts (realText : BitVec 64 → Option String) (db : Db) : LogEvent → Prop
  | .finished run => run.Counts realText db
  | .tasksWritten _ => True

section Runs

variable {realText : BitVec 64 → Option String} {clock : Clock} {db after : Db} {task row : Task}
  {id : TaskId} {start next : Int} {outcome : AgentOutcome} {run : TaskRun}

theorem le_countRecentFailures_iff :
    MAX_TASK_FAILURES ≤ db.countRecentFailures id ↔ db.LastFailed id := by
  refine ⟨recentRuns_failed, fun ⟨hlength, hfailed⟩ => ?_⟩
  have hall : (db.recentRuns id).takeWhile (fun row =>
      row.status = "error" ∨ row.status = "timeout") = db.recentRuns id :=
    List.takeWhile_eq_self_iff.mpr fun row hrow => decide_eq_true (hfailed row hrow)
  have hcount : db.countRecentFailures id = ((db.recentRuns id).takeWhile fun row =>
      row.status = "error" ∨ row.status = "timeout").length := rfl
  rw [hcount, hall, hlength]

theorem lastFailed_of_logs (h : after.logs = db.logs) : after.LastFailed id ↔ db.LastFailed id := by
  unfold Db.LastFailed Db.recentRuns
  rw [h]

-- With a next run, the ending is told by the failures that are counted.
theorem finalEnding_of_next (hnext : outcome.nextRun clock task start = some next) :
    (∃ count, db.finalEnding clock task start outcome = .autoPaused count) ↔
      outcome.failed = true ∧ (db.logOutcome task start outcome).LastFailed task.id := by
  rw [← le_countRecentFailures_iff]
  unfold Db.finalEnding Db.ending
  rw [hnext]
  by_cases hfailed : outcome.failed = true
  · by_cases hmany : MAX_TASK_FAILURES ≤ (db.logOutcome task start outcome).countRecentFailures task.id
    · simp [hfailed, hmany]
    · simp [hfailed, hmany]
  · simp [hfailed]

theorem autoPaused_finishRun_iff (hrow : db.tasks.find task.id = some row) :
    (db.finishRun clock task start outcome).AutoPaused task.id ↔
      (db.finalEnding clock task start outcome).pauses = true := by
  obtain ⟨before, -, hfind⟩ := @find_finishRun_final clock db task row start hrow outcome
  have hstatus := (written_final db clock task start outcome before).status
  unfold Db.finalStatus at hstatus
  constructor
  · rintro ⟨final, hfinal, hpaused⟩
    rw [hfind, Option.some.injEq] at hfinal
    subst hfinal
    by_contra hpauses
    rw [hpaused, if_neg hpauses] at hstatus
    cases hstatus
  · intro hpauses
    rw [if_pos hpauses] at hstatus
    exact ⟨_, hfind, hstatus⟩

theorem finalEnding_pauses_of_next (hnext : outcome.nextRun clock task start = some next) :
    (db.finalEnding clock task start outcome).pauses = true ↔
      outcome.failed = true ∧ (db.logOutcome task start outcome).LastFailed task.id := by
  rw [← finalEnding_of_next hnext]
  constructor
  · intro hpauses
    cases hending : db.finalEnding clock task start outcome with
    | autoPaused count => exact ⟨count, rfl⟩
    | invalidSchedule =>
        unfold Db.finalEnding Db.ending at hending
        rw [hnext, if_neg (by simp)] at hending
        split_ifs at hending
    | failed | succeeded =>
        rw [hending] at hpauses
        cases hpauses
  · rintro ⟨count, hending⟩
    rw [hending]
    rfl

-- A next run is not always there, and then the task is paused in any case.
theorem finalEnding_pauses (hvalid : ValidSchedule run.croniter run.add run.task run.start)
    (hended : outcome ≠ .cancelled) :
    (db.finalEnding run.clock run.task run.start outcome).pauses = true ↔
      (Evaluated run.croniter run.task →
        outcome.failed = true ∧ (db.logOutcome run.task run.start outcome).LastFailed run.task.id) := by
  by_cases hevaluated : Evaluated run.croniter run.task
  · obtain ⟨next, hnext⟩ := nextRunOf_of_evaluated hvalid hevaluated run.now
    have hnextRun : outcome.nextRun run.clock run.task run.start = some next := by
      cases outcome with
      | cancelled => exact absurd rfl hended
      | _ => exact hnext
    rw [finalEnding_pauses_of_next hnextRun]
    exact ⟨fun h _ => h, fun h => h hevaluated⟩
  · refine iff_of_true ?_ fun h => absurd h hevaluated
    have hnone : outcome.nextRun run.clock run.task run.start = none :=
      nextRun_of_not_evaluated hvalid hevaluated outcome
    rw [Db.finalEnding, hnone, ending_of_none hvalid.not_once]
    rfl

-- The log of a run that adds one row.
theorem one_row_iff (db : Db) (task : Task) (start : Int) (outcome : AgentOutcome) :
    (∃ status, (db.logOutcome task start outcome).logs = db.logs ++ [⟨task.id, start, status⟩]) ↔
      ∃ status, outcome.logged = some status ∧
        db.logOutcome task start outcome = db.logTaskRun task.id start status := by
  have hnone (hlength : (db.logOutcome task start outcome).logs.length ≠ db.logs.length + 1) :
      ¬ ∃ status, (db.logOutcome task start outcome).logs =
        db.logs ++ [⟨task.id, start, status⟩] := by
    rintro ⟨status, h⟩
    exact hlength (by rw [h, List.length_append, List.length_singleton])
  cases outcome with
  | returned status result =>
      rcases result with _ | _ | text
      · exact iff_of_true ⟨status, rfl⟩ ⟨status, rfl, rfl⟩
      · refine iff_of_false (hnone ?_) (by simp [AgentOutcome.logged])
        simp [Db.logOutcome, Db.logTaskRun]
      · exact iff_of_true ⟨status, rfl⟩ ⟨status, rfl, rfl⟩
  | timedOut => exact iff_of_true ⟨"timeout", rfl⟩ ⟨"timeout", rfl, rfl⟩
  | raised => exact iff_of_true ⟨"error", rfl⟩ ⟨"error", rfl, rfl⟩
  | cancelled => exact iff_of_false (hnone (by simp [Db.logOutcome])) (by simp [AgentOutcome.logged])

theorem accounted_finishRun_iff
    (hvalid : ValidSchedule run.croniter run.add run.task run.start)
    (hrow : db.tasks.find run.task.id = some row) (outcome : AgentOutcome) :
    run.Accounted db (db.finishRun run.clock run.task run.start outcome) ↔
      run.CountedOnce db outcome := by
  unfold TaskRun.Accounted TaskRun.CountedOnce
  rw [finishRun_logs, one_row_iff, autoPaused_finishRun_iff hrow,
    lastFailed_of_logs (finishRun_logs db run.clock run.task run.start outcome)]
  rw [← exists_and_right]
  refine exists_congr fun status => ?_
  rw [and_assoc]
  refine and_congr_right fun hlogged => ?_
  have hended : outcome ≠ .cancelled := by
    rintro rfl
    cases hlogged
  have hlog : db.logOutcome run.task run.start outcome =
      db.logTaskRun run.task.id run.start status := by
    cases outcome with
    | returned other result =>
        rcases result with _ | _ | text
        · cases hlogged
          rfl
        · cases hlogged
        · cases hlogged
          rfl
    | timedOut | raised =>
        cases hlogged
        rfl
    | cancelled => cases hlogged
  rw [finalEnding_pauses hvalid hended, hlog]
  by_cases hevaluated : Evaluated run.croniter run.task
  · rw [if_pos hevaluated]
    cases outcome.failed <;> simp [hevaluated]
  · rw [if_neg hevaluated]
    simp [hevaluated]

theorem accounted_endRun_iff (realText : BitVec 64 → Option String)
    (hvalid : ValidSchedule run.croniter run.add run.task run.start)
    (hrow : db.tasks.find run.task.id = some row) :
    run.Accounted db (db.endRun realText run.clock run.task run.start run.ended) ↔
      run.Counts realText db := by
  unfold TaskRun.Counts Db.endRun
  cases run.ended with
  | returned result => exact accounted_finishRun_iff hvalid hrow _
  | timedOut => exact accounted_finishRun_iff hvalid hrow .timedOut
  | escaped =>
      refine (accounted_finishRun_iff hvalid hrow .cancelled).trans ?_
      simp [TaskRun.CountedOnce, AgentOutcome.logged]
  | raised text =>
      cases text with
      | some text =>
          refine (accounted_finishRun_iff hvalid hrow .raised).trans ?_
          simp
      | none =>
          -- The except clause raises before the row is written.
          refine iff_of_false ?_ (by simp)
          rintro ⟨⟨status, h⟩, -⟩
          have hlength := congrArg List.length h
          simp [Db.finalUpdate, Db.updateTask] at hlength

theorem accounted_iff_counts {event : LogEvent} (hvalid : event.Valid)
    (hstep : logStep realText db event = some after) :
    event.Accounted realText db ↔ event.Counts realText db := by
  cases event with
  | tasksWritten tasks => exact Iff.rfl
  | finished run =>
      have hfound : (db.tasks.find run.task.id).isSome = true := by
        by_contra hmissing
        simp [logStep, hmissing] at hstep
      obtain ⟨row, hrow⟩ := Option.isSome_iff_exists.mp hfound
      refine Iff.trans ?_ (accounted_endRun_iff realText hvalid hrow)
      simp [LogEvent.Accounted, logStep, hfound]

end Runs

section Samples

def sampleRun (start : Int) (ended : AgentEnd) : TaskRun :=
  { task := reportTask
    croniter := plainCroniter
    now := 86400001
    add := plainAdd
    start := start
    ended := ended }

theorem sampleRun_valid (start : Int) (ended : AgentEnd) :
    (LogEvent.finished (sampleRun start ended)).Valid :=
  reportTask_valid start

-- The dicts of a container that timed out, and of one without output markers.
def containerTimedOut : Payload :=
  [("status", .str "error"), ("result", .null), ("error", .str "Container timed out")]

def noOutputMarkers : Payload :=
  [("status", .str "error"), ("error", .str "no output markers"), ("messages", .arr [])]

def failedFour : Db :=
  { sampleDb reportTask with logs := [1, 2, 3, 4].map fun day => ⟨"t", 86400000 * day, "error"⟩ }

theorem not_along_of_not_counts {db next : Db} {event : LogEvent} (hvalid : event.Valid)
    (hstep : logStep (fun _ => none) db event = some next)
    (h : ¬ event.Counts (fun _ => none) db) :
    ¬ Along (logStep fun _ => none) (LogEvent.Accounted fun _ => none) db [event] := by
  rw [along_cons_of_step hstep, accounted_iff_counts hvalid hstep]
  exact fun hboth => h hboth.1

end Samples

end EvoClaw.Scheduler
