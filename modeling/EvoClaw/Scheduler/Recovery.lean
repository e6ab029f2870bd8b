import EvoClaw.Scheduler.Model
import Mathlib.Data.List.TakeWhile

namespace EvoClaw.Scheduler

open Tasks (Task Fields Table)

-- What the last rows of the log of a task say, the newest first.
def Db.recentRuns (db : Db) (id : TaskId) : List LogRow :=
  ((db.logs.filter fun row => row.taskId = id).insertionSort
    fun first second => second.runAt ≤ first.runAt).take MAX_TASK_FAILURES

def LogRow.failed (row : LogRow) : Prop :=
  row.status = "error" ∨ row.status = "timeout"

-- How the agent call ends: with a dict, with an Exception (none for one whose text the log
-- cannot take, as that of a lone surrogate), or past both except clauses, with a
-- CancelledError or another BaseException.
inductive AgentEnd where
  | returned (result : Payload)
  | timedOut
  | raised (text : Option String)
  | escaped

-- A dict whose fields cannot be bound makes log_task_run raise, as does a status of None in
-- the NOT NULL column. A result that is no text cannot be cut to 500 characters.
def outcomeOfResult (realText : BitVec 64 → Option String) (result : Payload) : AgentOutcome :=
  match (result.get "status" (.str "error")).column realText,
      (result.get "result" .null).column realText, (result.get "error" .null).column realText with
  | some (some status), some _, some _ =>
      .returned status (match result.lookup "result" with
        | none => none
        | some (.str text) => some (some text)
        | some _ => some none)
  | _, _, _ => .raised

-- run_task from the end of its await. Where the text cannot be logged, the except clause
-- raises before it computes next_run_ts.
def Db.endRun (db : Db) (realText : BitVec 64 → Option String) (clock : Clock) (task : Task)
    (start : Int) : AgentEnd → Db
  | .returned result => db.finishRun clock task start (outcomeOfResult realText result)
  | .timedOut => db.finishRun clock task start .timedOut
  | .raised (some _) => db.finishRun clock task start .raised
  | .raised none => db.finalUpdate task none true
  | .escaped => db.finishRun clock task start .cancelled

-- A schedule that has a next run when the run ends, if croniter takes the call.
def ValidSchedule (croniter : Croniter) (add : Option Int → Int → Option Int) (task : Task)
    (start : Int) : Prop :=
  (task.scheduleType = "interval" ∧ ∃ ms, intOfText task.scheduleValue = some ms ∧ 0 < ms ∧
    (add ((some (lastRunBase task start)).filter (· ≠ 0)) ms).isSome) ∨
  (task.scheduleType = "cron" ∧ (croniter.getNext task.scheduleValue).isSome)

-- compute_next_run gets to the schedule: a cron expression needs croniter to take the keyword.
def Evaluated (croniter : Croniter) (task : Task) : Prop :=
  task.scheduleType = "cron" → croniter.hashUseDatetime = true

instance (croniter : Croniter) (task : Task) : Decidable (Evaluated croniter task) :=
  inferInstanceAs (Decidable (_ → _))

def invalidScheduleText : String :=
  "Invalid schedule expression — task paused. Repair the schedule to resume."

-- The row that the scheduler can go on with, or that its last runs have paused.
structure Recovered (clock : Clock) (db : Db) (row : Task) : Prop where
  ended : row.status ≠ .running
  runnable : (row.status = .active ∧ ∃ next, row.nextRun = some next ∧ clock.now < next) ∨
    (row.status = .paused ∧ (db.recentRuns row.id).length = MAX_TASK_FAILURES ∧
      ∀ run ∈ db.recentRuns row.id, run.failed)
  valid : ¬ (row.status = .paused ∧ row.lastResult = some invalidScheduleText)

section Ends

variable {croniter : Croniter} {add : Option Int → Int → Option Int} {clock : Clock} {db : Db}
  {task row : Task} {id : TaskId} {start now : Int} {outcome : AgentOutcome}

theorem nextRunOf_cron (htype : task.scheduleType = "cron") :
    nextRunOf (croniter.clock now add) task start = croniter.call task.scheduleValue := by
  have honce : ¬ "cron" = "once" := by decide
  have hinterval : ¬ "cron" = "interval" := by decide
  simp only [nextRunOf, computeNextRun, htype, if_neg honce, if_neg hinterval, if_true]
  rfl

-- A valid schedule has a next run exactly if it is evaluated.
theorem nextRunOf_isSome_iff (hvalid : ValidSchedule croniter add task start) :
    (nextRunOf (croniter.clock now add) task start).isSome ↔ Evaluated croniter task := by
  rcases hvalid with ⟨htype, ms, hms, hpos, hadd⟩ | ⟨htype, hcron⟩
  · have hnot : ¬ ms ≤ 0 := by omega
    have honce : ¬ "interval" = "once" := by decide
    refine iff_of_true ?_ fun hcron => absurd (htype.symm.trans hcron) (by decide)
    simp only [nextRunOf, computeNextRun, htype, if_neg honce, if_true, hms, Option.bind_some,
      if_neg hnot, Option.isSome_map]
    exact hadd
  · rw [nextRunOf_cron htype, Croniter.call]
    cases hkeyword : croniter.hashUseDatetime with
    | true => exact iff_of_true hcron fun _ => hkeyword
    | false =>
        refine iff_of_false Bool.false_ne_true fun hevaluated => ?_
        rw [hevaluated htype] at hkeyword
        cases hkeyword

theorem nextRunOf_of_evaluated (hvalid : ValidSchedule croniter add task start)
    (hevaluated : Evaluated croniter task) (now : Int) :
    ∃ next, nextRunOf (croniter.clock now add) task start = some next :=
  Option.isSome_iff_exists.mp ((nextRunOf_isSome_iff hvalid).mpr hevaluated)

theorem nextRun_of_not_evaluated (hvalid : ValidSchedule croniter add task start)
    (hevaluated : ¬ Evaluated croniter task) (outcome : AgentOutcome) :
    outcome.nextRun (croniter.clock now add) task start = none := by
  have hnone : nextRunOf (croniter.clock now add) task start = none := by
    rw [← Option.not_isSome_iff_eq_none, nextRunOf_isSome_iff hvalid]
    exact hevaluated
  cases outcome with
  | cancelled => rfl
  | _ => exact hnone

-- MAX_TASK_FAILURES failures at the head of the log are all the rows that are looked at.
theorem recentRuns_failed (h : MAX_TASK_FAILURES ≤ db.countRecentFailures id) :
    (db.recentRuns id).length = MAX_TASK_FAILURES ∧ ∀ run ∈ db.recentRuns id, run.failed := by
  have hcount : db.countRecentFailures id = ((db.recentRuns id).takeWhile fun row =>
      row.status = "error" ∨ row.status = "timeout").length := rfl
  rw [hcount] at h
  have htake : (db.recentRuns id).length ≤ MAX_TASK_FAILURES := List.length_take_le _ _
  have hbegins := List.takeWhile_prefix (l := db.recentRuns id)
    fun row => decide (row.status = "error" ∨ row.status = "timeout")
  have hlength := hbegins.length_le
  have hall := hbegins.eq_of_length (by omega)
  refine ⟨by omega, fun run hrun => ?_⟩
  rw [← hall] at hrun
  simpa [LogRow.failed] using List.mem_takeWhile_imp hrun

-- The finished row is written last by the finally block, whatever the branch before it wrote.
theorem find_finishRun_final (hrow : db.tasks.find task.id = some row) (outcome : AgentOutcome) :
    ∃ before : Task, before.id = task.id ∧ (db.finishRun clock task start outcome).tasks.find task.id =
      some (before.set (db.finalFields clock task start outcome)) := by
  have hid : row.id = task.id := (Table.find_eq_some_iff.mp hrow).2
  cases hfields : outcome.successFields start (outcome.nextRun clock task start) with
  | none =>
      refine ⟨row, hid, ?_⟩
      simp only [Db.finishRun, hfields, Db.finalUpdate, Db.updateTask, Table.find_updateTask,
        logOutcome_tasks, if_true, hrow, Option.map_some]
      rfl
  | some fields =>
      refine ⟨row.set fields, hid, ?_⟩
      simp only [Db.finishRun, hfields, Db.finalUpdate, ending_updateTask]
      simp only [Db.updateTask, Table.find_updateTask, logOutcome_tasks, if_true, hrow,
        Option.map_some]
      rfl

theorem finishRun_logs (db : Db) (clock : Clock) (task : Task) (start : Int)
    (outcome : AgentOutcome) : (db.finishRun clock task start outcome).logs =
      (db.logOutcome task start outcome).logs := by
  simp only [Db.finishRun]
  split <;> rfl

theorem autoPaused_text (count : Nat) :
    "Auto-paused after " ++ toString count ++ " consecutive failures." ≠ invalidScheduleText := by
  intro h
  have hchars := congrArg String.toList h
  simp [invalidScheduleText, String.toList_append] at hchars

theorem ending_of_none (htype : task.scheduleType ≠ "once") (db : Db) (failed : Bool) :
    db.ending task none failed = .invalidSchedule :=
  if_pos ⟨rfl, htype⟩

-- The finally block takes a missing next run for a broken schedule.
theorem not_recovered_invalid (nextRun : Option Int) (before : Task) :
    ¬ Recovered clock db (before.set (Db.Ending.invalidSchedule.fields nextRun)) :=
  fun h => h.valid ⟨rfl, rfl⟩

-- With a next run, only a row of failures pauses the task.
theorem recovered_finishRun (hadv : clock.Advances) {next : Int}
    (hnext : outcome.nextRun clock task start = some next)
    (hrow : db.tasks.find task.id = some row) :
    ∃ final, (db.finishRun clock task start outcome).tasks.find task.id = some final ∧
      Recovered clock (db.finishRun clock task start outcome) final := by
  obtain ⟨before, hid, hfind⟩ := @find_finishRun_final clock db task row start hrow outcome
  refine ⟨_, hfind, ?_⟩
  have hafter := now_lt_nextRun hadv hnext
  have hending : db.finalEnding clock task start outcome ≠ .invalidSchedule := by
    unfold Db.finalEnding Db.ending
    rw [hnext]
    split_ifs with hinvalid <;> simp at *
  have hnextRun : (before.set (db.finalFields clock task start outcome)).nextRun = some next := by
    rw [(written_final db clock task start outcome before).nextRun, hnext]
  have hstatus := (written_final db clock task start outcome before).status
  unfold Db.finalStatus at hstatus
  cases he : db.finalEnding clock task start outcome with
  | invalidSchedule => exact absurd he hending
  | failed | succeeded =>
      rw [he] at hstatus
      change _ = Tasks.Status.active at hstatus
      exact ⟨by rw [hstatus]; simp, Or.inl ⟨hstatus, next, hnextRun, hafter⟩,
        fun h => by rw [hstatus] at h; cases h.1⟩
  | autoPaused count =>
      rw [he] at hstatus
      change _ = Tasks.Status.paused at hstatus
      have hcount : MAX_TASK_FAILURES ≤
          (db.finishRun clock task start outcome).countRecentFailures task.id := by
        unfold Db.countRecentFailures
        rw [finishRun_logs]
        unfold Db.finalEnding Db.ending at he
        split_ifs at he with h1 h2 h3
        exact h3
      refine ⟨by rw [hstatus]; simp, Or.inr ⟨hstatus, ?_⟩, ?_⟩
      · rw [Task.set_id, hid]
        exact recentRuns_failed hcount
      · rintro ⟨-, hresult⟩
        rw [Db.finalFields, he] at hresult
        exact autoPaused_text count (Option.some.inj hresult)

theorem ValidSchedule.not_once (hvalid : ValidSchedule croniter add task start) :
    task.scheduleType ≠ "once" := by
  intro honce
  rcases hvalid with ⟨htype, -⟩ | ⟨htype, -⟩
  · rw [honce] at htype
    exact absurd htype (by decide)
  · rw [honce] at htype
    exact absurd htype (by decide)

-- Without a next run, the task is paused for an invalid schedule.
theorem not_recovered_finishRun (honce : task.scheduleType ≠ "once")
    (hnone : outcome.nextRun clock task start = none)
    (hrow : db.tasks.find task.id = some row) :
    ¬ ∃ final, (db.finishRun clock task start outcome).tasks.find task.id = some final ∧
      Recovered clock (db.finishRun clock task start outcome) final := by
  rintro ⟨final, hfinal, hrec⟩
  obtain ⟨before, -, hfind⟩ := @find_finishRun_final clock db task row start hrow outcome
  have hending : db.finalEnding clock task start outcome = .invalidSchedule := by
    rw [Db.finalEnding, hnone]
    exact ending_of_none honce _ _
  rw [hfind, Option.some.injEq, Db.finalFields, hending] at hfinal
  exact not_recovered_invalid _ before (hfinal ▸ hrec)

end Ends

section Samples

-- A task of every hour, whose second run ends at once.
def reportTask : Task :=
  { id := "t"
    groupFolder := "main"
    chatJid := "a"
    prompt := "report"
    scheduleType := "interval"
    scheduleValue := "3600000"
    nextRun := some 86400000
    status := .running }

-- The same at midnight UTC.
def dailyTask : Task :=
  { reportTask with scheduleType := "cron", scheduleValue := "0 0 * * *" }

-- The releases of croniter do not know the keyword.
def plainCroniter : Croniter where
  hashUseDatetime := false
  getNext := fun expression => if expression = "0 0 * * *" then some 172800000 else none

def plainAdd (lastRun : Option Int) (ms : Int) : Option Int :=
  some (lastRun.getD 86400001 + ms)

def sampleClock : Clock := plainCroniter.clock 86400001 plainAdd

def sampleDb (task : Task) : Db :=
  { tasks := { rows := [task], ids_nodup := List.nodup_singleton task.id } }

theorem sampleClock_advances : sampleClock.Advances := by
  intro expression next hnext
  cases hnext

theorem reportTask_valid (start : Int) : ValidSchedule plainCroniter plainAdd reportTask start :=
  .inl ⟨rfl, 3600000, by decide +kernel, by decide, rfl⟩

end Samples

end EvoClaw.Scheduler
