import EvoClaw.Scheduler.LostUpdates
import EvoClaw.Scheduler.Writers

namespace EvoClaw.Scheduler

open EventSystem
open Ipc (Effect)
open MessageLoop (Group)
open Tasks (Task Fields Table)

variable {clocks : Int → Clock} {board next : Board} {task row : Task} {id : TaskId}

-- compute_next_run can answer a time for the schedule.
def Accepts (clocks : Int → Clock) (schedule : String × String) : Prop :=
  ∃ now lastRun, (computeNextRun (clocks now) schedule.1 schedule.2 lastRun).isSome = true

def Recurring (task : Task) : Prop :=
  task.scheduleType = "interval" ∨ task.scheduleType = "cron"

def Origin.Allows (origin : Origin) (schedule : String × String) : Prop :=
  origin = .postponed ∨ origin = .computed schedule

-- The task will be due some time, and again where it recurs.
structure Fires (clocks : Int → Clock) (board : Board) (task : Task) : Prop where
  recurring : Recurring task → Accepts clocks task.schedule ∧ task.nextRun.isSome = true
  once : task.scheduleType = "once" → board.started task.id = false → task.nextRun.isSome = true

structure OnSchedule (clocks : Int → Clock) (board : Board) (task : Task) : Prop
    extends Fires clocks board task where
  allowed : Recurring task → (board.origin task.id).Allows task.schedule

def AllOnSchedule (clocks : Int → Clock) (board : Board) : Prop :=
  ∀ id task, board.db.tasks.find id = some task → task.status = .active →
    OnSchedule clocks board task

-- A message that asks for a recurring schedule has one that both evaluators accept, and one that
-- asks for a single run has a time that the handler can read.
def Asks (clocks : Int → Clock) (runtime : Ipc.Runtime) (started : Bool)
    (scheduleType scheduleValue : Json) : Prop :=
  ∀ type ∈ Ipc.requiredText runtime scheduleType, ∀ value ∈ Ipc.requiredText runtime scheduleValue,
    (type = "interval" ∨ type = "cron" → Accepts clocks (type, value) ∧
      (Ipc.computeNextRun runtime scheduleType scheduleValue).isSome = true) ∧
    (type = "once" → started = false →
      (Ipc.computeNextRun runtime scheduleType scheduleValue).isSome = true)

-- Messages ask for what can be evaluated, a resumed task has kept to its schedule, the dashboard
-- changes no schedule of an active recurring task but one that has been postponed, a run that
-- ends has the schedule of the row or pauses it, and the schedules of the rows that a restart
-- finds running can be evaluated.
def KeepsSchedule (clocks : Int → Clock) (board : Board) : BoardEvent → Prop
  | .schedule runtime folder isMain payload =>
      Ipc.requireOwnOrMain folder (payload.get "groupFolder" (.str folder)) isMain = true →
        (Ipc.Handler.newTask runtime board.host folder payload).isSome = true →
          runtime.uuid4 ∉ board.db.tasks.rows.map Task.id →
            Asks clocks runtime (board.started runtime.uuid4)
              (payload.get "schedule_type" (.str "")) (payload.get "schedule_value" (.str ""))
  | .manage .resumeTask _ folder isMain payload =>
      ∀ task ∈ board.host.getAuthorizedTask (payload.get "task_id" (.str "")) folder isMain,
        OnSchedule clocks board task
  | .manage .updateTask runtime folder isMain payload =>
      ∀ task ∈ board.host.getAuthorizedTask (payload.get "task_id" (.str "")) folder isMain,
        task.status = .active → Ipc.Handler.reschedules payload = true →
          (Ipc.Handler.updates runtime payload task).isSome = true →
            Asks clocks runtime (board.started task.id)
              (payload.get "schedule_type" (.str task.scheduleType))
              (payload.get "schedule_value" (.str task.scheduleValue))
  | .dashboardUpdate id body realText =>
      isTaskId id = true → ∀ value ∈ dashboardValue body realText,
        ∀ task ∈ board.db.tasks.find id, task.status = .active → Recurring task →
          value = task.scheduleValue ∨
            board.origin id = .postponed ∧ Accepts clocks (task.scheduleType, value)
  | .finish id now outcome =>
      ∀ flight ∈ board.started? id, ∀ start ∈ flight.start,
        ∀ task ∈ board.db.tasks.find flight.task.id,
          pausesAtEnd board.db (clocks now) flight.task start outcome = true ∨
            ¬Recurring task ∨ flight.task.schedule = task.schedule
  | .restart now count =>
      ∀ task ∈ (staleTasks board.db.tasks).take count, Recurring task →
        (computeNextRun (clocks now) task.scheduleType task.scheduleValue task.nextRun).isSome = true
  | _ => True

section Rows

theorem onSchedule_congr (horigin : next.origin task.id = board.origin task.id)
    (hstarted : next.started task.id = board.started task.id) :
    OnSchedule clocks next task ↔ OnSchedule clocks board task := by
  constructor
  · rintro ⟨⟨hrecurring, honce⟩, hallowed⟩
    exact ⟨⟨hrecurring, hstarted ▸ honce⟩, horigin ▸ hallowed⟩
  · rintro ⟨⟨hrecurring, honce⟩, hallowed⟩
    exact ⟨⟨hrecurring, hstarted ▸ honce⟩, horigin ▸ hallowed⟩

-- All rows but one are as before.
structure Touches (id : TaskId) (board next : Board) : Prop where
  find : ∀ other, other ≠ id → next.db.tasks.find other = board.db.tasks.find other
  origin : ∀ other, other ≠ id → next.origin other = board.origin other
  started : ∀ other, other ≠ id → next.started other = board.started other

theorem allOnSchedule_touched (h : AllOnSchedule clocks board) (htouches : Touches id board next) :
    AllOnSchedule clocks next ↔ ∀ task, next.db.tasks.find id = some task →
      task.status = .active → OnSchedule clocks next task := by
  refine ⟨fun hnext task => hnext id task, fun hrow other task hfind hactive => ?_⟩
  by_cases hother : other = id
  · subst hother
    exact hrow task hfind hactive
  · rw [htouches.find other hother] at hfind
    have hid : task.id = other := (Table.find_eq_some_iff.mp hfind).2
    subst hid
    exact (onSchedule_congr (htouches.origin _ hother) (htouches.started _ hother)).mpr
      (h _ task hfind hactive)

-- A row that is gone or that is not active needs nothing.
theorem allOnSchedule_of_inactive (h : AllOnSchedule clocks board)
    (htouches : Touches id board next)
    (hinactive : ∀ task, next.db.tasks.find id = some task → task.status ≠ .active) :
    AllOnSchedule clocks next :=
  (allOnSchedule_touched h htouches).mpr fun task hfind hactive =>
    absurd hactive (hinactive task hfind)

theorem allOnSchedule_same (h : AllOnSchedule clocks board)
    (hfind : ∀ id, next.db.tasks.find id = board.db.tasks.find id)
    (horigin : next.origin = board.origin) (hstarted : next.started = board.started) :
    AllOnSchedule clocks next := by
  intro id task hrow hactive
  rw [hfind] at hrow
  exact (onSchedule_congr (by rw [horigin]) (by rw [hstarted])).mpr (h id task hrow hactive)

end Rows

section Performing

variable {fields : Fields}

theorem touches_updateTask (board : Board) (id : TaskId) (fields : Fields) :
    Touches id board (board.perform (.updateTask id fields)) where
  find other hother := by
    show (board.db.tasks.updateTask id fields).find other = _
    rw [Table.find_updateTask, if_neg hother]
  origin other hother := by
    simp only [Board.perform]
    split
    · exact Function.update_of_ne hother ..
    · rfl
  started _ _ := rfl

theorem find_perform_update (fields : Fields)
    (hrow : board.db.tasks.find id = some row) :
    (board.perform (.updateTask id fields)).db.tasks.find id = some (row.set fields) := by
  show (board.db.tasks.updateTask id fields).find id = _
  rw [Table.find_updateTask, if_pos rfl, hrow]
  rfl

theorem origin_perform_update (hrow : board.db.tasks.find id = some row) :
    (board.perform (.updateTask id fields)).origin id =
      if fields.nextRun.isSome then .computed (row.set fields).schedule else board.origin id := by
  have hfind := find_perform_update fields hrow
  simp only [Board.perform]
  split
  · rw [Function.update_self]
    rw [show ((board.host.apply (.updateTask id fields)).tasks).find id = some (row.set fields)
      from hfind]
    rfl
  · rfl

theorem allOnSchedule_perform_update (h : AllOnSchedule clocks board)
    (hrow : board.db.tasks.find id = some row) :
    AllOnSchedule clocks (board.perform (.updateTask id fields)) ↔
      ((row.set fields).status = .active →
        OnSchedule clocks (board.perform (.updateTask id fields)) (row.set fields)) := by
  rw [allOnSchedule_touched h (touches_updateTask board id fields)]
  constructor
  · exact fun hnext => hnext _ (find_perform_update _ hrow)
  · intro hset task hfind
    cases (find_perform_update _ hrow).symm.trans hfind
    exact hset

-- A change that leaves schedule and next_run alone.
theorem onSchedule_unscheduled (hrow : board.db.tasks.find id = some row)
    (htype : fields.scheduleType = none) (hvalue : fields.scheduleValue = none)
    (hnext : fields.nextRun = none) :
    OnSchedule clocks (board.perform (.updateTask id fields)) (row.set fields) ↔
      OnSchedule clocks board row := by
  have hid : row.id = id := (Table.find_eq_some_iff.mp hrow).2
  have horigin : (board.perform (.updateTask id fields)).origin row.id = board.origin row.id := by
    rw [hid, origin_perform_update hrow, hnext]
    rfl
  have htype' : (row.set fields).scheduleType = row.scheduleType := by simp [Task.set, htype]
  have hvalue' : (row.set fields).scheduleValue = row.scheduleValue := by simp [Task.set, hvalue]
  have hnext' : (row.set fields).nextRun = row.nextRun := by simp [hnext]
  have hschedule : (row.set fields).schedule = row.schedule := by
    rw [Task.schedule, htype', hvalue', Task.schedule]
  rw [← onSchedule_congr horigin rfl]
  constructor
  · rintro ⟨⟨hrecurring, honce⟩, hallowed⟩
    simp only [Recurring, htype', hschedule, hnext', Task.set_id] at hrecurring honce hallowed
    exact ⟨⟨hrecurring, honce⟩, hallowed⟩
  · rintro ⟨⟨hrecurring, honce⟩, hallowed⟩
    refine ⟨⟨?_, ?_⟩, ?_⟩
    all_goals simp only [Recurring, htype', hschedule, hnext', Task.set_id]
    · exact hrecurring
    · exact honce
    · exact hallowed

-- A change of next_run comes from the schedule that the row has then.
theorem onSchedule_rescheduled (hrow : board.db.tasks.find id = some row)
    (hnext : fields.nextRun.isSome = true) :
    OnSchedule clocks (board.perform (.updateTask id fields)) (row.set fields) ↔
      Fires clocks board (row.set fields) := by
  have hid : row.id = id := (Table.find_eq_some_iff.mp hrow).2
  have horigin : (board.perform (.updateTask id fields)).origin (row.set fields).id =
      .computed (row.set fields).schedule := by
    rw [Task.set_id, hid, origin_perform_update hrow, if_pos hnext]
  constructor
  · rintro ⟨⟨hrecurring, honce⟩, -⟩
    exact ⟨hrecurring, honce⟩
  · rintro ⟨hrecurring, honce⟩
    exact ⟨⟨hrecurring, honce⟩, fun _ => .inr horigin⟩

end Performing

section Requests

variable {runtime : Ipc.Runtime} {folder : Folder} {isMain : Bool} {payload : Payload}
  {fields : Fields}

theorem find_of_authorized {host : Ipc.Host} {taskId : Json}
    (h : host.getAuthorizedTask taskId folder isMain = some task) :
    host.tasks.find task.id = some task := by
  unfold Ipc.Host.getAuthorizedTask at h
  split at h
  · have hfind := (Option.filter_eq_some_iff.mp h).1
    have hid := (Table.find_eq_some_iff.mp hfind).2
    rw [hid]
    exact hfind
  · cases h

-- pause_task, resume_task and cancel_task.
theorem manageTask_none {host : Ipc.Host} {manage : TaskId → Effect}
    (h : host.getAuthorizedTask (payload.get "task_id" (.str "")) folder isMain = none) :
    (Ipc.Handler.manageTask host folder isMain payload manage).effects = [] := by
  simp [Ipc.Handler.manageTask, h]

theorem manageTask_some {host : Ipc.Host} {manage : TaskId → Effect}
    (h : host.getAuthorizedTask (payload.get "task_id" (.str "")) folder isMain = some task) :
    (Ipc.Handler.manageTask host folder isMain payload manage).effects = [manage task.id] := by
  simp [Ipc.Handler.manageTask, h]

theorem allOnSchedule_pause (h : AllOnSchedule clocks board) :
    AllOnSchedule clocks ((Ipc.Handler.pauseTask board.host folder isMain payload).effects.foldl
      Board.perform board) := by
  unfold Ipc.Handler.pauseTask
  cases htask : board.host.getAuthorizedTask (payload.get "task_id" (.str "")) folder isMain with
  | none =>
      rw [manageTask_none htask]
      exact h
  | some task =>
      rw [manageTask_some htask]
      exact (allOnSchedule_perform_update h (find_of_authorized htask)).mpr fun hactive =>
        nomatch hactive

theorem allOnSchedule_delete (h : AllOnSchedule clocks board) (id : TaskId) :
    AllOnSchedule clocks (board.perform (.deleteTask id)) := by
  intro other row hfind hactive
  have hfind' : (board.db.tasks.deleteTask id).find other = some row := hfind
  rw [Table.find_deleteTask] at hfind'
  split_ifs at hfind'
  have hsame : OnSchedule clocks (board.perform (.deleteTask id)) row ↔
      OnSchedule clocks board row := onSchedule_congr rfl rfl
  exact hsame.mpr (h other row hfind' hactive)

theorem allOnSchedule_cancel (h : AllOnSchedule clocks board) :
    AllOnSchedule clocks ((Ipc.Handler.cancelTask board.host folder isMain payload).effects.foldl
      Board.perform board) := by
  unfold Ipc.Handler.cancelTask
  cases htask : board.host.getAuthorizedTask (payload.get "task_id" (.str "")) folder isMain with
  | none =>
      rw [manageTask_none htask]
      exact h
  | some task =>
      rw [manageTask_some htask]
      exact allOnSchedule_delete h task.id

theorem allOnSchedule_resume_iff (h : AllOnSchedule clocks board) :
    AllOnSchedule clocks ((Ipc.Handler.resumeTask board.host folder isMain payload).effects.foldl
        Board.perform board) ↔
      ∀ task ∈ board.host.getAuthorizedTask (payload.get "task_id" (.str "")) folder isMain,
        OnSchedule clocks board task := by
  unfold Ipc.Handler.resumeTask
  cases htask : board.host.getAuthorizedTask (payload.get "task_id" (.str "")) folder isMain with
  | none =>
      rw [manageTask_none htask]
      exact iff_of_true h fun task hmem => nomatch hmem
  | some task =>
      have hrow := find_of_authorized htask
      rw [manageTask_some htask, List.foldl_cons, List.foldl_nil,
        allOnSchedule_perform_update h hrow, onSchedule_unscheduled hrow rfl rfl rfl]
      simp

theorem updates_status (h : Ipc.Handler.updates runtime payload task = some fields) :
    fields.status = none := by
  simp only [Ipc.Handler.updates, Option.bind_eq_some_iff, Option.map_eq_some_iff] at h
  obtain ⟨_, -, _, -, _, -, _, -, _, -, rfl⟩ := h
  rfl

theorem updates_nextRun (h : Ipc.Handler.updates runtime payload task = some fields)
    (hreschedules : Ipc.Handler.reschedules payload = true) : fields.nextRun.isSome = true := by
  simp only [Ipc.Handler.updates, Option.bind_eq_some_iff, Option.map_eq_some_iff] at h
  obtain ⟨_, -, _, -, _, -, _, -, nextRun, hnext, rfl⟩ := h
  rw [if_pos hreschedules] at hnext
  obtain ⟨value, -, rfl⟩ := Option.map_eq_some_iff.mp hnext
  rfl

theorem updates_unscheduled (h : Ipc.Handler.updates runtime payload task = some fields)
    (hreschedules : ¬Ipc.Handler.reschedules payload = true) :
    fields.scheduleType = none ∧ fields.scheduleValue = none ∧ fields.nextRun = none := by
  simp only [Ipc.Handler.updates, Option.bind_eq_some_iff, Option.map_eq_some_iff] at h
  obtain ⟨_, -, scheduleType, htype, scheduleValue, hvalue, _, -, nextRun, hnext, rfl⟩ := h
  rw [if_neg hreschedules] at hnext
  simp only [Ipc.Handler.reschedules, decide_eq_true_eq, not_or] at hreschedules
  refine ⟨?_, ?_, (Option.some.inj hnext).symm⟩
  · cases scheduleType with
    | none => rfl
    | some text => exact absurd (isSome_of_updateText htype) hreschedules.1
  · cases scheduleValue with
    | none => rfl
    | some text => exact absurd (isSome_of_updateText hvalue) hreschedules.2

theorem fires_iff_asks {scheduleType scheduleValue : Json}
    (htype : Ipc.requiredText runtime scheduleType = some row.scheduleType)
    (hvalue : Ipc.requiredText runtime scheduleValue = some row.scheduleValue)
    (hnext : row.nextRun = Ipc.computeNextRun runtime scheduleType scheduleValue) :
    Fires clocks board row ↔
      Asks clocks runtime (board.started row.id) scheduleType scheduleValue := by
  have hasks : Asks clocks runtime (board.started row.id) scheduleType scheduleValue ↔
      (Recurring row → Accepts clocks row.schedule ∧ row.nextRun.isSome = true) ∧
        (row.scheduleType = "once" → board.started row.id = false →
          row.nextRun.isSome = true) := by
    simp only [Asks, htype, hvalue, hnext, Option.mem_def, Option.some.injEq, forall_eq',
      Recurring, Task.schedule]
  rw [hasks]
  exact ⟨fun h => ⟨h.recurring, h.once⟩, fun h => ⟨h.1, h.2⟩⟩

theorem eq_of_bindNextRun {asked stored : Option Int} (h : Ipc.bindNextRun asked = some stored) :
    stored = asked := by
  unfold Ipc.bindNextRun at h
  split_ifs at h
  exact (Option.some.inj h).symm

theorem newTask_id {host : Ipc.Host}
    (h : Ipc.Handler.newTask runtime host folder payload = some task) :
    task.id = runtime.uuid4 := by
  simp only [Ipc.Handler.newTask, Option.bind_eq_some_iff, Option.map_eq_some_iff] at h
  obtain ⟨_, -, _, -, _, -, _, -, _, -, _, -, rfl⟩ := h
  rfl

theorem newTask_fires_iff {host : Ipc.Host}
    (h : Ipc.Handler.newTask runtime host folder payload = some task) :
    Fires clocks board task ↔ Asks clocks runtime (board.started runtime.uuid4)
      (payload.get "schedule_type" (.str "")) (payload.get "schedule_value" (.str "")) := by
  rw [← newTask_id h]
  simp only [Ipc.Handler.newTask, Option.bind_eq_some_iff, Option.map_eq_some_iff] at h
  obtain ⟨_, -, _, -, _, htype, _, hvalue, _, hnext, _, -, rfl⟩ := h
  exact fires_iff_asks htype hvalue (eq_of_bindNextRun hnext)

-- What an absent key leaves in the column is the default that the evaluator is asked with.
theorem requiredText_updateText {key text : String} {given : Option String}
    (h : Ipc.Handler.updateText runtime payload key = some given) :
    Ipc.requiredText runtime (payload.get key (.str text)) = some (given.getD text) := by
  unfold Ipc.Handler.updateText at h
  cases hlookup : payload.lookup key with
  | none =>
      rw [hlookup] at h
      cases h
      rw [Payload.get, hlookup]
      rfl
  | some value =>
      rw [hlookup] at h
      obtain ⟨stored, hstored, rfl⟩ := Option.map_eq_some_iff.mp h
      rw [Payload.get, hlookup]
      exact hstored

theorem updates_fires_iff (h : Ipc.Handler.updates runtime payload task = some fields)
    (hreschedules : Ipc.Handler.reschedules payload = true) :
    Fires clocks board (task.set fields) ↔ Asks clocks runtime (board.started task.id)
      (payload.get "schedule_type" (.str task.scheduleType))
      (payload.get "schedule_value" (.str task.scheduleValue)) := by
  simp only [Ipc.Handler.updates, Option.bind_eq_some_iff, Option.map_eq_some_iff] at h
  obtain ⟨_, -, scheduleType, htype, scheduleValue, hvalue, _, -, nextRun, hnext, rfl⟩ := h
  rw [if_pos hreschedules] at hnext
  obtain ⟨stored, hstored, rfl⟩ := Option.map_eq_some_iff.mp hnext
  exact fires_iff_asks (requiredText_updateText htype) (requiredText_updateText hvalue)
    (eq_of_bindNextRun hstored)

theorem updateTask_effects {host : Ipc.Host}
    (htask : host.getAuthorizedTask (payload.get "task_id" (.str "")) folder isMain = some task)
    (hfields : Ipc.Handler.updates runtime payload task = some fields) :
    (Ipc.Handler.updateTask runtime host folder isMain payload).effects =
      if fields = {} then [] else [.updateTask task.id fields] := by
  simp only [Ipc.Handler.updateTask, htask, hfields]
  split <;> rfl

theorem allOnSchedule_update_iff (h : AllOnSchedule clocks board) :
    AllOnSchedule clocks ((Ipc.Handler.updateTask runtime board.host folder isMain
        payload).effects.foldl Board.perform board) ↔
      ∀ task ∈ board.host.getAuthorizedTask (payload.get "task_id" (.str "")) folder isMain,
        task.status = .active → Ipc.Handler.reschedules payload = true →
          (Ipc.Handler.updates runtime payload task).isSome = true →
            Asks clocks runtime (board.started task.id)
              (payload.get "schedule_type" (.str task.scheduleType))
              (payload.get "schedule_value" (.str task.scheduleValue)) := by
  cases htask : board.host.getAuthorizedTask (payload.get "task_id" (.str "")) folder isMain with
  | none =>
      simp only [Ipc.Handler.updateTask, htask]
      exact iff_of_true h fun task hmem => absurd hmem (Option.not_mem_none task)
  | some task =>
      have hrow := find_of_authorized htask
      cases hfields : Ipc.Handler.updates runtime payload task with
      | none =>
          simp only [Ipc.Handler.updateTask, htask, hfields]
          refine iff_of_true h ?_
          rintro _ hmem - - hupdates
          cases hmem
          rw [hfields] at hupdates
          cases hupdates
      | some fields =>
          have hstatus : (task.set fields).status = task.status := by
            simp [updates_status hfields]
          simp only [Option.mem_def, Option.some.injEq, forall_eq', hfields, Option.isSome_some,
            forall_true_left]
          rw [updateTask_effects htask hfields]
          by_cases hreschedules : Ipc.Handler.reschedules payload = true
          · have hnext := updates_nextRun hfields hreschedules
            have hne : fields ≠ {} := by
              rintro rfl
              cases hnext
            rw [if_neg hne, List.foldl_cons, List.foldl_nil,
              allOnSchedule_perform_update h hrow, hstatus, onSchedule_rescheduled hrow hnext,
              updates_fires_iff hfields hreschedules]
            simp only [hreschedules, forall_true_left]
          · obtain ⟨htype, hvalue, hnext⟩ := updates_unscheduled hfields hreschedules
            refine iff_of_true ?_ fun _ h => absurd h hreschedules
            split
            · exact h
            · rw [List.foldl_cons, List.foldl_nil, allOnSchedule_perform_update h hrow, hstatus]
              intro hactive
              rw [onSchedule_unscheduled hrow htype hvalue hnext]
              exact h task.id task hrow hactive

theorem touches_createTask (board : Board) {created : Task} {table : Table}
    (hcreate : board.db.tasks.createTask created = some table) :
    Touches created.id board (board.perform (.createTask created)) where
  find other hother := by
    show ((board.db.tasks.createTask created).getD board.db.tasks).find other = _
    rw [hcreate, Option.getD_some, Table.find_createTask hcreate, if_neg hother]
  origin other hother := Function.update_of_ne hother ..
  started _ _ := rfl

theorem newTask_status {host : Ipc.Host}
    (h : Ipc.Handler.newTask runtime host folder payload = some task) : task.status = .active := by
  simp only [Ipc.Handler.newTask, Option.bind_eq_some_iff, Option.map_eq_some_iff] at h
  obtain ⟨_, -, _, -, _, -, _, -, _, -, _, -, rfl⟩ := h
  rfl

theorem allOnSchedule_schedule_iff (h : AllOnSchedule clocks board) :
    AllOnSchedule clocks ((Ipc.Handler.scheduleTask runtime board.host folder isMain
        payload).effects.foldl Board.perform board) ↔
      (Ipc.requireOwnOrMain folder (payload.get "groupFolder" (.str folder)) isMain = true →
        (Ipc.Handler.newTask runtime board.host folder payload).isSome = true →
          runtime.uuid4 ∉ board.db.tasks.rows.map Task.id →
            Asks clocks runtime (board.started runtime.uuid4)
              (payload.get "schedule_type" (.str ""))
              (payload.get "schedule_value" (.str ""))) := by
  unfold Ipc.Handler.scheduleTask
  dsimp only
  by_cases hallowed : Ipc.requireOwnOrMain folder (payload.get "groupFolder" (.str folder)) isMain
      = true
  · rw [if_pos hallowed]
    cases hnew : Ipc.Handler.newTask runtime board.host folder payload with
    | none => exact iff_of_true h fun _ hsome => nomatch hsome
    | some created =>
        dsimp only
        rw [← newTask_fires_iff hnew, ← newTask_id hnew]
        by_cases htaken : created.id ∈ board.db.tasks.rows.map Task.id
        · have htaken' : created.id ∈ board.host.tasks.rows.map Task.id := htaken
          rw [if_pos htaken']
          exact iff_of_true h fun _ _ hfresh => absurd htaken hfresh
        · have htaken' : created.id ∉ board.host.tasks.rows.map Task.id := htaken
          obtain ⟨table, hcreate⟩ : ∃ table, board.db.tasks.createTask created = some table :=
            ⟨_, dif_neg htaken⟩
          have hfind : (board.perform (.createTask created)).db.tasks.find created.id =
              some created := by
            show ((board.db.tasks.createTask created).getD board.db.tasks).find created.id = _
            rw [hcreate, Option.getD_some, Table.find_createTask hcreate, if_pos rfl]
          have horigin : (board.perform (.createTask created)).origin created.id =
              .computed created.schedule := Function.update_self ..
          rw [if_neg htaken', List.foldl_cons, List.foldl_nil,
            allOnSchedule_touched h (touches_createTask board hcreate)]
          constructor
          · intro hnext _ _ _
            have hrow := hnext created hfind (newTask_status hnew)
            exact ⟨hrow.recurring, hrow.once⟩
          · intro hfires task hfind' _
            cases hfind.symm.trans hfind'
            have hrow := hfires hallowed rfl htaken
            exact ⟨⟨hrow.recurring, hrow.once⟩, fun _ => .inr horigin⟩
  · rw [if_neg hallowed]
    exact iff_of_true h fun hrequired => absurd hrequired hallowed

end Requests

section Dashboard

theorem touches_updateRow (board : Board) (id : TaskId) (fields : Fields) :
    Touches id board (board.updateRow id fields) where
  find other hother := by
    show (board.db.tasks.updateTask id fields).find other = _
    rw [Table.find_updateTask, if_neg hother]
  origin _ _ := rfl
  started _ _ := rfl

theorem find_updateRow (fields : Fields) :
    (board.updateRow id fields).db.tasks.find id =
      (board.db.tasks.find id).map fun row => row.set fields := by
  show (board.db.tasks.updateTask id fields).find id = _
  rw [Table.find_updateTask, if_pos rfl]

theorem allOnSchedule_dashboardCancel (h : AllOnSchedule clocks board) (id : TaskId) :
    AllOnSchedule clocks (board.updateRow id { status := some .cancelled }) := by
  refine allOnSchedule_of_inactive h (touches_updateRow board id _) fun task hfind => ?_
  rw [find_updateRow] at hfind
  obtain ⟨row, -, rfl⟩ := Option.map_eq_some_iff.mp hfind
  exact fun hactive => nomatch hactive

theorem allOnSchedule_dashboardUpdate_iff (h : AllOnSchedule clocks board) (id : TaskId)
    (value : String) :
    AllOnSchedule clocks (board.updateRow id { scheduleValue := some value }) ↔
      ∀ task ∈ board.db.tasks.find id, task.status = .active → Recurring task →
        value = task.scheduleValue ∨
          board.origin id = .postponed ∧ Accepts clocks (task.scheduleType, value) := by
  rw [allOnSchedule_touched h (touches_updateRow board id _), find_updateRow]
  cases hfind : board.db.tasks.find id with
  | none => simp
  | some row =>
      have hid : row.id = id := (Table.find_eq_some_iff.mp hfind).2
      simp only [Option.map_some, Option.some.injEq, forall_eq', Option.mem_def]
      refine forall_congr' fun hactive => ?_
      have hrow := h id row hfind hactive
      constructor
      · intro hnext hrecurring
        have haccepts := (hnext.recurring hrecurring).1
        cases hnext.allowed hrecurring with
        | inl hpostponed => exact .inr ⟨hid ▸ hpostponed, haccepts⟩
        | inr hcomputed =>
            cases hrow.allowed hrecurring with
            | inl hpostponed => exact .inr ⟨hid ▸ hpostponed, haccepts⟩
            | inr hbefore =>
                have hsame : Origin.computed row.schedule = .computed (row.scheduleType, value) :=
                  hbefore.symm.trans hcomputed
                simp only [Origin.computed.injEq, Task.schedule, Prod.mk.injEq] at hsame
                exact .inl hsame.2.symm
      · intro hvalue
        refine ⟨⟨fun hrecurring => ?_, hrow.once⟩, fun hrecurring => ?_⟩
        · cases hvalue hrecurring with
          | inl hsame =>
              subst hsame
              exact hrow.recurring hrecurring
          | inr hpostponed => exact ⟨hpostponed.2, (hrow.recurring hrecurring).2⟩
        · cases hvalue hrecurring with
          | inl hsame =>
              subst hsame
              exact hrow.allowed hrecurring
          | inr hpostponed => exact .inl (hid ▸ hpostponed.1)

end Dashboard

section Runs

variable {flight : Flight} {now start : Int} {clock : Clock} {outcome : AgentOutcome}

-- The tasks of the runs that wait for their agents have been started.
def FlightsStarted (board : Board) : Prop :=
  ∀ flight ∈ board.flights, flight.start ≠ none → board.started flight.task.id = true

theorem touches_begin (board : Board) (flight : Flight) (now : Int) (launch : Launch) :
    Touches flight.task.id board (board.begin flight now launch) where
  find other hother := by
    cases launch with
    | markFailed => rfl
    | groupMissing =>
        show (board.db.tasks.updateTask _ _).find other = _
        rw [Table.find_updateTask, if_neg hother]
    | launched =>
        show (board.db.tasks.updateTask _ _).find other = _
        rw [Table.find_updateTask, if_neg hother]
  origin other hother := by
    cases launch with
    | groupMissing => exact Function.update_of_ne hother ..
    | markFailed => rfl
    | launched => rfl
  started other hother := by
    cases launch with
    | groupMissing => rfl
    | markFailed => rfl
    | launched => exact Function.update_of_ne hother ..

theorem allOnSchedule_begin (h : AllOnSchedule clocks board) (flight : Flight) (now : Int)
    (launch : Launch) : AllOnSchedule clocks (board.begin flight now launch) := by
  cases launch with
  | markFailed => exact allOnSchedule_same h (fun _ => rfl) rfl rfl
  | launched =>
      refine allOnSchedule_of_inactive h (touches_begin board flight now _) fun task hfind => ?_
      have hfind' : (board.db.tasks.updateTask flight.task.id
        { status := some .running }).find flight.task.id = some task := hfind
      rw [Table.find_updateTask, if_pos rfl] at hfind'
      obtain ⟨row, -, rfl⟩ := Option.map_eq_some_iff.mp hfind'
      exact fun hactive => nomatch hactive
  | groupMissing =>
      rw [allOnSchedule_touched h (touches_begin board flight now _)]
      intro task hfind hactive
      have hfind' : (board.db.tasks.updateTask flight.task.id { nextRun := some (some
        (now + GROUP_MISSING_BACKOFF_MS)) }).find flight.task.id = some task := hfind
      rw [Table.find_updateTask, if_pos rfl] at hfind'
      obtain ⟨row, hrow, rfl⟩ := Option.map_eq_some_iff.mp hfind'
      have hid : row.id = flight.task.id := (Table.find_eq_some_iff.mp hrow).2
      have hbefore := h flight.task.id row hrow hactive
      refine ⟨⟨fun hrecurring => ⟨(hbefore.recurring hrecurring).1, rfl⟩, fun _ _ => rfl⟩,
        fun _ => .inl ?_⟩
      rw [Task.set_id, hid]
      exact Function.update_self ..

theorem nextRun_eq_some {next : Int} (h : outcome.nextRun clock task start = some next) :
    outcome ≠ .cancelled ∧ nextRunOf clock task start = some next := by
  cases outcome with
  | cancelled => cases h
  | returned status result => exact ⟨fun he => (nomatch he), h⟩
  | timedOut => exact ⟨fun he => (nomatch he), h⟩
  | raised => exact ⟨fun he => (nomatch he), h⟩

theorem touches_finish (board : Board) (clock : Clock) (flight : Flight) (start : Int)
    (outcome : AgentOutcome) :
    Touches flight.task.id board (board.finish clock flight start outcome) where
  find other hother := by
    obtain ⟨write, -, hfind⟩ := find_finishRun board.db clock flight.task start outcome
    exact (hfind other).trans (if_neg hother)
  origin other hother := Function.update_of_ne hother ..
  started _ _ := rfl

-- What the end of a run leaves in the row is on schedule when it is that of the row.
theorem onSchedule_finish_iff {now : Int} {written : Task}
    (hstarted : board.started flight.task.id = true) (hid : row.id = flight.task.id)
    (hruns : ¬pausesAtEnd board.db (clocks now) flight.task start outcome = true)
    (hwritten : Written (board.db.finalStatus (clocks now) flight.task start outcome)
      (outcome.nextRun (clocks now) flight.task start) row written) :
    OnSchedule clocks (board.finish (clocks now) flight start outcome) written ↔
      ¬Recurring row ∨ flight.task.schedule = row.schedule := by
  have hid' : written.id = flight.task.id := hwritten.id.trans hid
  have hrecurring : Recurring written ↔ Recurring row := by
    rw [Recurring, Recurring, hwritten.scheduleType]
  have horigin : (board.finish (clocks now) flight start outcome).origin written.id =
      if outcome = .cancelled then .unknown else .computed flight.task.schedule := by
    rw [hid']
    exact Function.update_self ..
  constructor
  · intro hnext
    by_cases hrow : Recurring row
    · have hallowed := hnext.allowed (hrecurring.mpr hrow)
      rw [horigin, hwritten.schedule] at hallowed
      refine .inr ?_
      split at hallowed
      · cases hallowed with
        | inl h => cases h
        | inr h => cases h
      · cases hallowed with
        | inl h => cases h
        | inr h => exact Origin.computed.inj h
    · exact .inl hrow
  · intro hrow
    have hdue : Recurring row →
        ∃ next, outcome.nextRun (clocks now) flight.task start = some next := by
      intro hr
      have hschedule : flight.task.schedule = row.schedule := hrow.resolve_left fun h => h hr
      have htype : flight.task.scheduleType = row.scheduleType := congrArg Prod.fst hschedule
      rw [← Option.ne_none_iff_exists']
      intro hnone
      apply hruns
      simp only [pausesAtEnd, decide_eq_true_eq]
      refine .inl ⟨hnone, ?_⟩
      rw [htype]
      cases hr with
      | inl hinterval => rw [hinterval]; decide
      | inr hcron => rw [hcron]; decide
    refine ⟨⟨fun hr => ?_, fun _ hnot => ?_⟩, fun hr => ?_⟩
    · obtain ⟨next, hnext⟩ := hdue (hrecurring.mp hr)
      have hschedule : flight.task.schedule = row.schedule :=
        hrow.resolve_left fun h => h (hrecurring.mp hr)
      have hcomputed := (nextRun_eq_some hnext).2
      refine ⟨⟨now, some (lastRunBase flight.task start), ?_⟩, ?_⟩
      · rw [hwritten.schedule, ← hschedule]
        exact Option.isSome_iff_exists.mpr ⟨next, hcomputed⟩
      · rw [hwritten.nextRun, hnext]
        rfl
    · have hflag : board.started written.id = false := hnot
      rw [hid', hstarted] at hflag
      cases hflag
    · obtain ⟨next, hnext⟩ := hdue (hrecurring.mp hr)
      have hschedule : flight.task.schedule = row.schedule :=
        hrow.resolve_left fun h => h (hrecurring.mp hr)
      rw [horigin, if_neg (nextRun_eq_some hnext).1, hwritten.schedule, hschedule]
      exact .inr rfl

theorem allOnSchedule_finish_iff {now : Int} (h : AllOnSchedule clocks board)
    (hstarted : board.started flight.task.id = true) :
    AllOnSchedule clocks (board.finish (clocks now) flight start outcome) ↔
      ∀ task ∈ board.db.tasks.find flight.task.id,
        pausesAtEnd board.db (clocks now) flight.task start outcome = true ∨
          ¬Recurring task ∨ flight.task.schedule = task.schedule := by
  obtain ⟨write, hwritten, hfind⟩ := find_finishRun board.db (clocks now) flight.task start outcome
  have hrow : (board.finish (clocks now) flight start outcome).db.tasks.find flight.task.id =
      (board.db.tasks.find flight.task.id).map write := (hfind _).trans (if_pos rfl)
  rw [allOnSchedule_touched h (touches_finish board (clocks now) flight start outcome), hrow]
  cases hbefore : board.db.tasks.find flight.task.id with
  | none => simp
  | some row =>
      have hid : row.id = flight.task.id := (Table.find_eq_some_iff.mp hbefore).2
      simp only [Option.map_some, Option.some.injEq, forall_eq', Option.mem_def]
      by_cases hpauses : pausesAtEnd board.db (clocks now) flight.task start outcome = true
      · have hpaused := (hwritten row).status.trans (finalStatus_eq_paused_iff.mpr hpauses)
        refine iff_of_true (fun hactive => ?_) (.inl hpauses)
        rw [hpaused] at hactive
        cases hactive
      · have hactive : (write row).status = .active := by
          rw [(hwritten row).status]
          have hnot := mt finalStatus_eq_paused_iff.mp hpauses
          unfold Db.finalStatus at hnot ⊢
          split_ifs at hnot ⊢
          · exact absurd rfl hnot
          · rfl
        simp only [hactive, forall_true_left, hpauses, Bool.false_eq_true, false_or]
        exact onSchedule_finish_iff hstarted hid hpauses (hwritten row)

end Runs

section Restart

variable {clock : Clock} {stale : List Task} {table : Table} {count : Nat}

theorem find_recover (hids : (stale.map Task.id).Nodup) (id : TaskId) :
    (recover clock stale table).find id =
      match stale.find? fun task => task.id = id with
      | some task => (table.find id).map fun row => row.set (recoverFields clock task)
      | none => table.find id := by
  unfold recover
  induction stale generalizing table with
  | nil => rfl
  | cons first rest ih =>
      rw [List.map_cons, List.nodup_cons] at hids
      rw [List.foldl_cons, ih hids.2, Table.find_updateTask, List.find?_cons]
      by_cases hfirst : first.id = id
      · have hnone : rest.find? (fun task => decide (task.id = id)) = none := by
          rw [List.find?_eq_none]
          intro task htask hid
          have hid' : task.id = id := by simpa using hid
          exact hids.1 (List.mem_map.mpr ⟨task, htask, hid'.trans hfirst.symm⟩)
        simp [hnone, hfirst]
      · have hne : ¬id = first.id := fun h => hfirst h.symm
        simp [hfirst, hne]

theorem nodup_stale (table : Table) (count : Nat) :
    (((staleTasks table).take count).map Task.id).Nodup :=
  table.ids_nodup.sublist (((List.take_sublist _ _).trans List.filter_sublist).map Task.id)

theorem find_of_stale (htask : task ∈ (staleTasks table).take count) :
    table.find task.id = some task :=
  Table.find_eq_some_iff.mpr
    ⟨List.mem_of_mem_filter (List.mem_of_mem_take htask), rfl⟩

theorem find_stale (htask : task ∈ (staleTasks table).take count) :
    ((staleTasks table).take count).find? (fun found => found.id = task.id) = some task :=
  Keyed.find?_of_mem (nodup_stale table count) htask

theorem find_restart_stale (htask : task ∈ (staleTasks board.db.tasks).take count) :
    (board.restart clock count).db.tasks.find task.id =
      some (task.set (recoverFields clock task)) := by
  show (recover clock _ board.db.tasks).find task.id = _
  rw [find_recover (nodup_stale board.db.tasks count), find_stale htask, find_of_stale htask]
  rfl

theorem restart_of_not_stale
    (hnone : ((staleTasks board.db.tasks).take count).find? (fun task => task.id = id) = none) :
    (board.restart clock count).db.tasks.find id = board.db.tasks.find id ∧
      (board.restart clock count).origin id = board.origin id := by
  constructor
  · show (recover clock _ board.db.tasks).find id = _
    rw [find_recover (nodup_stale board.db.tasks count), hnone]
  · have hnone' : ((staleTasks board.db.tasks).take count).find?
        (fun task => task.id = id ∧ task.scheduleType ≠ "once") = none := by
      rw [List.find?_eq_none] at hnone ⊢
      intro task htask hid
      have hid' : task.id = id ∧ task.scheduleType ≠ "once" := by simpa using hid
      exact hnone task htask (by simpa using hid'.1)
    simp only [Board.restart, hnone']

theorem origin_restart_stale (htask : task ∈ (staleTasks board.db.tasks).take count)
    (htype : task.scheduleType ≠ "once") :
    (board.restart clock count).origin task.id = .computed task.schedule := by
  have hfound : ((staleTasks board.db.tasks).take count).find?
      (fun found => found.id = task.id ∧ found.scheduleType ≠ "once") = some task :=
    Keyed.find?_of_unique htask ⟨rfl, htype⟩ fun found hmem hfound =>
      List.inj_on_of_nodup_map (nodup_stale board.db.tasks count) hmem htask hfound.1
  simp only [Board.restart, hfound]

-- A recovered row that recurs is active with whatever compute_next_run gave.
theorem onSchedule_recovered_iff {now : Int}
    (htask : task ∈ (staleTasks board.db.tasks).take count) (htype : task.scheduleType ≠ "once") :
    OnSchedule clocks (board.restart (clocks now) count)
        (task.set (recoverFields (clocks now) task)) ↔
      (Recurring task → (computeNextRun (clocks now) task.scheduleType task.scheduleValue
        task.nextRun).isSome = true) := by
  have hfields : recoverFields (clocks now) task =
      { status := some .active
        nextRun := some (computeNextRun (clocks now) task.scheduleType task.scheduleValue
          task.nextRun) } := if_neg htype
  have horigin : (board.restart (clocks now) count).origin task.id = .computed task.schedule :=
    origin_restart_stale htask htype
  rw [hfields]
  constructor
  · exact fun hnext hrecurring => (hnext.recurring hrecurring).2
  · intro hsome
    exact ⟨⟨fun hrecurring => ⟨⟨now, task.nextRun, hsome hrecurring⟩, hsome hrecurring⟩,
      fun honce => absurd honce htype⟩, fun _ => .inr horigin⟩

theorem recoverFields_once {now : Int} (honce : task.scheduleType = "once") :
    (task.set (recoverFields (clocks now) task)).status ≠ .active := by
  rw [recoverFields, if_pos honce]
  exact fun h => nomatch h

theorem allOnSchedule_restart_iff {now : Int} (h : AllOnSchedule clocks board) :
    AllOnSchedule clocks (board.restart (clocks now) count) ↔
      ∀ task ∈ (staleTasks board.db.tasks).take count, Recurring task →
        (computeNextRun (clocks now) task.scheduleType task.scheduleValue
          task.nextRun).isSome = true := by
  constructor
  · intro hnext task htask hrecurring
    have htype : task.scheduleType ≠ "once" := by
      cases hrecurring with
      | inl hinterval => rw [hinterval]; decide
      | inr hcron => rw [hcron]; decide
    have hactive : (task.set (recoverFields (clocks now) task)).status = .active := by
      rw [recoverFields, if_neg htype]
      rfl
    have hrow := hnext task.id _ (find_restart_stale htask) hactive
    exact (onSchedule_recovered_iff htask htype).mp hrow hrecurring
  · intro hsome id row hfind hactive
    cases hstale : ((staleTasks board.db.tasks).take count).find? fun task => task.id = id with
    | none =>
        have hunchanged : (board.restart (clocks now) count).db.tasks.find id =
              board.db.tasks.find id ∧
            (board.restart (clocks now) count).origin id = board.origin id :=
          restart_of_not_stale hstale
        obtain ⟨hrow, horigin⟩ := hunchanged
        rw [hrow] at hfind
        have hid : row.id = id := (Table.find_eq_some_iff.mp hfind).2
        have hsame : OnSchedule clocks (board.restart (clocks now) count) row ↔
            OnSchedule clocks board row := onSchedule_congr (by rw [hid, horigin]) rfl
        exact hsame.mpr (h id row hfind hactive)
    | some task =>
        have htask := List.mem_of_find?_eq_some hstale
        have hid : task.id = id := by simpa using List.find?_some hstale
        subst hid
        cases (find_restart_stale htask).symm.trans hfind
        by_cases htype : task.scheduleType = "once"
        · exact absurd hactive (recoverFields_once htype)
        · exact (onSchedule_recovered_iff htask htype).mpr (hsome task htask)

end Restart

section Steps

variable {event : BoardEvent} {effects : List Effect} {flight : Flight}

theorem flights_performAll (board : Board) (effects : List Effect) :
    (effects.foldl Board.perform board).flights = board.flights ∧
      (effects.foldl Board.perform board).started = board.started := by
  induction effects generalizing board with
  | nil => exact ⟨rfl, rfl⟩
  | cons effect rest ih => exact ih (board.perform effect)

theorem FlightsStarted.performAll (h : FlightsStarted board) (effects : List Effect) :
    FlightsStarted (effects.foldl Board.perform board) := by
  obtain ⟨hflights, hstarted⟩ := flights_performAll board effects
  unfold FlightsStarted
  rw [hflights, hstarted]
  exact h

theorem FlightsStarted.sub (h : FlightsStarted board)
    (hflights : ∀ flight ∈ next.flights, flight ∈ board.flights)
    (hstarted : next.started = board.started) : FlightsStarted next := by
  intro flight hflight hstart
  rw [hstarted]
  exact h flight (hflights flight hflight) hstart

theorem FlightsStarted.begin (h : FlightsStarted board) (flight : Flight) (now : Int)
    (launch : Launch) : FlightsStarted (board.begin flight now launch) := by
  cases launch with
  | groupMissing => exact h.sub (fun _ hmem => List.mem_of_mem_filter hmem) rfl
  | markFailed => exact h.sub (fun _ hmem => List.mem_of_mem_filter hmem) rfl
  | launched =>
      intro other hother hstart
      obtain ⟨before, hbefore, rfl⟩ := List.mem_map.mp hother
      show Function.update board.started flight.task.id true _ = true
      by_cases hflight : before = flight
      · rw [if_pos hflight, Function.update_self]
      · rw [if_neg hflight] at hstart ⊢
        by_cases htask : before.task.id = flight.task.id
        · rw [htask, Function.update_self]
        · rw [Function.update_of_ne htask]
          exact h before hbefore hstart

theorem FlightsStarted.step (h : FlightsStarted board)
    (hstep : board.step clocks event = some next) : FlightsStarted next := by
  cases event with
  | schedule runtime folder isMain payload =>
      cases hstep
      exact h.performAll _
  | manage request runtime folder isMain payload =>
      cases hstep
      exact h.performAll _
  | dashboardCancel id =>
      cases hstep
      split <;> exact h
  | dashboardUpdate id body realText =>
      cases hstep
      split
      · split <;> exact h
      · exact h
  | queue id now =>
      obtain ⟨task, -, rfl⟩ := Option.map_eq_some_iff.mp hstep
      intro flight hflight hstart
      cases List.mem_append.mp hflight with
      | inl hold => exact h flight hold hstart
      | inr hnew =>
          rw [List.mem_singleton.mp hnew] at hstart
          exact absurd rfl hstart
  | drop id =>
      obtain ⟨flight, -, rfl⟩ := Option.map_eq_some_iff.mp hstep
      exact h.sub (fun _ hmem => List.mem_of_mem_filter hmem) rfl
  | start id now launch =>
      obtain ⟨flight, -, rfl⟩ := Option.map_eq_some_iff.mp hstep
      exact h.begin flight now launch
  | finish id now outcome =>
      obtain ⟨flight, -, hflight⟩ := Option.bind_eq_some_iff.mp hstep
      obtain ⟨start, -, rfl⟩ := Option.map_eq_some_iff.mp hflight
      exact h.sub (fun _ hmem => List.mem_of_mem_filter hmem) rfl
  | restart now count =>
      cases hstep
      exact fun _ hmem => nomatch hmem

theorem started_of_started? {id : Nat} {start : Int} (h : FlightsStarted board)
    (hflight : board.started? id = some flight) (hstart : flight.start = some start) :
    board.started flight.task.id = true :=
  h flight (List.mem_of_find?_eq_some hflight) (by rw [hstart]; exact Option.some_ne_none _)

theorem allOnSchedule_manage_iff (h : AllOnSchedule clocks board) (request : Request)
    (runtime : Ipc.Runtime) (folder : Folder) (isMain : Bool) (payload : Payload) :
    AllOnSchedule clocks ((request.handle runtime board.host folder isMain payload).effects.foldl
        Board.perform board) ↔
      KeepsSchedule clocks board (.manage request runtime folder isMain payload) := by
  cases request with
  | pauseTask => exact iff_of_true (allOnSchedule_pause h) trivial
  | cancelTask => exact iff_of_true (allOnSchedule_cancel h) trivial
  | resumeTask => exact allOnSchedule_resume_iff h
  | updateTask => exact allOnSchedule_update_iff h

-- Each step keeps to the schedules exactly when its writer does.
theorem allOnSchedule_step_iff (h : AllOnSchedule clocks board) (hflights : FlightsStarted board)
    (hstep : board.step clocks event = some next) :
    AllOnSchedule clocks next ↔ KeepsSchedule clocks board event := by
  cases event with
  | schedule runtime folder isMain payload =>
      cases hstep
      exact allOnSchedule_schedule_iff h
  | manage request runtime folder isMain payload =>
      cases hstep
      exact allOnSchedule_manage_iff h request runtime folder isMain payload
  | dashboardCancel id =>
      cases hstep
      refine iff_of_true ?_ trivial
      split
      · exact allOnSchedule_dashboardCancel h id
      · exact h
  | dashboardUpdate id body realText =>
      cases hstep
      dsimp only [KeepsSchedule]
      cases hvalue : dashboardValue body realText with
      | none =>
          exact iff_of_true h fun _ value hmem => (nomatch hmem)
      | some value =>
          by_cases hid : isTaskId id = true
          · simp only [hid, if_true, forall_true_left, Option.mem_def, Option.some.injEq,
              forall_eq']
            exact allOnSchedule_dashboardUpdate_iff h id value
          · dsimp only
            rw [if_neg hid]
            exact iff_of_true h fun hneeded => absurd hneeded hid
  | queue id now =>
      obtain ⟨task, -, rfl⟩ := Option.map_eq_some_iff.mp hstep
      exact iff_of_true (allOnSchedule_same h (fun _ => rfl) rfl rfl) trivial
  | drop id =>
      obtain ⟨flight, -, rfl⟩ := Option.map_eq_some_iff.mp hstep
      exact iff_of_true (allOnSchedule_same h (fun _ => rfl) rfl rfl) trivial
  | start id now launch =>
      obtain ⟨flight, -, rfl⟩ := Option.map_eq_some_iff.mp hstep
      exact iff_of_true (allOnSchedule_begin h flight now launch) trivial
  | finish id now outcome =>
      obtain ⟨flight, hflight, hnext⟩ := Option.bind_eq_some_iff.mp hstep
      obtain ⟨start, hstart, rfl⟩ := Option.map_eq_some_iff.mp hnext
      simp only [KeepsSchedule, hflight, hstart, Option.mem_some_iff, forall_eq']
      exact allOnSchedule_finish_iff h (started_of_started? hflights hflight hstart)
  | restart now count =>
      cases hstep
      exact allOnSchedule_restart_iff h

end Steps

-- From a new database, every active task keeps to its schedule in every state exactly when
-- every writer does what KeepsSchedule says.
theorem allOnSchedule_iff (clocks : Int → Clock) (groups : List Group)
    (events : List BoardEvent) :
    Always (Board.step clocks) (AllOnSchedule clocks) { groups := groups } events ↔
      Along (Board.step clocks) (KeepsSchedule clocks) { groups := groups } events :=
  always_iff_along (fun board => AllOnSchedule clocks board ∧ FlightsStarted board)
    (fun _ _ _ h hg hstep => ⟨(allOnSchedule_step_iff h.1 h.2 hstep).mpr hg, h.2.step hstep⟩)
    (fun _ h => h.1)
    (fun _ _ _ h hstep hnext => (allOnSchedule_step_iff h.1 h.2 hstep).mp hnext)
    ⟨fun _ _ h => (nomatch h), fun _ h => (nomatch h)⟩

def soon : BoardEvent :=
  .schedule Ipc.plainRuntime "one" false
    [("chatJid", .str "tg:1"), ("prompt", .str "report"), ("schedule_type", .str "interval"),
      ("schedule_value", .str "soon")]

-- The message of a container has a schedule that cannot be evaluated: the task is active and
-- never due.
theorem unreadable_schedule_active :
    ¬ Always (Board.step clockAt) (AllOnSchedule clockAt) { groups := Ipc.twoGroups.groups }
      [soon] := by
  intro h
  obtain ⟨board, hrun⟩ : ∃ board,
      run (Board.step clockAt) { groups := Ipc.twoGroups.groups } [soon] = some board := ⟨_, rfl⟩
  have hall := h.reached hrun
  have hrow : (run (Board.step clockAt) { groups := Ipc.twoGroups.groups } [soon]).bind
      (fun board => (board.db.tasks.find "t1").map fun task =>
        (task.status, task.scheduleType, task.nextRun)) =
      some (.active, "interval", none) := by decide +kernel
  rw [hrun, Option.bind_some] at hrow
  obtain ⟨task, hfind, hcolumns⟩ := Option.map_eq_some_iff.mp hrow
  simp only [Prod.mk.injEq] at hcolumns
  obtain ⟨hactive, htype, hnext⟩ := hcolumns
  have hdue := ((hall "t1" task hfind hactive).recurring (.inl htype)).2
  rw [hnext] at hdue
  cases hdue

end EvoClaw.Scheduler
