import EvoClaw.Scheduler.Requests

namespace EvoClaw.Scheduler

open EventSystem
open Ipc (Effect)
open Tasks (Task Fields Table)

def pauses : Effect → Bool
  | .updateTask _ fields => fields.status = some .paused
  | _ => false

def cancels : Effect → Bool
  | .deleteTask _ => true
  | _ => false

def reschedules : Effect → Bool
  | .updateTask _ fields => fields.scheduleType.isSome ∨ fields.scheduleValue.isSome
  | _ => false

-- What was asked for while the run was in flight still holds when it has finished.
def Respected (finished : Finished) : Prop :=
  ∀ row ∈ finished.row,
    (finished.requests.getLast?.any pauses = true → row.status = .paused) ∧
    finished.requests.any cancels = false ∧
    (finished.requests.any reschedules = true → finished.computedFrom = some row.schedule)

instance : DecidablePred Respected := fun finished =>
  inferInstanceAs (Decidable (∀ row ∈ finished.row, _))

def NoLostUpdate (system : System) : Prop :=
  ∀ finished ∈ system.finished, Respected finished

instance : DecidablePred NoLostUpdate := fun system =>
  inferInstanceAs (Decidable (∀ finished ∈ system.finished, _))

-- The finally block pauses a task whose schedule cannot be evaluated, and one that has
-- failed for the last time.
def pausesAtEnd (db : Db) (clock : Clock) (task : Task) (start : Int) (outcome : AgentOutcome) :
    Bool :=
  (outcome.nextRun clock task start = none ∧ task.scheduleType ≠ "once") ∨
    (outcome.failed ∧ MAX_TASK_FAILURES ≤
      (db.logOutcome task start outcome).countRecentFailures task.id)

-- The end of a run overwrites no request: the row is gone, or no pause is the last request
-- since the row was read, unless the run pauses the task too, and the schedule has not been
-- changed since to another one. A run that returns early leaves the status alone.
def overwritesNothing (system : System) : Event → Prop
  | .start id _ .groupMissing =>
      ∀ run ∈ system.queued? id, ∀ row ∈ system.db.tasks.find run.task.id,
        (run.requests.getLast?.any pauses = true → row.status = .paused) ∧
        run.requests.any reschedules = false
  | .start id _ .markFailed =>
      ∀ run ∈ system.queued? id, ∀ row ∈ system.db.tasks.find run.task.id,
        (run.requests.getLast?.any pauses = true → row.status = .paused) ∧
        (run.requests.any reschedules = true →
          system.computedFrom run.task.id = some row.schedule)
  | .finish id clock outcome =>
      ∀ run ∈ system.started? id, ∀ start ∈ run.start,
        ∀ row ∈ system.db.tasks.find run.task.id,
          (run.requests.getLast?.any pauses = true →
            pausesAtEnd system.db clock run.task start outcome = true) ∧
          (run.requests.any reschedules = true →
            outcome ≠ .cancelled ∧ run.task.schedule = row.schedule)
  | _ => True

instance (system : System) : DecidablePred (overwritesNothing system)
  | .start id _ .groupMissing => inferInstanceAs (Decidable (∀ run ∈ system.queued? id, _))
  | .start id _ .markFailed => inferInstanceAs (Decidable (∀ run ∈ system.queued? id, _))
  | .finish id _ _ => inferInstanceAs (Decidable (∀ run ∈ system.started? id, _))
  | .start _ _ .launched | .queue .. | .drop _ | .ipc .. => isTrue trivial

-- The requests that the handler passes on to the table.
def Manages : Effect → Prop
  | .updateTask _ fields =>
      fields.scheduleType.isSome ∨ fields.scheduleValue.isSome → fields.nextRun.isSome
  | .deleteTask _ => True
  | _ => False

-- No run brings a deleted row back.
def CancelledGone (system : System) : Prop :=
  ∀ run ∈ system.runs, run.requests.any cancels = true →
    system.db.tasks.find run.task.id = none

section Requests

variable {runtime : Ipc.Runtime} {host : Ipc.Host} {folder : Folder} {isMain : Bool}
  {payload : Payload}

theorem manageTask_effects {manage : TaskId → Effect} (hmanage : ∀ id, Manages (manage id)) :
    ∀ effect ∈ (Ipc.Handler.manageTask host folder isMain payload manage).effects,
      Manages effect := by
  intro effect heffect
  unfold Ipc.Handler.manageTask at heffect
  split at heffect
  · cases heffect
  · rw [List.mem_singleton.mp heffect]
    exact hmanage _

theorem isSome_of_updateText {key : String} {text : String}
    (h : Ipc.Handler.updateText runtime payload key = some (some text)) :
    (payload.lookup key).isSome = true := by
  unfold Ipc.Handler.updateText at h
  split at h
  · cases h
  · simp [*]

-- A request that changes the schedule computes next_run again.
theorem manages_updates {task : Task} {fields : Fields}
    (h : Ipc.Handler.updates runtime payload task = some fields) (id : TaskId) :
    Manages (.updateTask id fields) := by
  simp only [Ipc.Handler.updates, Option.bind_eq_some_iff, Option.map_eq_some_iff] at h
  obtain ⟨prompt, -, scheduleType, htype, scheduleValue, hvalue, mode, -, nextRun, hnext, rfl⟩ := h
  intro hchanged
  have hreschedules : Ipc.Handler.reschedules payload = true := by
    rw [Ipc.Handler.reschedules, decide_eq_true_eq]
    apply hchanged.imp
    · intro hsome
      obtain ⟨text, rfl⟩ := Option.isSome_iff_exists.mp hsome
      exact isSome_of_updateText htype
    · intro hsome
      obtain ⟨text, rfl⟩ := Option.isSome_iff_exists.mp hsome
      exact isSome_of_updateText hvalue
  rw [if_pos hreschedules] at hnext
  obtain ⟨value, -, rfl⟩ := Option.map_eq_some_iff.mp hnext
  rfl

theorem handle_manages (request : Request) :
    ∀ effect ∈ (request.handle runtime host folder isMain payload).effects, Manages effect := by
  cases request with
  | pauseTask => exact manageTask_effects fun id => by simp [Manages]
  | resumeTask => exact manageTask_effects fun id => by simp [Manages]
  | cancelTask => exact manageTask_effects fun id => trivial
  | updateTask =>
      intro effect heffect
      simp only [Request.handle, Ipc.Handler.updateTask] at heffect
      split at heffect
      · cases heffect
      · split at heffect
        · cases heffect
        · rename_i fields hfields
          split_ifs at heffect
          · cases heffect
          · rw [List.mem_singleton.mp heffect]
            exact manages_updates hfields _

end Requests

section Steps

variable {system next : System} {db : Db} {run : Run} {effect : Effect} {effects : List Effect}
  {id : TaskId} {number : Nat} {now start : Int} {clock : Clock} {outcome : AgentOutcome}
  {source : Option (String × String)}

theorem find_perform_none (hmanages : Manages effect) (h : system.db.tasks.find id = none) :
    (system.perform effect).db.tasks.find id = none := by
  cases effect with
  | updateTask target fields =>
      show (system.db.tasks.updateTask target fields).find id = none
      rw [Table.find_updateTask, h]
      simp
  | deleteTask target =>
      show (system.db.tasks.deleteTask target).find id = none
      rw [Table.find_deleteTask, h]
      simp
  | _ => exact hmanages.elim

theorem find_perform_cancelled (hcancels : cancels effect = true) (htask : taskOf effect = some id) :
    (system.perform effect).db.tasks.find id = none := by
  cases effect with
  | deleteTask target =>
      cases htask
      show (system.db.tasks.deleteTask id).find id = none
      rw [Table.find_deleteTask, if_pos rfl]
  | _ => cases hcancels

theorem CancelledGone.perform (h : CancelledGone system) (hmanages : Manages effect) :
    CancelledGone (system.perform effect) := by
  intro run hrun hcancels
  obtain ⟨before, hbefore, rfl⟩ := List.mem_map.mp hrun
  split_ifs at hcancels ⊢ with htask
  · rw [List.any_append, Bool.or_eq_true] at hcancels
    rcases hcancels with hold | hnew
    · exact find_perform_none hmanages (h before hbefore hold)
    · exact find_perform_cancelled (by simpa using hnew) htask
  · exact find_perform_none hmanages (h before hbefore hcancels)

theorem CancelledGone.performAll (h : CancelledGone system)
    (hmanages : ∀ effect ∈ effects, Manages effect) :
    CancelledGone (effects.foldl System.perform system) := by
  induction effects generalizing system with
  | nil => exact h
  | cons effect rest ih =>
      rw [List.forall_mem_cons] at hmanages
      exact ih (h.perform hmanages.1) hmanages.2

theorem finished_performAll (system : System) (effects : List Effect) :
    (effects.foldl System.perform system).finished = system.finished := by
  induction effects generalizing system with
  | nil => rfl
  | cons effect rest ih => exact ih (system.perform effect)

theorem mem_of_queued? (h : system.queued? number = some run) : run ∈ system.runs :=
  List.mem_of_find?_eq_some h

theorem mem_of_started? (h : system.started? number = some run) : run ∈ system.runs :=
  List.mem_of_find?_eq_some h

theorem find_beginRun_none {launch : Launch} {task : Task} (h : db.tasks.find id = none) :
    (db.beginRun task now launch).tasks.find id = none := by
  cases launch <;> simp [Db.beginRun, Db.updateTask, Table.find_updateTask, h]

theorem find_finishRun_none {task : Task} (h : db.tasks.find id = none) :
    (db.finishRun clock task start outcome).tasks.find id = none := by
  obtain ⟨write, -, hfind⟩ := find_finishRun db clock task start outcome
  rw [hfind, h]
  simp

theorem CancelledGone.close (h : CancelledGone system)
    (hdb : ∀ id, system.db.tasks.find id = none → db.tasks.find id = none) :
    CancelledGone (system.close run db source) := by
  intro other hother hcancels
  exact hdb _ (h other (List.mem_of_mem_filter hother) hcancels)

theorem CancelledGone.step {event : Event} (h : CancelledGone system)
    (hstep : system.step event = some next) : CancelledGone next := by
  cases event with
  | queue id now =>
      obtain ⟨task, -, rfl⟩ := Option.map_eq_some_iff.mp hstep
      intro run hrun hcancels
      rcases List.mem_append.mp hrun with hold | hnew
      · exact h run hold hcancels
      · rw [List.mem_singleton.mp hnew] at hcancels
        cases hcancels
  | drop id =>
      obtain ⟨run, -, rfl⟩ := Option.map_eq_some_iff.mp hstep
      exact fun other hother => h other (List.mem_of_mem_filter hother)
  | start id now launch =>
      obtain ⟨run, -, rfl⟩ := Option.map_eq_some_iff.mp hstep
      cases launch with
      | groupMissing => exact h.close fun _ => find_beginRun_none
      | markFailed => exact h.close fun _ => find_beginRun_none
      | launched =>
          intro other hother hcancels
          obtain ⟨before, hbefore, rfl⟩ := List.mem_map.mp hother
          apply find_beginRun_none
          split_ifs at hcancels ⊢
          · exact h before hbefore hcancels
          · exact h before hbefore hcancels
  | finish id clock outcome =>
      obtain ⟨run, -, hrun⟩ := Option.bind_eq_some_iff.mp hstep
      obtain ⟨start, -, rfl⟩ := Option.map_eq_some_iff.mp hrun
      exact h.close fun _ => find_finishRun_none
  | ipc request runtime folder isMain payload =>
      cases hstep
      exact h.performAll (handle_manages request)

-- What a run that ends leaves behind is the only new thing to check.
theorem noLostUpdate_close_iff (h : NoLostUpdate system) :
    NoLostUpdate (system.close run db source) ↔
      Respected ⟨run.requests, db.tasks.find run.task.id, source⟩ := by
  constructor
  · intro hclosed
    exact hclosed _ (List.mem_append_right _ (List.mem_singleton_self _))
  · intro hrespected finished hfinished
    rcases List.mem_append.mp hfinished with hold | hnew
    · exact h finished hold
    · rw [List.mem_singleton.mp hnew]
      exact hrespected

theorem respected_iff (h : CancelledGone system) (hrun : run ∈ system.runs)
    (write : Task → Task) :
    Respected ⟨run.requests, (system.db.tasks.find run.task.id).map write, source⟩ ↔
      ∀ row ∈ system.db.tasks.find run.task.id,
        (run.requests.getLast?.any pauses = true → (write row).status = .paused) ∧
        (run.requests.any reschedules = true → source = some (write row).schedule) := by
  cases hfind : system.db.tasks.find run.task.id with
  | none => simp [Respected]
  | some row =>
      have hcancels : run.requests.any cancels = false := by
        rw [← Bool.not_eq_true]
        intro hcancels
        rw [h run hrun hcancels] at hfind
        cases hfind
      simp [Respected, hcancels]

theorem finalStatus_eq_paused_iff {task : Task} :
    db.finalStatus clock task start outcome = .paused ↔
      pausesAtEnd db clock task start outcome = true := by
  unfold Db.finalStatus Db.finalEnding Db.ending pausesAtEnd
  split_ifs <;> simp_all [Db.Ending.pauses]

theorem sourceOf_eq_some_iff {task : Task} {schedule : String × String} :
    System.sourceOf task outcome = some schedule ↔
      outcome ≠ .cancelled ∧ task.schedule = schedule := by
  cases outcome <;> simp [System.sourceOf]

-- The new entry of history is in order exactly when the step overwrites nothing.
theorem noLostUpdate_step_iff {event : Event} (hgone : CancelledGone system)
    (h : NoLostUpdate system) (hstep : system.step event = some next) :
    NoLostUpdate next ↔ overwritesNothing system event := by
  cases event with
  | queue id now =>
      obtain ⟨task, -, rfl⟩ := Option.map_eq_some_iff.mp hstep
      exact iff_of_true h trivial
  | drop id =>
      obtain ⟨run, -, rfl⟩ := Option.map_eq_some_iff.mp hstep
      exact iff_of_true h trivial
  | start id now launch =>
      obtain ⟨run, hrun, rfl⟩ := Option.map_eq_some_iff.mp hstep
      cases launch with
      | groupMissing =>
          simp only [overwritesNothing, hrun, Option.mem_some_iff, forall_eq']
          refine (noLostUpdate_close_iff h).trans ?_
          rw [Db.beginRun, Db.updateTask, Table.find_updateTask, if_pos rfl,
            respected_iff hgone (mem_of_queued? hrun)]
          simp
      | markFailed =>
          simp only [overwritesNothing, hrun, Option.mem_some_iff, forall_eq']
          refine (noLostUpdate_close_iff h).trans ?_
          have hrow := @respected_iff _ _ (system.computedFrom run.task.id) hgone
            (mem_of_queued? hrun) fun row => row
          rwa [Option.map_id'] at hrow
      | launched => exact iff_of_true h trivial
  | finish id clock outcome =>
      obtain ⟨run, hrun, hnext⟩ := Option.bind_eq_some_iff.mp hstep
      obtain ⟨start, hstart, rfl⟩ := Option.map_eq_some_iff.mp hnext
      obtain ⟨write, hwritten, hfind⟩ := find_finishRun system.db clock run.task start outcome
      simp only [overwritesNothing, hrun, hstart, Option.mem_some_iff, forall_eq']
      refine (noLostUpdate_close_iff h).trans ?_
      rw [hfind, if_pos rfl, respected_iff hgone (mem_of_started? hrun)]
      refine forall₂_congr fun row _ => ?_
      rw [(hwritten row).status, finalStatus_eq_paused_iff, sourceOf_eq_some_iff,
        (hwritten row).schedule]
  | ipc request runtime folder isMain payload =>
      cases hstep
      rw [NoLostUpdate, finished_performAll]
      exact iff_of_true h trivial

end Steps

-- From any table with no run in flight, the requests of some finished run are lost in some
-- state exactly when the end of a run overwrites one.
theorem noLostUpdate_iff_overwritesNothing (system : System) (events : List Event)
    (hruns : system.runs = []) (hfinished : system.finished = []) :
    Always System.step NoLostUpdate system events ↔
      Along System.step overwritesNothing system events := by
  refine always_iff_along (fun system => CancelledGone system ∧ NoLostUpdate system)
    ?_ (fun _ h => h.2) ?_ ⟨?_, ?_⟩
  · rintro system event next ⟨hgone, h⟩ hsafe hstep
    exact ⟨hgone.step hstep, (noLostUpdate_step_iff hgone h hstep).mpr hsafe⟩
  · rintro system event next ⟨hgone, h⟩ hstep hnext
    exact (noLostUpdate_step_iff hgone h hstep).mp hnext
  · simp [CancelledGone, hruns]
  · simp [NoLostUpdate, hfinished]

section OneTask

def minuteTask : Task where
  id := "t1"
  groupFolder := "one"
  chatJid := "tg:1"
  prompt := "report"
  scheduleType := "interval"
  scheduleValue := "60000"
  nextRun := some 1000

def oneTask : System where
  groups := Ipc.twoGroups.groups
  db := { tasks := { rows := [minuteTask] } }

def clockAt (now : Int) : Clock where
  now := now
  add := fun base ms => some (base.getD now + ms)
  cronNext := fun _ => none

def request (request : Request) : Event :=
  .ipc request Ipc.plainRuntime "one" false [("task_id", .str "t1")]

def answered : AgentOutcome := .returned "success" (some (some "done"))

set_option maxRecDepth 4000 in
theorem resumed_task_goes_on :
    Always System.step NoLostUpdate oneTask
      [.queue "t1" 1000, .start 0 1000 .launched, request .pauseTask, request .resumeTask,
        .finish 0 (clockAt 2000) answered] :=
  (noLostUpdate_iff_overwritesNothing oneTask _ rfl rfl).mpr (by decide)

set_option maxRecDepth 4000 in
-- The task is paused while its agent runs, and is active again when the agent is done.
theorem paused_task_reactivated :
    ¬ Always System.step NoLostUpdate oneTask
      [.queue "t1" 1000, .start 0 1000 .launched, request .pauseTask,
        .finish 0 (clockAt 2000) answered] := by
  decide

end OneTask

end EvoClaw.Scheduler
