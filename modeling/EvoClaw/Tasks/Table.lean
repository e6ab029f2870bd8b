import EvoClaw.Config
import EvoClaw.Keyed
import Mathlib.Data.List.Nodup

namespace EvoClaw.Tasks

-- The values that the host writes to the status column.
inductive Status where
  | active
  | paused
  | running
  | failed
  | cancelled
deriving DecidableEq

structure Task where
  id : TaskId
  groupFolder : Folder
  chatJid : Jid
  prompt : String
  scheduleType : String
  scheduleValue : String
  nextRun : Option Int
  lastRun : Option Int := none
  lastResult : Option String := none
  status : Status := .active
  contextMode : Option String := some "group"
deriving DecidableEq

def Task.schedule (task : Task) : String × String :=
  (task.scheduleType, task.scheduleValue)

-- The columns that one UPDATE sets.
structure Fields where
  prompt : Option String := none
  scheduleType : Option String := none
  scheduleValue : Option String := none
  nextRun : Option (Option Int) := none
  lastRun : Option Int := none
  lastResult : Option String := none
  status : Option Status := none
  contextMode : Option (Option String) := none
deriving DecidableEq

def Task.set (task : Task) (fields : Fields) : Task :=
  { task with
    prompt := fields.prompt.getD task.prompt
    scheduleType := fields.scheduleType.getD task.scheduleType
    scheduleValue := fields.scheduleValue.getD task.scheduleValue
    nextRun := fields.nextRun.getD task.nextRun
    lastRun := fields.lastRun.or task.lastRun
    lastResult := fields.lastResult.or task.lastResult
    status := fields.status.getD task.status
    contextMode := fields.contextMode.getD task.contextMode }

@[simp] theorem Task.set_id (task : Task) (fields : Fields) : (task.set fields).id = task.id := rfl

@[simp] theorem Task.set_status (task : Task) (fields : Fields) :
    (task.set fields).status = fields.status.getD task.status := rfl

@[simp] theorem Task.set_nextRun (task : Task) (fields : Fields) :
    (task.set fields).nextRun = fields.nextRun.getD task.nextRun := rfl

-- The table scheduled_tasks, with its primary key.
structure Table where
  rows : List Task := []
  ids_nodup : (rows.map Task.id).Nodup := by decide
deriving DecidableEq

namespace Table

variable {table : Table} {id other : TaskId} {task found : Task} {fields : Fields}

def find (table : Table) (id : TaskId) : Option Task :=
  table.rows.find? fun task => task.id = id

-- A second row with the same id raises an IntegrityError.
def createTask (table : Table) (task : Task) : Option Table :=
  if h : task.id ∈ table.rows.map Task.id then none
  else some
    { rows := table.rows ++ [task]
      ids_nodup := by
        rw [List.map_append, List.nodup_append]
        refine ⟨table.ids_nodup, List.nodup_singleton _, ?_⟩
        rintro id hid _ hlast rfl
        rw [List.map_singleton, List.mem_singleton] at hlast
        exact h (hlast ▸ hid) }

def updateTask (table : Table) (id : TaskId) (fields : Fields) : Table where
  rows := table.rows.map fun task => if task.id = id then task.set fields else task
  ids_nodup := by
    have hids : (Task.id ∘ fun task => if task.id = id then task.set fields else task) = Task.id := by
      funext task
      by_cases hid : task.id = id <;> simp [hid]
    rw [List.map_map, hids]
    exact table.ids_nodup

def deleteTask (table : Table) (id : TaskId) : Table where
  rows := table.rows.filter fun task => task.id ≠ id
  ids_nodup := table.ids_nodup.sublist (List.filter_sublist.map Task.id)

def getDueTasks (table : Table) (now : Int) : List Task :=
  table.rows.filter fun task => task.status = .active ∧ ∃ due ∈ task.nextRun, due ≤ now

theorem find_eq_some_iff : table.find id = some task ↔ task ∈ table.rows ∧ task.id = id :=
  Keyed.find?_eq_some_iff table.ids_nodup

theorem find_createTask {created : Table} (h : table.createTask task = some created)
    (other : TaskId) :
    created.find other = if other = task.id then some task else table.find other := by
  unfold createTask at h
  split at h
  · cases h
  · next hfresh =>
      cases h
      exact Keyed.find?_insert hfresh

theorem find_updateTask (table : Table) (id other : TaskId) (fields : Fields) :
    (table.updateTask id fields).find other =
      if other = id then (table.find other).map fun task => task.set fields
      else table.find other :=
  Keyed.find?_update (fun task => task.set_id fields) id

theorem find_deleteTask (table : Table) (id other : TaskId) :
    (table.deleteTask id).find other = if other = id then none else table.find other :=
  Keyed.find?_erase id

theorem mem_getDueTasks {now : Int} :
    task ∈ table.getDueTasks now ↔
      table.find task.id = some task ∧ task.status = .active ∧ ∃ due ∈ task.nextRun, due ≤ now := by
  simp [getDueTasks, find_eq_some_iff]

end Table

end EvoClaw.Tasks
