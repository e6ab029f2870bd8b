import EvoClaw.GroupQueue.Contents
import EvoClaw.Scheduler.Model

namespace EvoClaw.Scheduler

open EventSystem
open GroupQueue (Queue Runner QueuedTask Outcome)
open Tasks (Task Table)

-- Where the loop of start_scheduler_loop stands. The worker thread that reads the due rows
-- works on its own, and its rows wait until the event loop resumes the coroutine.
inductive Poll where
  | sleeping
  | reading (nowMs : Int)
  | read (due : List Task)
deriving DecidableEq

-- The scheduler beside GroupQueue, whose functions are run_task on the row that was read.
-- The last field is history: the id and next_run of each row that run_agent_fn was called for.
structure SchedulerLoop where
  db : Db := {}
  queue : Queue Task := {}
  poll : Poll := .sleeping
  invocations : List (TaskId × Option Int) := []

inductive LoopEvent where
  | poll
  | read
  | enqueue
  | start (id : Nat) (launch : Launch)
  | finish (id : Nat) (add : Option Int → Int → Option Int) (outcome : AgentOutcome)
  | others (event : GroupQueue.Event Task)

-- run_task catches every Exception, and GroupQueue does not look at its result.
def AgentOutcome.ofTask : AgentOutcome → Outcome
  | .cancelled => .cancelled
  | _ => .success

-- The row that the runner with this id runs, where it is a _run_task.
def taskOf? (queue : Queue Task) (id : Nat) : Option Task :=
  (queue.runners.find? fun runner => runner.id = id).bind fun runner =>
    match runner.job with
    | .task task => some task.fn
    | .messages _ _ => none

def startOf? (queue : Queue Task) (id : Nat) : Option Int :=
  (queue.runners.find? fun runner => runner.id = id).bind fun runner =>
    match runner.phase with
    | .running startedAtMs => some startedAtMs
    | .created => none

-- A row without chat_jid is skipped.
def enqueueRow (cfg : Config) (queue : Queue Task) (task : Task) : Queue Task :=
  if task.chatJid = "" then queue else queue.enqueueTask cfg task.chatJid task.id task

-- Only the scheduler enqueues tasks, and their runners start and end with run_task.
def isTaskEvent (queue : Queue Task) : GroupQueue.Event Task → Bool
  | .enqueueTask _ _ _ => true
  | .start id | .finish id _ => (taskOf? queue id).isSome
  | _ => false

namespace SchedulerLoop

def now (loop : SchedulerLoop) : Int :=
  loop.queue.clock

-- run_task without an await returns in the step that starts its runner.
def start (cfg : Config) (loop : SchedulerLoop) (id : Nat) (task : Task) (launch : Launch) :
    Option SchedulerLoop :=
  (loop.queue.step cfg (.start id)).bind fun queue =>
    match launch with
    | .launched => some
        { loop with
          db := loop.db.beginRun task loop.now launch
          queue := queue
          invocations := loop.invocations ++ [(task.id, task.nextRun)] }
    | _ => (queue.step cfg (.finish id .success)).map fun queue =>
        { loop with
          db := loop.db.beginRun task loop.now launch
          queue := queue }

def finish (cfg : Config) (loop : SchedulerLoop) (id : Nat) (task : Task) (start : Int)
    (clock : Clock) (outcome : AgentOutcome) : Option SchedulerLoop :=
  (loop.queue.step cfg (.finish id outcome.ofTask)).map fun queue =>
    { loop with
      db := loop.db.finishRun clock task start outcome
      queue := queue }

-- `cronNext` is croniter from a start time. All rows of a poll are enqueued in one step,
-- as there is no await between them.
def step (cfg : Config) (cronNext : Int → String → Option Int) (loop : SchedulerLoop) :
    LoopEvent → Option SchedulerLoop
  | .poll => match loop.poll with
      | .sleeping => some { loop with poll := .reading loop.now }
      | _ => none
  | .read => match loop.poll with
      | .reading nowMs => some { loop with poll := .read (loop.db.tasks.getDueTasks nowMs) }
      | _ => none
  | .enqueue => match loop.poll with
      | .read due => some
          { loop with queue := due.foldl (enqueueRow cfg) loop.queue, poll := .sleeping }
      | _ => none
  | .start id launch => (taskOf? loop.queue id).bind fun task => loop.start cfg id task launch
  | .finish id add outcome => (taskOf? loop.queue id).bind fun task =>
      (startOf? loop.queue id).bind fun start =>
        loop.finish cfg id task start ⟨loop.now, add, cronNext loop.now⟩ outcome
  | .others event =>
      if isTaskEvent loop.queue event then none
      else (loop.queue.step cfg event).map fun queue => { loop with queue := queue }

end SchedulerLoop

-- No row has its agent called twice for the same next_run.
def AtMostOnce (loop : SchedulerLoop) : Prop :=
  loop.invocations.Nodup

instance : DecidablePred AtMostOnce := fun loop =>
  inferInstanceAs (Decidable loop.invocations.Nodup)

-- Read again when its agent is called, the row is still due, with the same next_run.
def StillDue (loop : SchedulerLoop) (task : Task) : Prop :=
  ∃ row ∈ loop.db.tasks.getDueTasks loop.now, row.id = task.id ∧ row.nextRun = task.nextRun

instance (loop : SchedulerLoop) (task : Task) : Decidable (StillDue loop task) :=
  inferInstanceAs (Decidable (∃ row ∈ loop.db.tasks.getDueTasks loop.now, _))

def startsStillDue (loop : SchedulerLoop) : LoopEvent → Prop
  | .start id .launched => ∀ task ∈ taskOf? loop.queue id, StillDue loop task
  | _ => True

instance (loop : SchedulerLoop) : DecidablePred (startsStillDue loop)
  | .start id .launched => inferInstanceAs (Decidable (∀ task ∈ taskOf? loop.queue id, _))
  | .start _ .groupMissing | .start _ .markFailed | .poll | .read | .enqueue
  | .finish _ _ _ | .others _ => isTrue trivial

end EvoClaw.Scheduler

namespace EvoClaw.Scheduler

open EventSystem
open GroupQueue (Queue Runner QueuedTask Outcome Between Carries WellFormed)
open Tasks (Task Table)

variable {cfg : Config} {cronNext : Int → String → Option Int} {loop next : SchedulerLoop}
  {queue : Queue Task}

-- What a step of the scheduler can do, with the step of GroupQueue that it makes.
inductive LoopStepped (cfg : Config) (cronNext : Int → String → Option Int)
    (loop : SchedulerLoop) : LoopEvent → SchedulerLoop → Prop where
  | poll (hp : loop.poll = .sleeping) :
      LoopStepped cfg cronNext loop .poll { loop with poll := .reading loop.now }
  | read (nowMs : Int) (hp : loop.poll = .reading nowMs) :
      LoopStepped cfg cronNext loop .read
        { loop with poll := .read (loop.db.tasks.getDueTasks nowMs) }
  | enqueue (due : List Task) (hp : loop.poll = .read due) :
      LoopStepped cfg cronNext loop .enqueue
        { loop with queue := due.foldl (enqueueRow cfg) loop.queue, poll := .sleeping }
  | launched (id : Nat) (task : Task) (queue : Queue Task)
      (ht : taskOf? loop.queue id = some task) (hq : loop.queue.step cfg (.start id) = some queue) :
      LoopStepped cfg cronNext loop (.start id .launched)
        { loop with
          db := loop.db.beginRun task loop.now .launched
          queue := queue
          invocations := loop.invocations ++ [(task.id, task.nextRun)] }
  | returned (id : Nat) (launch : Launch) (task : Task) (started queue : Queue Task)
      (hl : launch ≠ .launched) (ht : taskOf? loop.queue id = some task)
      (hs : loop.queue.step cfg (.start id) = some started)
      (hq : started.step cfg (.finish id .success) = some queue) :
      LoopStepped cfg cronNext loop (.start id launch)
        { loop with db := loop.db.beginRun task loop.now launch, queue := queue }
  | finish (id : Nat) (add : Option Int → Int → Option Int) (outcome : AgentOutcome)
      (task : Task) (start : Int) (queue : Queue Task) (ht : taskOf? loop.queue id = some task)
      (hq : loop.queue.step cfg (.finish id outcome.ofTask) = some queue) :
      LoopStepped cfg cronNext loop (.finish id add outcome)
        { loop with
          db := loop.db.finishRun ⟨loop.now, add, cronNext loop.now⟩ task start outcome
          queue := queue }
  | others (event : GroupQueue.Event Task) (queue : Queue Task)
      (he : isTaskEvent loop.queue event = false)
      (hq : loop.queue.step cfg event = some queue) :
      LoopStepped cfg cronNext loop (.others event) { loop with queue := queue }

theorem loopStep_cases {event : LoopEvent} (h : loop.step cfg cronNext event = some next) :
    LoopStepped cfg cronNext loop event next := by
  cases event with
  | poll =>
      simp only [SchedulerLoop.step] at h
      split at h
      · cases h
        exact .poll ‹_›
      · cases h
  | read =>
      simp only [SchedulerLoop.step] at h
      split at h
      · cases h
        exact .read _ ‹_›
      · cases h
  | enqueue =>
      simp only [SchedulerLoop.step] at h
      split at h
      · cases h
        exact .enqueue _ ‹_›
      · cases h
  | start id launch =>
      obtain ⟨task, ht, h⟩ := Option.bind_eq_some_iff.mp h
      obtain ⟨started, hs, h⟩ := Option.bind_eq_some_iff.mp h
      cases launch with
      | launched =>
          cases h
          exact .launched id task started ht hs
      | groupMissing | markFailed =>
          obtain ⟨queue, hq, rfl⟩ := Option.map_eq_some_iff.mp h
          exact .returned id _ task started queue (by simp) ht hs hq
  | finish id add outcome =>
      obtain ⟨task, ht, h⟩ := Option.bind_eq_some_iff.mp h
      obtain ⟨start, -, h⟩ := Option.bind_eq_some_iff.mp h
      obtain ⟨queue, hq, rfl⟩ := Option.map_eq_some_iff.mp h
      exact .finish id add outcome task start queue ht hq
  | others event =>
      simp only [SchedulerLoop.step] at h
      split_ifs at h with he
      obtain ⟨queue, hq, rfl⟩ := Option.map_eq_some_iff.mp h
      exact .others event queue (by simpa using he) hq

theorem enqueueRow_between (task : Task) : Between queue (enqueueRow cfg queue task) := by
  unfold enqueueRow
  split_ifs
  · exact .refl queue
  · exact .enqueueTask _ _

theorem foldl_enqueueRow_between (due : List Task) (queue : Queue Task) :
    Between queue (due.foldl (enqueueRow cfg) queue) := by
  induction due generalizing queue with
  | nil => exact .refl queue
  | cons task rest ih => exact (enqueueRow_between task).trans (ih _)

theorem now_le_of_clock_le {clock : Nat} (h : loop.queue.clock ≤ clock) :
    loop.now ≤ (clock : Int) :=
  Int.ofNat_le.mpr h

theorem now_le_of_loopStep {event : LoopEvent} (h : loop.step cfg cronNext event = some next) :
    loop.now ≤ next.now := by
  cases loopStep_cases h with
  | poll | read => exact le_rfl
  | enqueue due => exact (congrArg Int.ofNat (foldl_enqueueRow_between due _).clock).ge
  | launched id task queue ht hq => exact now_le_of_clock_le (GroupQueue.clock_le_of_step hq)
  | returned id launch task started queue hl ht hs hq =>
      have hle := GroupQueue.clock_le_of_step hs
      exact now_le_of_clock_le (hle.trans (GroupQueue.clock_le_of_step hq))
  | finish id add outcome task start queue ht hq =>
      exact now_le_of_clock_le (GroupQueue.clock_le_of_step hq)
  | others event queue he hq => exact now_le_of_clock_le (GroupQueue.clock_le_of_step hq)

-- The rows for which the agent has been called are not due for the same next_run again.
structure Spent (loop : SchedulerLoop) : Prop where
  atMostOnce : AtMostOnce loop
  past : ∀ call ∈ loop.invocations, ∃ due ∈ call.2, due ≤ loop.now
  gone : ∀ call ∈ loop.invocations, ∀ row ∈ loop.db.tasks.find call.1,
    row.status = .active → row.nextRun ≠ call.2

-- croniter gives a time after the one it starts from.
def CronAdvances (cronNext : Int → String → Option Int) : Prop :=
  ∀ now expression next, cronNext now expression = some next → now < next

namespace Spent

theorem keep (h : Spent loop) (hnow : loop.now ≤ next.now)
    (hcalls : next.invocations = loop.invocations)
    (hgone : ∀ call ∈ loop.invocations, ∀ row ∈ next.db.tasks.find call.1,
      row.status = .active → row.nextRun ≠ call.2) : Spent next where
  atMostOnce := by
    rw [AtMostOnce, hcalls]
    exact h.atMostOnce
  past := by
    rw [hcalls]
    intro call hcall
    obtain ⟨due, hdue, hle⟩ := h.past call hcall
    exact ⟨due, hdue, hle.trans hnow⟩
  gone := by
    rw [hcalls]
    exact hgone

theorem not_mem_of_stillDue (h : Spent loop) {task : Task} (hdue : StillDue loop task) :
    (task.id, task.nextRun) ∉ loop.invocations := by
  intro hcall
  obtain ⟨row, hrow, hid, hnext⟩ := hdue
  obtain ⟨hfind, hactive, -⟩ := Table.mem_getDueTasks.mp hrow
  rw [hid] at hfind
  exact h.gone _ hcall row hfind hactive hnext

theorem launched (h : Spent loop) {task : Task} (hdue : StillDue loop task)
    (hclock : loop.queue.clock ≤ queue.clock) :
    Spent { loop with
      db := loop.db.beginRun task loop.now .launched
      queue := queue
      invocations := loop.invocations ++ [(task.id, task.nextRun)] } := by
  have hnow : loop.now ≤ (queue.clock : Int) := now_le_of_clock_le hclock
  refine ⟨?_, ?_, ?_⟩
  · refine List.nodup_append.mpr ⟨h.atMostOnce, List.nodup_singleton _, ?_⟩
    rintro call hcall _ hlast rfl
    rw [List.mem_singleton.mp hlast] at hcall
    exact h.not_mem_of_stillDue hdue hcall
  · intro call hcall
    rcases List.mem_append.mp hcall with hold | hnew
    · obtain ⟨due, hd, hle⟩ := h.past call hold
      exact ⟨due, hd, hle.trans hnow⟩
    · rw [List.mem_singleton.mp hnew]
      obtain ⟨row, hrow, -, hnext⟩ := hdue
      obtain ⟨-, -, due, hd, hle⟩ := Table.mem_getDueTasks.mp hrow
      exact ⟨due, hnext ▸ hd, hle.trans hnow⟩
  · intro call hcall row hrow hactive
    simp only [Db.beginRun, Db.updateTask, Table.find_updateTask] at hrow
    split_ifs at hrow with hid
    -- The row of the task is marked as running.
    · obtain ⟨old, -, rfl⟩ := Option.map_eq_some_iff.mp hrow
      cases hactive
    · rcases List.mem_append.mp hcall with hold | hnew
      · exact h.gone call hold row hrow hactive
      · exact absurd (congrArg Prod.fst (List.mem_singleton.mp hnew)) hid

theorem returned (h : Spent loop) {task : Task} {launch : Launch} (hl : launch ≠ .launched)
    (hclock : loop.queue.clock ≤ queue.clock) :
    Spent { loop with db := loop.db.beginRun task loop.now launch, queue := queue } := by
  refine h.keep (now_le_of_clock_le hclock) rfl fun call hcall row hrow hactive => ?_
  cases launch with
  | launched => exact absurd rfl hl
  | markFailed => exact h.gone call hcall row hrow hactive
  | groupMissing =>
      simp only [Db.beginRun, Db.updateTask, Table.find_updateTask] at hrow
      split_ifs at hrow
      · obtain ⟨old, -, rfl⟩ := Option.map_eq_some_iff.mp hrow
        obtain ⟨due, hdue, hle⟩ := h.past call hcall
        intro hnext
        rw [Task.set_nextRun, Option.getD_some, hdue, Option.some.injEq] at hnext
        unfold GROUP_MISSING_BACKOFF_MS at hnext
        omega
      · exact h.gone call hcall row hrow hactive

theorem finish (h : Spent loop) (hcron : CronAdvances cronNext)
    (add : Option Int → Int → Option Int) (task : Task) (start : Int) (outcome : AgentOutcome)
    (hclock : loop.queue.clock ≤ queue.clock) :
    Spent { loop with
      db := loop.db.finishRun ⟨loop.now, add, cronNext loop.now⟩ task start outcome
      queue := queue } := by
  refine h.keep (now_le_of_clock_le hclock) rfl fun call hcall row hrow hactive => ?_
  obtain ⟨write, hwritten, hfind⟩ :=
    find_finishRun loop.db ⟨loop.now, add, cronNext loop.now⟩ task start outcome
  rw [hfind] at hrow
  split_ifs at hrow
  · obtain ⟨old, -, rfl⟩ := Option.map_eq_some_iff.mp hrow
    obtain ⟨due, hdue, hle⟩ := h.past call hcall
    intro hnext
    rw [(hwritten old).nextRun, hdue] at hnext
    have hadvances : Clock.Advances ⟨loop.now, add, cronNext loop.now⟩ := hcron loop.now
    have hlt : loop.now < due := now_lt_nextRun hadvances hnext
    omega
  · exact h.gone call hcall row hrow hactive

theorem step (h : Spent loop) (hcron : CronAdvances cronNext) {event : LoopEvent}
    (hdue : startsStillDue loop event) (hstep : loop.step cfg cronNext event = some next) :
    Spent next := by
  have hnow := now_le_of_loopStep hstep
  cases loopStep_cases hstep with
  | poll | read | enqueue => exact h.keep hnow rfl h.gone
  | launched id task queue ht hq =>
      exact h.launched (hdue task ht) (GroupQueue.clock_le_of_step hq)
  | returned id launch task started queue hl ht hs hq =>
      have hle := GroupQueue.clock_le_of_step hs
      exact h.returned hl (hle.trans (GroupQueue.clock_le_of_step hq))
  | finish id add outcome task start queue ht hq =>
      exact h.finish hcron add task start outcome (GroupQueue.clock_le_of_step hq)
  | others event queue he hq => exact h.keep hnow rfl h.gone

end Spent

-- From any table, with croniter going forward, a run in which each row is still due when
-- its agent is called calls the agent at most once for each id and next_run.
theorem atMostOnce_of_startsStillDue (hcron : CronAdvances cronNext) (db : Db)
    (events : List LoopEvent)
    (hdue : Along (SchedulerLoop.step cfg cronNext) startsStillDue { db := db } events) :
    Always (SchedulerLoop.step cfg cronNext) AtMostOnce { db := db } events := by
  refine hdue.always Spent (fun _ _ _ h hdue hstep => h.step hcron hdue hstep)
    (fun _ h => h.atMostOnce) ?_
  exact ⟨List.nodup_nil, by simp, by simp⟩

-- No start is put off because its group is missing.
def groupsFound (_ : SchedulerLoop) : LoopEvent → Prop
  | .start _ .groupMissing => False
  | _ => True

-- What a row that was read still stands for.
def Answered (loop : SchedulerLoop) (task : Task) : Prop :=
  (task.id, task.nextRun) ∈ loop.invocations ∨ StillDue loop task

theorem stillDue_iff {task : Task} : StillDue loop task ↔
    ∃ row, loop.db.tasks.find task.id = some row ∧ row.status = .active ∧
      row.nextRun = task.nextRun ∧ ∃ due ∈ task.nextRun, due ≤ loop.now := by
  constructor
  · rintro ⟨row, hrow, hid, hnext⟩
    obtain ⟨hfind, hactive, hdue⟩ := Table.mem_getDueTasks.mp hrow
    exact ⟨row, hid ▸ hfind, hactive, hnext, hnext ▸ hdue⟩
  · rintro ⟨row, hfind, hactive, hnext, hdue⟩
    have hid : row.id = task.id := (Table.find_eq_some_iff.mp hfind).2
    exact ⟨row, Table.mem_getDueTasks.mpr ⟨hid ▸ hfind, hactive, hnext ▸ hdue⟩, hid, hnext⟩

theorem Answered.keep {task : Task} (h : Answered loop task) (hnow : loop.now ≤ next.now)
    (hcalls : loop.invocations ⊆ next.invocations)
    (hrow : next.db.tasks.find task.id = loop.db.tasks.find task.id) : Answered next task := by
  apply h.imp
  · exact fun hcall => hcalls hcall
  · rw [stillDue_iff, stillDue_iff, hrow]
    rintro ⟨row, hfind, hactive, hnext, due, hdue, hle⟩
    exact ⟨row, hfind, hactive, hnext, due, hdue, hle.trans hnow⟩

theorem taskOf?_eq_some {id : Nat} {task : Task} (h : taskOf? queue id = some task) :
    ∃ runner ∈ queue.runners, runner.id = id ∧
      ∃ queued, runner.job = .task queued ∧ queued.fn = task := by
  obtain ⟨runner, hr, htask⟩ := Option.bind_eq_some_iff.mp h
  obtain ⟨hmem, hid⟩ := Keyed.find?_spec hr
  refine ⟨runner, hmem, hid, ?_⟩
  split at htask
  · cases htask
    exact ⟨_, ‹_›, rfl⟩
  · cases htask

-- Every row in flight is answered for, and a running _run_task owns its row.
structure Tracked (cfg : Config) (loop : SchedulerLoop) : Prop where
  wellFormed : WellFormed cfg loop.queue
  asked : ∀ nowMs, loop.poll = .reading nowMs → nowMs ≤ loop.now
  read : ∀ due, loop.poll = .read due → ∀ task ∈ due, Answered loop task
  carries : Carries (Answered loop) loop.queue
  running : ∀ runner ∈ loop.queue.underWay, ∀ task, runner.job = .task task →
    ∃ row, loop.db.tasks.find task.fn.id = some row ∧ row.status = .running
  alone : ∀ runner ∈ loop.queue.underWay, ∀ other ∈ loop.queue.underWay, ∀ task task',
    runner.job = .task task → other.job = .task task' → task.fn.id = task'.fn.id →
      runner = other

theorem taskOf?_of_mem (hw : WellFormed cfg queue) {runner : Runner Task}
    (hr : runner ∈ queue.runners) {queued : QueuedTask Task} (hjob : runner.job = .task queued) :
    taskOf? queue runner.id = some queued.fn := by
  unfold taskOf?
  rw [Keyed.find?_of_mem hw.ids_nodup hr, Option.bind_some, hjob]

-- The runner that a start begins, or that a finish ends, runs the task with its id.
theorem job_of_taskOf? (hw : WellFormed cfg queue) {runner : Runner Task} {task : Task}
    (hr : runner ∈ queue.runners) (ht : taskOf? queue runner.id = some task) :
    ∃ queued, runner.job = .task queued ∧ queued.fn = task := by
  obtain ⟨other, ho, hid, hjob⟩ := taskOf?_eq_some ht
  have he : other = runner := List.inj_on_of_nodup_map hw.ids_nodup ho hr hid
  exact he ▸ hjob

theorem enqueueRow_wellFormed (hw : WellFormed cfg queue) (task : Task) :
    WellFormed cfg (enqueueRow cfg queue task) := by
  unfold enqueueRow
  split_ifs
  · exact hw
  · exact hw.enqueueTask _ _

theorem enqueueRow_carries {P : Task → Prop} (h : Carries P queue) {task : Task} (ht : P task) :
    Carries P (enqueueRow cfg queue task) := by
  unfold enqueueRow
  split_ifs
  · exact h
  · exact h.enqueueTask _ ht

theorem foldl_enqueueRow {P : Task → Prop} (due : List Task) (hdue : ∀ task ∈ due, P task)
    (hw : WellFormed cfg queue) (h : Carries P queue) :
    WellFormed cfg (due.foldl (enqueueRow cfg) queue) ∧
      Carries P (due.foldl (enqueueRow cfg) queue) := by
  induction due generalizing queue with
  | nil => exact ⟨hw, h⟩
  | cons task rest ih =>
      rw [List.forall_mem_cons] at hdue
      exact ih hdue.2 (enqueueRow_wellFormed hw task) (enqueueRow_carries h hdue.1)

namespace Tracked

theorem keep (h : Tracked cfg loop) (hw : WellFormed cfg next.queue) (hnow : loop.now ≤ next.now)
    (hpoll : next.poll = loop.poll)
    (hanswered : ∀ task, Answered loop task → Answered next task)
    (hcarries : Carries (Answered loop) next.queue)
    (hunder : ∀ runner ∈ next.queue.underWay, ∀ task, runner.job = .task task →
      runner ∈ loop.queue.underWay ∧
        next.db.tasks.find task.fn.id = loop.db.tasks.find task.fn.id) : Tracked cfg next where
  wellFormed := hw
  asked := by
    rw [hpoll]
    exact fun nowMs hp => (h.asked nowMs hp).trans hnow
  read := by
    rw [hpoll]
    exact fun due hp task ht => hanswered task (h.read due hp task ht)
  carries := hcarries.mono hanswered
  running := by
    intro runner hr task hjob
    obtain ⟨hold, hrow⟩ := hunder runner hr task hjob
    rw [hrow]
    exact h.running runner hold task hjob
  alone := by
    intro runner hr other ho task task' hjob hjob'
    exact h.alone runner (hunder runner hr task hjob).1 other (hunder other ho task' hjob').1
      task task' hjob hjob'

-- A step of GroupQueue that starts no task.
theorem others (h : Tracked cfg loop) {event : GroupQueue.Event Task}
    (he : isTaskEvent loop.queue event = false) (hq : loop.queue.step cfg event = some queue) :
    Tracked cfg { loop with queue := queue } := by
  have hnow : loop.now ≤ queue.clock := now_le_of_clock_le (GroupQueue.clock_le_of_step hq)
  refine h.keep (h.wellFormed.step hq) hnow rfl
    (fun task ht => ht.keep hnow (List.Subset.refl _) rfl) ?_ ?_
  · refine h.carries.step (fun jid taskId fn henqueue => ?_) hq
    rw [henqueue] at he
    cases he
  · intro runner hr task hjob
    rcases GroupQueue.mem_underWay_of_step h.wellFormed hq hr with hold | hnew
    · exact ⟨hold.1, rfl⟩
    · obtain ⟨created, hc, hp, rfl, rfl⟩ := hnew
      have htask := taskOf?_of_mem h.wellFormed hc hjob
      simp [isTaskEvent, htask] at he

theorem enqueue (h : Tracked cfg loop) {due : List Task} (hp : loop.poll = .read due) :
    Tracked cfg
      { loop with queue := due.foldl (enqueueRow cfg) loop.queue, poll := .sleeping } := by
  have hbetween := @foldl_enqueueRow_between cfg due loop.queue
  obtain ⟨hw, hcarries⟩ := foldl_enqueueRow due (h.read due hp) h.wellFormed h.carries
  have hnow : loop.now ≤ ((due.foldl (enqueueRow cfg) loop.queue).clock : Int) :=
    now_le_of_clock_le hbetween.clock.ge
  exact {
    wellFormed := hw
    asked := by simp
    read := by simp
    carries := hcarries.mono fun task ht => ht.keep hnow (List.Subset.refl _) rfl
    running := by rw [hbetween.underWay]; exact h.running
    alone := by rw [hbetween.underWay]; exact h.alone }

-- A run that returns before its row is marked.
theorem markFailed (h : Tracked cfg loop) {id : Nat} {started : Queue Task}
    (hs : loop.queue.step cfg (.start id) = some started)
    (hq : started.step cfg (.finish id .success) = some queue) :
    Tracked cfg { loop with queue := queue } := by
  have hw := h.wellFormed.step hs
  have hle := GroupQueue.clock_le_of_step hs
  have hnow : loop.now ≤ queue.clock :=
    now_le_of_clock_le (hle.trans (GroupQueue.clock_le_of_step hq))
  refine h.keep (hw.step hq) hnow rfl (fun task ht => ht.keep hnow (List.Subset.refl _) rfl) ?_ ?_
  · exact (h.carries.step (by simp) hs).step (by simp) hq
  · intro runner hr task hjob
    rcases GroupQueue.mem_underWay_of_step hw hq hr with ⟨hmid, hne⟩ | ⟨created, -, -, hevent, -⟩
    · rcases GroupQueue.mem_underWay_of_step h.wellFormed hs hmid with hold | hnew
      · exact ⟨hold.1, rfl⟩
      · obtain ⟨created, hc, hp, hevent, rfl⟩ := hnew
        cases hevent
        exact absurd rfl (hne _)
    · cases hevent

theorem stillDue_ne_running (h : Tracked cfg loop) {task : Task} (hdue : StillDue loop task)
    {runner : Runner Task} (hr : runner ∈ loop.queue.underWay) {queued : QueuedTask Task}
    (hjob : runner.job = .task queued) : queued.fn.id ≠ task.id := by
  intro hid
  obtain ⟨row, hrow, hactive, -⟩ := stillDue_iff.mp hdue
  obtain ⟨marked, hmarked, hrunning⟩ := h.running runner hr queued hjob
  rw [hid, hrow] at hmarked
  cases hmarked
  rw [hactive] at hrunning
  cases hrunning

theorem launched (h : Tracked cfg loop) {id : Nat} {task : Task}
    (ht : taskOf? loop.queue id = some task) (hdue : StillDue loop task)
    (hq : loop.queue.step cfg (.start id) = some queue) :
    Tracked cfg { loop with
      db := loop.db.beginRun task loop.now .launched
      queue := queue
      invocations := loop.invocations ++ [(task.id, task.nextRun)] } := by
  have hnow : loop.now ≤ queue.clock := now_le_of_clock_le (GroupQueue.clock_le_of_step hq)
  have hfind : ∀ other, (loop.db.beginRun task loop.now .launched).tasks.find other =
      if other = task.id then
        (loop.db.tasks.find other).map fun row => row.set { status := some .running }
      else loop.db.tasks.find other := fun other => Table.find_updateTask _ _ _ _
  have hanswered : ∀ other, Answered loop other → Answered { loop with
      db := loop.db.beginRun task loop.now .launched
      queue := queue
      invocations := loop.invocations ++ [(task.id, task.nextRun)] } other := by
    intro other hother
    by_cases hid : other.id = task.id
    · refine Or.inl (List.mem_append.mpr (hother.imp (fun hcall => hcall) fun hstill => ?_))
      -- Both rows are the one in the table.
      obtain ⟨row, hrow, -, hnext, -⟩ := stillDue_iff.mp hdue
      obtain ⟨row', hrow', -, hnext', -⟩ := stillDue_iff.mp hstill
      rw [hid, hrow] at hrow'
      cases hrow'
      rw [hid, ← hnext', hnext]
      exact List.mem_singleton_self _
    · refine hother.keep hnow (List.subset_append_left _ _) ?_
      rw [hfind, if_neg hid]
  obtain ⟨created, hc, hcid, hunder⟩ := GroupQueue.mem_underWay_of_start h.wellFormed hq
  subst hcid
  obtain ⟨queued, hjob, rfl⟩ := job_of_taskOf? h.wellFormed hc ht
  exact {
    wellFormed := h.wellFormed.step hq
    asked := fun nowMs hp => (h.asked nowMs hp).trans hnow
    read := fun due hp other ho => hanswered other (h.read due hp other ho)
    carries := (h.carries.step (by simp) hq).mono hanswered
    running := by
      intro runner hr task hjob'
      rw [hfind]
      rcases hunder runner hr with hold | rfl
      · rw [if_neg (h.stillDue_ne_running hdue hold hjob')]
        exact h.running runner hold task hjob'
      · obtain ⟨row, hrow, -⟩ := stillDue_iff.mp hdue
        have he : queued = task := by simpa [hjob] using hjob'
        rw [← he, if_pos rfl, hrow]
        exact ⟨_, rfl, rfl⟩
    alone := by
      intro runner hr other ho task task' hjob' hjob'' hid
      rcases hunder runner hr with hold | rfl
      · rcases hunder other ho with hold' | rfl
        · exact h.alone runner hold other hold' task task' hjob' hjob'' hid
        · have he : queued = task' := by simpa [hjob] using hjob''
          rw [← he] at hid
          exact absurd hid (h.stillDue_ne_running hdue hold hjob')
      · have he : queued = task := by simpa [hjob] using hjob'
        rcases hunder other ho with hold' | rfl
        · rw [← he] at hid
          exact absurd hid.symm (h.stillDue_ne_running hdue hold' hjob'')
        · rfl }

theorem finish (h : Tracked cfg loop) {id : Nat} {task : Task} {outcome : Outcome}
    (ht : taskOf? loop.queue id = some task)
    (hq : loop.queue.step cfg (.finish id outcome) = some queue) {db : Db}
    (hdb : ∀ other, other ≠ task.id → db.tasks.find other = loop.db.tasks.find other) :
    Tracked cfg { loop with db := db, queue := queue } := by
  have hnow : loop.now ≤ queue.clock := now_le_of_clock_le (GroupQueue.clock_le_of_step hq)
  obtain ⟨finished, hf, hphase, hfid⟩ : ∃ finished ∈ loop.queue.runners,
      finished.phase ≠ .created ∧ finished.id = id := by
    cases Queue.step_cases hq with
    | finish finished outcome hf hphase => exact ⟨finished, hf, hphase, rfl⟩
  have hunder : finished ∈ loop.queue.underWay := GroupQueue.mem_underWay.mpr ⟨hf, hphase⟩
  subst hfid
  obtain ⟨queued, hjob, rfl⟩ := job_of_taskOf? h.wellFormed hf ht
  refine h.keep (h.wellFormed.step hq) hnow rfl (fun other hother => ?_)
    (h.carries.step (by simp) hq) (fun runner hr task hjob' => ?_)
  · by_cases hid : other.id = queued.fn.id
    · refine Or.inl (hother.resolve_right fun hstill => ?_)
      exact h.stillDue_ne_running hstill hunder hjob hid.symm
    · exact hother.keep hnow (List.Subset.refl _) (hdb other.id hid)
  · rcases GroupQueue.mem_underWay_of_step h.wellFormed hq hr with hold | hnew
    · refine ⟨hold.1, hdb task.fn.id fun hid => ?_⟩
      have he := h.alone runner hold.1 finished hunder task queued hjob' hjob hid
      subst he
      exact hold.2 outcome rfl
    · obtain ⟨created, -, -, hevent, -⟩ := hnew
      cases hevent

theorem step (h : Tracked cfg loop) {event : LoopEvent} (hdue : startsStillDue loop event)
    (hfound : groupsFound loop event) (hstep : loop.step cfg cronNext event = some next) :
    Tracked cfg next := by
  cases loopStep_cases hstep with
  | poll hp =>
      refine { h with asked := ?_, read := by simp }
      intro nowMs hread
      cases hread
      exact le_rfl
  | read nowMs hp =>
      have hle := h.asked nowMs hp
      refine { h with asked := by simp, read := ?_ }
      rintro due hread task ht
      cases hread
      obtain ⟨hfind, hactive, value, hvalue, hpast⟩ := Table.mem_getDueTasks.mp ht
      exact Or.inr ⟨task, Table.mem_getDueTasks.mpr
        ⟨hfind, hactive, value, hvalue, hpast.trans hle⟩, rfl, rfl⟩
  | enqueue due hp => exact h.enqueue hp
  | launched id task queue ht hq => exact h.launched ht (hdue task ht) hq
  | returned id launch task started queue hl ht hs hq =>
      cases launch with
      | launched => exact absurd rfl hl
      | groupMissing => exact hfound.elim
      | markFailed => exact h.markFailed hs hq
  | finish id add outcome task start queue ht hq =>
      obtain ⟨write, -, hfind⟩ :=
        find_finishRun loop.db ⟨loop.now, add, cronNext loop.now⟩ task start outcome
      exact h.finish ht hq fun other ho => by rw [hfind, if_neg ho]
  | others event queue he hq => exact h.others he hq

-- A row that is not due any more has had its agent called before.
theorem startsStillDue_of_step (h : Tracked cfg loop) {event : LoopEvent}
    (hstep : loop.step cfg cronNext event = some next) (hnext : AtMostOnce next) :
    startsStillDue loop event := by
  cases loopStep_cases hstep with
  | launched id task queue ht hq =>
      intro other ho
      rw [ht] at ho
      cases ho
      obtain ⟨created, hc, hp, hcid⟩ : ∃ created ∈ loop.queue.runners,
          created.phase = .created ∧ created.id = id := by
        cases Queue.step_cases hq with
        | start created hc hp => exact ⟨created, hc, hp, rfl⟩
      subst hcid
      obtain ⟨queued, hjob, rfl⟩ := job_of_taskOf? h.wellFormed hc ht
      refine (h.carries.created created hc hp queued hjob).resolve_left fun hcall => ?_
      have hdisjoint := (List.nodup_append.mp hnext).2.2
      exact hdisjoint _ hcall _ (List.mem_singleton_self _) rfl
  | returned id launch task started queue hl =>
      cases launch with
      | launched => exact absurd rfl hl
      | groupMissing | markFailed => trivial
  | poll | read | enqueue | finish | others => trivial

end Tracked

-- While no group is missing, the condition is exact.
theorem startsStillDue_of_atMostOnce (db : Db) (events : List LoopEvent)
    (hfound : Along (SchedulerLoop.step cfg cronNext) groupsFound { db := db } events)
    (honce : Always (SchedulerLoop.step cfg cronNext) AtMostOnce { db := db } events) :
    Along (SchedulerLoop.step cfg cronNext) startsStillDue { db := db } events := by
  refine honce.along (Tracked cfg) (fun _ _ _ h hdue hfound hstep => h.step hdue hfound hstep)
    (fun _ _ _ h hstep hnext => h.startsStillDue_of_step hstep hnext) ?_ hfound
  exact {
    wellFormed := .empty
    asked := by simp
    read := by simp
    carries := .empty
    running := by simp [Queue.underWay]
    alone := by simp [Queue.underWay] }

section OneTask

def oneContainer : Config := ⟨1, le_rfl⟩

-- A croniter that finds a match in the next second.
def everySecond (now : Int) (_ : String) : Option Int := some ((now / 1000 + 1) * 1000)

def hourlyTask : Task where
  id := "t1"
  groupFolder := "one"
  chatJid := "tg:1"
  prompt := "report"
  scheduleType := "interval"
  scheduleValue := "3600000"
  nextRun := some 1000

def hourlyDb : Db where
  tasks := { rows := [hourlyTask] }

def addMs (base : Option Int) (ms : Int) : Option Int := base.map (· + ms)

def secondPoll : List LoopEvent :=
  [.others (.enqueueMessageCheck "tg:1"), .others (.start 0), .others (.tick 1000), .poll, .read,
    .enqueue, .others (.tick 60000), .poll]

set_option maxRecDepth 4000 in
theorem task_called_once :
    Always (SchedulerLoop.step oneContainer everySecond) AtMostOnce { db := hourlyDb }
      (secondPoll ++ [.read, .enqueue, .others (.finish 0 .success), .start 1 .launched,
        .finish 1 addMs .raised, .poll, .read, .enqueue]) :=
  atMostOnce_of_startsStillDue (fun now _ next h => by cases h; omega) hourlyDb _ (by decide)

set_option maxRecDepth 4000 in
-- The second poll reads the row while it waits for the group's messages. The run starts and
-- fails before the loop enqueues what it has read, and the row it has read runs again.
theorem stale_row_called_twice :
    ¬ Always (SchedulerLoop.step oneContainer everySecond) AtMostOnce { db := hourlyDb }
      (secondPoll ++ [.read, .others (.finish 0 .success), .start 1 .launched,
        .finish 1 addMs .raised, .enqueue, .start 2 .launched]) := by
  decide

end OneTask

end EvoClaw.Scheduler
