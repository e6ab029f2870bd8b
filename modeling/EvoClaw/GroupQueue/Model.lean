import EvoClaw.Config
import Mathlib.Data.Finset.Basic
import Mathlib.Logic.Function.Basic

namespace EvoClaw.GroupQueue

def MAX_RETRIES : Nat := 5

-- BASE_RETRY_SECS = 5.0. All times of the model are whole milliseconds.
def BASE_RETRY_MS : Nat := 5000

def MAX_PENDING_TASKS_PER_GROUP : Nat := 50

def MAX_WAITING_GROUPS : Nat := 100

structure QueuedTask (Fn : Type) where
  id : TaskId
  groupJid : Jid
  fn : Fn
deriving DecidableEq

structure GroupState (Fn : Type) where
  active : Bool := false
  idleWaiting : Bool := false
  isTaskContainer : Bool := false
  runningTaskId : Option TaskId := none
  pendingMessages : Bool := false
  pendingMessageQueuedAtMs : Option Nat := none
  pendingTasks : List (QueuedTask Fn) := []
  pendingTaskIds : Finset TaskId := ∅
  retryCount : Nat := 0
  retryReady : Bool := false

-- The coroutine an asyncio task was created with: _run_for_group or _run_task.
inductive Job (Fn : Type) where
  | messages (reason : String) (queuedAtMs : Nat)
  | task (task : QueuedTask Fn)
deriving DecidableEq

inductive Phase where
  | created
  | running (startedAtMs : Nat)
deriving DecidableEq

-- An asyncio task that GroupQueue created and that has not finished. Its id is
-- the creation number and stands for the identity of the task object.
structure Runner (Fn : Type) where
  id : Nat
  jid : Jid
  job : Job Fn
  phase : Phase
deriving DecidableEq

-- The _retry coroutine of one failure, asleep until `due`.
structure RetryTimer where
  id : Nat
  jid : Jid
  due : Nat
deriving DecidableEq

inductive Notice where
  | taskQueueFull (jid : Jid)
  | retryExceeded (jid : Jid)
deriving DecidableEq

def Notice.text : Notice → String
  | .taskQueueFull _ => "⚠️ 排程任務佇列已滿，此任務無法執行，請稍後再試。"
  | .retryExceeded _ => "⚠️ 系統暫時無法處理訊息，請稍後重新傳送。"

-- The second argument of the process function, built when a message run starts.
structure QueueMeta where
  reason : String
  queuedAtMs : Nat
  startedAtMs : Nat
  queueWaitMs : Nat
deriving DecidableEq

def Runner.queueMeta {Fn : Type} (runner : Runner Fn) : Option QueueMeta :=
  match runner.job, runner.phase with
  | .messages reason queuedAtMs, .running startedAtMs =>
      let effective := if queuedAtMs = 0 then startedAtMs else queuedAtMs
      some ⟨reason, effective, startedAtMs, startedAtMs - effective⟩
  | _, _ => none

-- The fields of GroupQueue, then what the event loop holds for it. A jid that is
-- not in _groups yet has the state that _get_group creates.
structure Queue (Fn : Type) where
  groups : Jid → GroupState Fn := fun _ => {}
  activeCount : Int := 0
  waitingGroups : List Jid := []
  waitingSet : Finset Jid := ∅
  shuttingDown : Bool := false
  retryTasks : List RetryTimer := []
  runners : List (Runner Fn) := []
  notices : List Notice := []
  nextId : Nat := 0
  clock : Nat := 0

variable {Fn : Type}

namespace GroupState

-- `x or int(time.time() * 1000)`: a queue time of 0 counts as missing.
def queuedAtMs (state : GroupState Fn) (now : Nat) : Nat :=
  match state.pendingMessageQueuedAtMs with
  | some 0 => now
  | some time => time
  | none => now

def markPending (state : GroupState Fn) (now : Nat) : GroupState Fn :=
  { state with
    pendingMessageQueuedAtMs := some (state.pendingMessageQueuedAtMs.getD now)
    pendingMessages := true }

-- A retry is scheduled and its timer has not fired.
def retryPending (state : GroupState Fn) : Bool :=
  decide (0 < state.retryCount) && !state.retryReady

def pushTask (state : GroupState Fn) (task : QueuedTask Fn) : GroupState Fn :=
  { state with
    pendingTasks := state.pendingTasks ++ [task]
    pendingTaskIds := insert task.id state.pendingTaskIds }

def popTask (state : GroupState Fn) (task : QueuedTask Fn) (rest : List (QueuedTask Fn)) :
    GroupState Fn :=
  { state with pendingTasks := rest, pendingTaskIds := state.pendingTaskIds.erase task.id }

end GroupState

namespace Queue

def setGroup (queue : Queue Fn) (jid : Jid) (state : GroupState Fn) : Queue Fn :=
  { queue with groups := Function.update queue.groups jid state }

def full (cfg : Config) (queue : Queue Fn) : Bool :=
  decide ((cfg.MAX_CONCURRENT_CONTAINERS : Int) ≤ queue.activeCount)

def park (queue : Queue Fn) (jid : Jid) : Queue Fn :=
  { queue with
    waitingGroups := queue.waitingGroups ++ [jid]
    waitingSet := insert jid queue.waitingSet }

def popWaiting (queue : Queue Fn) (next : Jid) (rest : List Jid) : Queue Fn :=
  { queue with waitingGroups := rest, waitingSet := queue.waitingSet.erase next }

-- Every place that starts a runner counts it, updates the group and then calls
-- asyncio.create_task, with no await in between.
def launch (queue : Queue Fn) (jid : Jid) (state : GroupState Fn) (job : Job Fn) : Queue Fn :=
  { queue.setGroup jid state with
    activeCount := queue.activeCount + 1
    runners := queue.runners ++ [⟨queue.nextId, jid, job, .created⟩]
    nextId := queue.nextId + 1 }

-- The block that creates a _run_for_group task, at its three places.
def startMessages (queue : Queue Fn) (jid : Jid) (reason : String) : Queue Fn :=
  let state := queue.groups jid
  queue.launch jid
    { state with active := true, retryReady := false, pendingMessageQueuedAtMs := none }
    (.messages reason (state.queuedAtMs queue.clock))

-- The block that creates a _run_task task. Only enqueue_task clears retry_ready too.
def startTask (queue : Queue Fn) (jid : Jid) (task : QueuedTask Fn) : Queue Fn :=
  queue.launch jid
    { queue.groups jid with
      active := true, isTaskContainer := true, runningTaskId := some task.id }
    (.task task)

def enqueueMessageCheck (cfg : Config) (queue : Queue Fn) (jid : Jid) (fromRetry : Bool) :
    Queue Fn :=
  let state := queue.groups jid
  let marked := queue.setGroup jid (state.markPending queue.clock)
  if queue.shuttingDown then queue
  else if state.active then marked
  else if decide (0 < state.retryCount) && !fromRetry then marked
  else if queue.full cfg then
    if jid ∈ queue.waitingSet then marked
    else if queue.waitingGroups.length < MAX_WAITING_GROUPS then marked.park jid
    else marked
  else queue.startMessages jid "messages"

def enqueueTask (cfg : Config) (queue : Queue Fn) (jid : Jid) (taskId : TaskId) (fn : Fn) :
    Queue Fn :=
  let state := queue.groups jid
  let task : QueuedTask Fn := ⟨taskId, jid, fn⟩
  let queued := queue.setGroup jid (state.pushTask task)
  if queue.shuttingDown then queue
  else if state.runningTaskId = some taskId then queue
  else if taskId ∈ state.pendingTaskIds then queue
  else if state.active then
    if MAX_PENDING_TASKS_PER_GROUP ≤ state.pendingTasks.length then
      { queue with notices := queue.notices ++ [.taskQueueFull jid] }
    else queued
  else if queue.full cfg then
    if jid ∉ queue.waitingSet ∧ MAX_WAITING_GROUPS ≤ queue.waitingGroups.length then queue
    else if MAX_PENDING_TASKS_PER_GROUP ≤ state.pendingTasks.length then queue
    else if jid ∈ queue.waitingSet then queued
    else queued.park jid
  else (queue.setGroup jid { state with retryReady := false }).startTask jid task

def scheduleRetry (queue : Queue Fn) (jid : Jid) : Queue Fn :=
  let state := queue.groups jid
  let count := state.retryCount + 1
  if MAX_RETRIES < count then
    { queue.setGroup jid { state with retryCount := 0, retryReady := false } with
      notices := queue.notices ++ [.retryExceeded jid] }
  else
    { queue.setGroup jid { state with retryCount := count } with
      retryTasks := queue.retryTasks ++
        [⟨queue.nextId, jid, queue.clock + BASE_RETRY_MS * 2 ^ (count - 1)⟩]
      nextId := queue.nextId + 1 }

-- The body of the loop of _drain_waiting for a group that has left the list.
def dispatchParked (queue : Queue Fn) (jid : Jid) : Queue Fn :=
  let state := queue.groups jid
  match state.pendingTasks with
  | task :: rest => (queue.setGroup jid (state.popTask task rest)).startTask jid task
  | [] =>
      if state.pendingMessages then
        if state.retryPending then queue
        else (queue.setGroup jid { state with pendingMessages := false }).startMessages jid
          "waiting"
      else queue

-- No iteration of the loop appends to the waiting list, so the list is walked once.
def drainWaitingFrom (cfg : Config) : List Jid → Queue Fn → Queue Fn
  | [], queue => queue
  | next :: rest, queue =>
      if queue.full cfg then queue
      else drainWaitingFrom cfg rest ((queue.popWaiting next rest).dispatchParked next)

def drainWaiting (cfg : Config) (queue : Queue Fn) : Queue Fn :=
  drainWaitingFrom cfg queue.waitingGroups queue

def drainGroup (cfg : Config) (queue : Queue Fn) (jid : Jid) : Queue Fn :=
  let state := queue.groups jid
  if queue.shuttingDown then queue
  else match state.pendingTasks with
    | task :: rest => (queue.setGroup jid (state.popTask task rest)).startTask jid task
    | [] =>
        if state.pendingMessages then
          if state.retryPending then queue
          else queue.startMessages jid "drain"
        else queue.drainWaiting cfg

-- The synchronous part of a runner up to its await.
def runnerStart (queue : Queue Fn) (runner : Runner Fn) : Queue Fn :=
  let state := queue.groups runner.jid
  match runner.job with
  | .messages _ _ => queue.setGroup runner.jid
      { state with idleWaiting := false, isTaskContainer := false, pendingMessages := false }
  | .task _ => queue.setGroup runner.jid { state with idleWaiting := false }

end Queue

-- How the awaited coroutine ends. A task's result is not looked at, and
-- CancelledError is not an Exception, so it reaches only the finally block.
inductive Outcome where
  | success
  | returnedFalse
  | raised
  | cancelled
deriving DecidableEq

namespace Queue

-- What happens between the await and the finally block.
def settle (queue : Queue Fn) (runner : Runner Fn) (outcome : Outcome) : Queue Fn :=
  match runner.job, outcome with
  | .messages _ _, .success =>
      queue.setGroup runner.jid { queue.groups runner.jid with retryCount := 0 }
  | .messages _ _, .returnedFalse => queue.scheduleRetry runner.jid
  | .messages _ _, .raised => queue.scheduleRetry runner.jid
  | .messages _ _, .cancelled => queue
  | .task _, _ => queue

-- The finally block before its call of _drain_group.
def release (queue : Queue Fn) (runner : Runner Fn) : Queue Fn :=
  let state := queue.groups runner.jid
  let released : GroupState Fn := match runner.job with
    | .messages _ _ => { state with active := false }
    | .task _ => { state with active := false, isTaskContainer := false, runningTaskId := none }
  { queue with activeCount := queue.activeCount - 1 }.setGroup runner.jid released

def runnerFinish (cfg : Config) (queue : Queue Fn) (runner : Runner Fn) (outcome : Outcome) :
    Queue Fn :=
  ((queue.settle runner outcome).release runner).drainGroup cfg runner.jid

-- The body of _retry after its sleep.
def retryFires (cfg : Config) (queue : Queue Fn) (jid : Jid) : Queue Fn :=
  if queue.shuttingDown then queue
  else (queue.setGroup jid { queue.groups jid with retryReady := true }).enqueueMessageCheck cfg
    jid true

end Queue

inductive Event (Fn : Type) where
  | enqueueMessageCheck (jid : Jid)
  | enqueueTask (jid : Jid) (taskId : TaskId) (fn : Fn)
  | start (id : Nat)
  | finish (id : Nat) (outcome : Outcome)
  | cancelCreated (id : Nat)
  | retryFires (id : Nat)
  | tick (ms : Nat)
  | shutdownSync
  | shutdown
deriving DecidableEq

namespace Queue

def withoutRunner (queue : Queue Fn) (id : Nat) : Queue Fn :=
  { queue with runners := queue.runners.filter (·.id ≠ id) }

def withoutTimer (queue : Queue Fn) (id : Nat) : Queue Fn :=
  { queue with retryTasks := queue.retryTasks.filter (·.id ≠ id) }

def markRunning (queue : Queue Fn) (id : Nat) : Queue Fn :=
  { queue with runners := queue.runners.map fun runner =>
      if runner.id = id then { runner with phase := .running queue.clock } else runner }

def created? (queue : Queue Fn) (id : Nat) : Option (Runner Fn) :=
  queue.runners.find? fun runner => runner.id = id ∧ runner.phase = .created

def running? (queue : Queue Fn) (id : Nat) : Option (Runner Fn) :=
  queue.runners.find? fun runner => runner.id = id ∧ runner.phase ≠ .created

def dueTimer? (queue : Queue Fn) (id : Nat) : Option RetryTimer :=
  queue.retryTasks.find? fun timer => timer.id = id ∧ timer.due ≤ queue.clock

-- One step of the event loop. Each branch runs without an await in the source.
-- main() cancels tasks only after it has called shutdown(); a task cancelled
-- before its first step never enters its coroutine, so no finally block runs.
def step (cfg : Config) (queue : Queue Fn) : Event Fn → Option (Queue Fn)
  | .enqueueMessageCheck jid => some (queue.enqueueMessageCheck cfg jid false)
  | .enqueueTask jid taskId fn => some (queue.enqueueTask cfg jid taskId fn)
  | .start id => (queue.created? id).map fun runner =>
      (queue.runnerStart runner).markRunning id
  | .finish id outcome =>
      if outcome = .cancelled ∧ queue.shuttingDown = false then none
      else (queue.running? id).map fun runner =>
        (queue.withoutRunner id).runnerFinish cfg runner outcome
  | .cancelCreated id =>
      if queue.shuttingDown then (queue.created? id).map fun _ => queue.withoutRunner id
      else none
  | .retryFires id => (queue.dueTimer? id).map fun timer =>
      (queue.withoutTimer id).retryFires cfg timer.jid
  | .tick ms => some { queue with clock := queue.clock + ms }
  | .shutdownSync => some { queue with shuttingDown := true }
  | .shutdown => some { queue with shuttingDown := true, retryTasks := [] }

end Queue

end EvoClaw.GroupQueue
