import EvoClaw.EventSystem.Runs
import EvoClaw.GroupQueue.Model
import EvoClaw.Keyed

namespace EvoClaw.GroupQueue.GroupState

variable {Fn : Type} (state : GroupState Fn) (job : Job Fn) (outcome : Outcome)

-- The group's own part of _schedule_retry.
def failed : GroupState Fn :=
  if MAX_RETRIES < state.retryCount + 1 then { state with retryCount := 0, retryReady := false }
  else { state with retryCount := state.retryCount + 1 }

-- The group's own part of what follows the await of a runner.
def settled : Job Fn → Outcome → GroupState Fn
  | .messages _ _, .success => { state with retryCount := 0 }
  | .messages _ _, .returnedFalse => state.failed
  | .messages _ _, .raised => state.failed
  | .messages _ _, .cancelled => state
  | .task _, _ => state

-- The group's own part of the finally block.
def released : Job Fn → GroupState Fn
  | .messages _ _ => { state with active := false }
  | .task _ => { state with active := false, isTaskContainer := false, runningTaskId := none }

@[simp] theorem failed_pendingTasks : state.failed.pendingTasks = state.pendingTasks := by
  unfold failed
  split_ifs <;> rfl

@[simp] theorem failed_pendingMessages :
    state.failed.pendingMessages = state.pendingMessages := by
  unfold failed
  split_ifs <;> rfl

@[simp] theorem settled_pendingTasks :
    (state.settled job outcome).pendingTasks = state.pendingTasks := by
  unfold settled
  split <;> simp

@[simp] theorem settled_pendingMessages :
    (state.settled job outcome).pendingMessages = state.pendingMessages := by
  unfold settled
  split <;> simp

@[simp] theorem released_active : (state.released job).active = false := by
  cases job <;> rfl

@[simp] theorem released_pendingTasks :
    (state.released job).pendingTasks = state.pendingTasks := by
  cases job <;> rfl

@[simp] theorem released_pendingMessages :
    (state.released job).pendingMessages = state.pendingMessages := by
  cases job <;> rfl

@[simp] theorem released_retryCount : (state.released job).retryCount = state.retryCount := by
  cases job <;> rfl

@[simp] theorem released_retryReady : (state.released job).retryReady = state.retryReady := by
  cases job <;> rfl

end EvoClaw.GroupQueue.GroupState

namespace EvoClaw.GroupQueue.Queue

variable {Fn : Type} {cfg : Config} (queue : Queue Fn) (jid other : Jid)

section Fields

variable (state : GroupState Fn) (job : Job Fn)

@[simp] theorem setGroup_groups_self : (queue.setGroup jid state).groups jid = state :=
  Function.update_self ..

theorem setGroup_groups :
    (queue.setGroup jid state).groups other = if other = jid then state else queue.groups other :=
  Function.update_apply ..

@[simp] theorem setGroup_runners : (queue.setGroup jid state).runners = queue.runners := rfl

@[simp] theorem park_groups : (queue.park jid).groups = queue.groups := rfl

@[simp] theorem park_waitingGroups :
    (queue.park jid).waitingGroups = queue.waitingGroups ++ [jid] := rfl

@[simp] theorem park_waitingSet : (queue.park jid).waitingSet = insert jid queue.waitingSet := rfl

@[simp] theorem launch_groups_self : (queue.launch jid state job).groups jid = state :=
  Function.update_self ..

theorem launch_groups :
    (queue.launch jid state job).groups other = if other = jid then state else queue.groups other :=
  Function.update_apply ..

@[simp] theorem launch_activeCount :
    (queue.launch jid state job).activeCount = queue.activeCount + 1 := rfl

@[simp] theorem launch_runners : (queue.launch jid state job).runners =
    queue.runners ++ [⟨queue.nextId, jid, job, .created⟩] := rfl

theorem markRunning_ids (id : Nat) :
    (queue.markRunning id).runners.map Runner.id = queue.runners.map Runner.id := by
  simp only [markRunning, List.map_map]
  congr 1
  funext runner
  simp only [Function.comp_apply]
  split_ifs <;> rfl

theorem markRunning_jids (id : Nat) :
    (queue.markRunning id).runners.map Runner.jid = queue.runners.map Runner.jid := by
  simp only [markRunning, List.map_map]
  congr 1
  funext runner
  simp only [Function.comp_apply]
  split_ifs <;> rfl

end Fields

theorem full_eq_false : queue.full cfg = false ↔
    queue.activeCount < cfg.MAX_CONCURRENT_CONTAINERS := by
  simp [full]

-- Each relation below lists once what an operation can do, with the guards of the
-- branch it took. Invariants are proved by cases on it.
section Cases

inductive Checked (cfg : Config) (queue : Queue Fn) (jid : Jid) (fromRetry : Bool) :
    Queue Fn → Prop where
  | stopped (hs : queue.shuttingDown = true) : Checked cfg queue jid fromRetry queue
  | busy (hs : queue.shuttingDown = false) (ha : (queue.groups jid).active = true) :
      Checked cfg queue jid fromRetry
        (queue.setGroup jid ((queue.groups jid).markPending queue.clock))
  | backoff (hs : queue.shuttingDown = false) (ha : (queue.groups jid).active = false)
      (hr : 0 < (queue.groups jid).retryCount) (hf : fromRetry = false) :
      Checked cfg queue jid fromRetry
        (queue.setGroup jid ((queue.groups jid).markPending queue.clock))
  | listed (hs : queue.shuttingDown = false) (ha : (queue.groups jid).active = false)
      (hfull : queue.full cfg = true) (hw : jid ∈ queue.waitingSet) :
      Checked cfg queue jid fromRetry
        (queue.setGroup jid ((queue.groups jid).markPending queue.clock))
  | parked (hs : queue.shuttingDown = false) (ha : (queue.groups jid).active = false)
      (hfull : queue.full cfg = true) (hw : jid ∉ queue.waitingSet)
      (hl : queue.waitingGroups.length < MAX_WAITING_GROUPS) :
      Checked cfg queue jid fromRetry
        ((queue.setGroup jid ((queue.groups jid).markPending queue.clock)).park jid)
  | crowded (hs : queue.shuttingDown = false) (ha : (queue.groups jid).active = false)
      (hfull : queue.full cfg = true) (hw : jid ∉ queue.waitingSet)
      (hl : MAX_WAITING_GROUPS ≤ queue.waitingGroups.length) :
      Checked cfg queue jid fromRetry
        (queue.setGroup jid ((queue.groups jid).markPending queue.clock))
  | started (hs : queue.shuttingDown = false) (ha : (queue.groups jid).active = false)
      (hfull : queue.full cfg = false) :
      Checked cfg queue jid fromRetry (queue.startMessages jid "messages")

theorem enqueueMessageCheck_cases (cfg : Config) (fromRetry : Bool) :
    Checked cfg queue jid fromRetry (queue.enqueueMessageCheck cfg jid fromRetry) := by
  simp only [enqueueMessageCheck]
  split_ifs with hs ha hr hf hw hl
  · exact .stopped hs
  · exact .busy (by simpa using hs) ha
  · simp only [Bool.and_eq_true, decide_eq_true_eq, Bool.not_eq_true'] at hr
    exact .backoff (by simpa using hs) (by simpa using ha) hr.1 hr.2
  · exact .listed (by simpa using hs) (by simpa using ha) hf hw
  · exact .parked (by simpa using hs) (by simpa using ha) hf hw hl
  · exact .crowded (by simpa using hs) (by simpa using ha) hf hw (Nat.le_of_not_lt hl)
  · exact .started (by simpa using hs) (by simpa using ha) (by simpa using hf)

inductive TaskEnqueued (cfg : Config) (queue : Queue Fn) (jid : Jid) (task : QueuedTask Fn) :
    Queue Fn → Prop where
  | ignored : TaskEnqueued cfg queue jid task queue
  | notified (ha : (queue.groups jid).active = true) : TaskEnqueued cfg queue jid task
      { queue with notices := queue.notices ++ [.taskQueueFull jid] }
  | busy (hs : queue.shuttingDown = false) (ha : (queue.groups jid).active = true)
      (hnew : task.id ∉ (queue.groups jid).pendingTaskIds) :
      TaskEnqueued cfg queue jid task (queue.setGroup jid ((queue.groups jid).pushTask task))
  | listed (hs : queue.shuttingDown = false) (ha : (queue.groups jid).active = false)
      (hfull : queue.full cfg = true) (hnew : task.id ∉ (queue.groups jid).pendingTaskIds)
      (hw : jid ∈ queue.waitingSet) :
      TaskEnqueued cfg queue jid task (queue.setGroup jid ((queue.groups jid).pushTask task))
  | parked (hs : queue.shuttingDown = false) (ha : (queue.groups jid).active = false)
      (hfull : queue.full cfg = true) (hnew : task.id ∉ (queue.groups jid).pendingTaskIds)
      (hw : jid ∉ queue.waitingSet) (hl : queue.waitingGroups.length < MAX_WAITING_GROUPS) :
      TaskEnqueued cfg queue jid task
        ((queue.setGroup jid ((queue.groups jid).pushTask task)).park jid)
  | started (hs : queue.shuttingDown = false) (ha : (queue.groups jid).active = false)
      (hfull : queue.full cfg = false) (hnew : task.id ∉ (queue.groups jid).pendingTaskIds)
      (hrun : (queue.groups jid).runningTaskId ≠ some task.id) :
      TaskEnqueued cfg queue jid task
        ((queue.setGroup jid { queue.groups jid with retryReady := false }).startTask jid task)

theorem enqueueTask_cases (cfg : Config) (taskId : TaskId) (fn : Fn) :
    TaskEnqueued cfg queue jid ⟨taskId, jid, fn⟩ (queue.enqueueTask cfg jid taskId fn) := by
  simp only [enqueueTask]
  by_cases hs : queue.shuttingDown = true
  · rw [if_pos hs]
    exact .ignored
  rw [if_neg hs]
  by_cases hr : (queue.groups jid).runningTaskId = some taskId
  · rw [if_pos hr]
    exact .ignored
  rw [if_neg hr]
  by_cases hp : taskId ∈ (queue.groups jid).pendingTaskIds
  · rw [if_pos hp]
    exact .ignored
  rw [if_neg hp]
  by_cases ha : (queue.groups jid).active = true
  · rw [if_pos ha]
    split
    · exact .notified ha
    · exact .busy (by simpa using hs) ha hp
  rw [if_neg ha]
  by_cases hf : queue.full cfg = true
  · rw [if_pos hf]
    split
    · exact .ignored
    next hc =>
    split
    · exact .ignored
    split
    next hw => exact .listed (by simpa using hs) (by simpa using ha) hf hp hw
    next hw =>
      exact .parked (by simpa using hs) (by simpa using ha) hf hp hw
        (Nat.lt_of_not_le fun hl => hc ⟨hw, hl⟩)
  · rw [if_neg hf]
    exact .started (by simpa using hs) (by simpa using ha) (by simpa using hf) hp hr

inductive Dispatched (queue : Queue Fn) (jid : Jid) : Queue Fn → Prop where
  | task (task : QueuedTask Fn) (rest : List (QueuedTask Fn))
      (ht : (queue.groups jid).pendingTasks = task :: rest) : Dispatched queue jid
        ((queue.setGroup jid ((queue.groups jid).popTask task rest)).startTask jid task)
  | messages (ht : (queue.groups jid).pendingTasks = [])
      (hm : (queue.groups jid).pendingMessages = true)
      (hr : (queue.groups jid).retryPending = false) : Dispatched queue jid
        ((queue.setGroup jid { queue.groups jid with pendingMessages := false }).startMessages jid
          "waiting")
  | deferred (ht : (queue.groups jid).pendingTasks = [])
      (hm : (queue.groups jid).pendingMessages = true)
      (hr : (queue.groups jid).retryPending = true) : Dispatched queue jid queue
  | idle (ht : (queue.groups jid).pendingTasks = [])
      (hm : (queue.groups jid).pendingMessages = false) : Dispatched queue jid queue

theorem dispatchParked_cases : Dispatched queue jid (queue.dispatchParked jid) := by
  simp only [dispatchParked]
  split
  · next task rest ht => exact .task task rest ht
  · next ht =>
      split_ifs with hm hr
      · exact .deferred ht hm hr
      · exact .messages ht hm (by simpa using hr)
      · exact .idle ht (by simpa using hm)

inductive Drained (cfg : Config) (queue : Queue Fn) (jid : Jid) : Queue Fn → Prop where
  | stopped (hs : queue.shuttingDown = true) : Drained cfg queue jid queue
  | task (hs : queue.shuttingDown = false) (task : QueuedTask Fn) (rest : List (QueuedTask Fn))
      (ht : (queue.groups jid).pendingTasks = task :: rest) : Drained cfg queue jid
        ((queue.setGroup jid ((queue.groups jid).popTask task rest)).startTask jid task)
  | messages (hs : queue.shuttingDown = false) (ht : (queue.groups jid).pendingTasks = [])
      (hm : (queue.groups jid).pendingMessages = true)
      (hr : (queue.groups jid).retryPending = false) :
      Drained cfg queue jid (queue.startMessages jid "drain")
  | deferred (hs : queue.shuttingDown = false) (ht : (queue.groups jid).pendingTasks = [])
      (hm : (queue.groups jid).pendingMessages = true)
      (hr : (queue.groups jid).retryPending = true) : Drained cfg queue jid queue
  | waiting (hs : queue.shuttingDown = false) (ht : (queue.groups jid).pendingTasks = [])
      (hm : (queue.groups jid).pendingMessages = false) :
      Drained cfg queue jid (queue.drainWaiting cfg)

theorem drainGroup_cases (cfg : Config) : Drained cfg queue jid (queue.drainGroup cfg jid) := by
  simp only [drainGroup]
  by_cases hs : queue.shuttingDown = true
  · rw [if_pos hs]
    exact .stopped hs
  · rw [if_neg hs]
    have hs : queue.shuttingDown = false := by simpa using hs
    split
    · next task rest ht => exact .task hs task rest ht
    · next ht =>
        split_ifs with hm hr
        · exact .deferred hs ht hm hr
        · exact .messages hs ht hm (by simpa using hr)
        · exact .waiting hs ht (by simpa using hm)

end Cases

theorem dispatchParked_waitingGroups :
    (queue.dispatchParked jid).waitingGroups = queue.waitingGroups := by
  have hd := queue.dispatchParked_cases jid
  generalize queue.dispatchParked jid = next at hd
  cases hd <;> rfl

-- What every iteration of the loop of _drain_waiting keeps, the loop keeps.
theorem drainWaiting_invariant (inv : Queue Fn → Prop)
    (hpop : ∀ (queue : Queue Fn) next rest, inv queue → queue.waitingGroups = next :: rest →
      queue.full cfg = false → inv ((queue.popWaiting next rest).dispatchParked next))
    (hinv : inv queue) : inv (queue.drainWaiting cfg) := by
  unfold drainWaiting
  generalize hl : queue.waitingGroups = waiting
  induction waiting generalizing queue with
  | nil => exact hinv
  | cons next rest ih =>
      unfold drainWaitingFrom
      cases hf : queue.full cfg with
      | true => exact hinv
      | false => exact ih _ (hpop queue next rest hinv hl hf) (dispatchParked_waitingGroups _ next)

section Finish

variable (runner : Runner Fn) (outcome : Outcome)

-- The state in which the finally block calls _drain_group.
def freed : Queue Fn :=
  ((queue.withoutRunner runner.id).settle runner outcome).release runner

theorem runnerFinish_eq : (queue.withoutRunner runner.id).runnerFinish cfg runner outcome =
    (queue.freed runner outcome).drainGroup cfg runner.jid := rfl

theorem scheduleRetry_frame :
    (queue.scheduleRetry jid).activeCount = queue.activeCount ∧
      (queue.scheduleRetry jid).waitingGroups = queue.waitingGroups ∧
      (queue.scheduleRetry jid).waitingSet = queue.waitingSet ∧
      (queue.scheduleRetry jid).shuttingDown = queue.shuttingDown ∧
      (queue.scheduleRetry jid).runners = queue.runners := by
  simp only [scheduleRetry]
  split_ifs <;> exact ⟨rfl, rfl, rfl, rfl, rfl⟩

theorem scheduleRetry_retryTasks : (queue.scheduleRetry jid).retryTasks = queue.retryTasks ++
    if MAX_RETRIES < (queue.groups jid).retryCount + 1 then []
    else [⟨queue.nextId, jid,
      queue.clock + BASE_RETRY_MS * 2 ^ (queue.groups jid).retryCount⟩] := by
  simp only [scheduleRetry]
  split_ifs
  · exact (List.append_nil _).symm
  · rfl

-- A finished run touches no field but the retry fields of its own group, and its timers.
theorem settle_frame :
    (queue.settle runner outcome).activeCount = queue.activeCount ∧
      (queue.settle runner outcome).waitingGroups = queue.waitingGroups ∧
      (queue.settle runner outcome).waitingSet = queue.waitingSet ∧
      (queue.settle runner outcome).shuttingDown = queue.shuttingDown ∧
      (queue.settle runner outcome).runners = queue.runners := by
  unfold settle
  split
  · exact ⟨rfl, rfl, rfl, rfl, rfl⟩
  · exact queue.scheduleRetry_frame runner.jid
  · exact queue.scheduleRetry_frame runner.jid
  · exact ⟨rfl, rfl, rfl, rfl, rfl⟩
  · exact ⟨rfl, rfl, rfl, rfl, rfl⟩

theorem scheduleRetry_groups : (queue.scheduleRetry jid).groups =
    Function.update queue.groups jid (queue.groups jid).failed := by
  simp only [scheduleRetry, GroupState.failed]
  split_ifs <;> rfl

theorem settle_groups : (queue.settle runner outcome).groups =
    Function.update queue.groups runner.jid
      ((queue.groups runner.jid).settled runner.job outcome) := by
  have hsame : queue.groups =
      Function.update queue.groups runner.jid (queue.groups runner.jid) :=
    (Function.update_eq_self ..).symm
  unfold settle GroupState.settled
  cases runner.job with
  | task => exact hsame
  | messages =>
      cases outcome with
      | success => rfl
      | returnedFalse | raised => exact queue.scheduleRetry_groups runner.jid
      | cancelled => exact hsame

@[simp] theorem freed_activeCount :
    (queue.freed runner outcome).activeCount = queue.activeCount - 1 := by
  change (settle _ runner outcome).activeCount - 1 = _
  rw [(settle_frame _ runner outcome).1]
  rfl

@[simp] theorem freed_waitingGroups :
    (queue.freed runner outcome).waitingGroups = queue.waitingGroups :=
  (settle_frame _ runner outcome).2.1

@[simp] theorem freed_shuttingDown :
    (queue.freed runner outcome).shuttingDown = queue.shuttingDown :=
  (settle_frame _ runner outcome).2.2.2.1

@[simp] theorem freed_runners :
    (queue.freed runner outcome).runners = queue.runners.filter (·.id ≠ runner.id) :=
  (settle_frame _ runner outcome).2.2.2.2

theorem freed_groups_self : (queue.freed runner outcome).groups runner.jid =
    ((queue.groups runner.jid).settled runner.job outcome).released runner.job := by
  simp only [freed, release, setGroup_groups_self, settle_groups, Function.update_self]
  rfl

theorem freed_groups_of_ne (h : other ≠ runner.jid) :
    (queue.freed runner outcome).groups other = queue.groups other := by
  simp only [freed, release, setGroup_groups, if_neg h, settle_groups, Function.update_of_ne h]
  rfl

theorem freed_active_self : ((queue.freed runner outcome).groups runner.jid).active = false := by
  rw [freed_groups_self, GroupState.released_active]

theorem freed_pendingTasks :
    ((queue.freed runner outcome).groups jid).pendingTasks = (queue.groups jid).pendingTasks := by
  by_cases h : jid = runner.jid
  · subst h
    rw [freed_groups_self, GroupState.released_pendingTasks, GroupState.settled_pendingTasks]
  · rw [freed_groups_of_ne queue jid runner outcome h]

theorem freed_pendingMessages : ((queue.freed runner outcome).groups jid).pendingMessages =
    (queue.groups jid).pendingMessages := by
  by_cases h : jid = runner.jid
  · subst h
    rw [freed_groups_self, GroupState.released_pendingMessages,
      GroupState.settled_pendingMessages]
  · rw [freed_groups_of_ne queue jid runner outcome h]

end Finish

section Tasks

variable {queue} {id : Nat} {runner : Runner Fn} {timer : RetryTimer}

theorem created?_eq_some (h : queue.created? id = some runner) :
    runner ∈ queue.runners ∧ runner.id = id ∧ runner.phase = .created :=
  Keyed.find?_spec h

theorem running?_eq_some (h : queue.running? id = some runner) :
    runner ∈ queue.runners ∧ runner.id = id ∧ runner.phase ≠ .created :=
  Keyed.find?_spec h

theorem dueTimer?_eq_some (h : queue.dueTimer? id = some timer) :
    timer ∈ queue.retryTasks ∧ timer.id = id ∧ timer.due ≤ queue.clock :=
  Keyed.find?_spec h

end Tasks

-- The steps of the event loop, each with the task object it resumes.
section Steps

inductive Stepped (cfg : Config) (queue : Queue Fn) : Event Fn → Queue Fn → Prop where
  | enqueueMessageCheck (jid : Jid) : Stepped cfg queue (.enqueueMessageCheck jid)
      (queue.enqueueMessageCheck cfg jid false)
  | enqueueTask (jid : Jid) (taskId : TaskId) (fn : Fn) :
      Stepped cfg queue (.enqueueTask jid taskId fn) (queue.enqueueTask cfg jid taskId fn)
  | start (runner : Runner Fn) (hr : runner ∈ queue.runners) (hp : runner.phase = .created) :
      Stepped cfg queue (.start runner.id) ((queue.runnerStart runner).markRunning runner.id)
  | finish (runner : Runner Fn) (outcome : Outcome) (hr : runner ∈ queue.runners)
      (hp : runner.phase ≠ .created)
      (hc : outcome = .cancelled → queue.shuttingDown = true) :
      Stepped cfg queue (.finish runner.id outcome)
        ((queue.withoutRunner runner.id).runnerFinish cfg runner outcome)
  | cancelCreated (runner : Runner Fn) (hs : queue.shuttingDown = true)
      (hr : runner ∈ queue.runners) (hp : runner.phase = .created) :
      Stepped cfg queue (.cancelCreated runner.id) (queue.withoutRunner runner.id)
  | retryFires (timer : RetryTimer) (ht : timer ∈ queue.retryTasks)
      (hd : timer.due ≤ queue.clock) : Stepped cfg queue (.retryFires timer.id)
        ((queue.withoutTimer timer.id).retryFires cfg timer.jid)
  | tick (ms : Nat) : Stepped cfg queue (.tick ms) { queue with clock := queue.clock + ms }
  | shutdownSync : Stepped cfg queue .shutdownSync { queue with shuttingDown := true }
  | shutdown : Stepped cfg queue .shutdown
      { queue with shuttingDown := true, retryTasks := [] }

theorem step_cases {queue next : Queue Fn} {event : Event Fn}
    (h : queue.step cfg event = some next) : Stepped cfg queue event next := by
  cases event with
  | enqueueMessageCheck jid => cases h; exact .enqueueMessageCheck jid
  | enqueueTask jid taskId fn => cases h; exact .enqueueTask jid taskId fn
  | start id =>
      obtain ⟨runner, hr, rfl⟩ := Option.map_eq_some_iff.mp h
      obtain ⟨hm, rfl, hp⟩ := created?_eq_some hr
      exact .start runner hm hp
  | finish id outcome =>
      simp only [step] at h
      split_ifs at h with hc
      obtain ⟨runner, hr, rfl⟩ := Option.map_eq_some_iff.mp h
      obtain ⟨hm, rfl, hp⟩ := running?_eq_some hr
      exact .finish runner outcome hm hp fun ho => by simpa [ho] using hc
  | cancelCreated id =>
      simp only [step] at h
      split_ifs at h with hs
      obtain ⟨runner, hr, rfl⟩ := Option.map_eq_some_iff.mp h
      obtain ⟨hm, rfl, hp⟩ := created?_eq_some hr
      exact .cancelCreated runner hs hm hp
  | retryFires id =>
      obtain ⟨timer, ht, rfl⟩ := Option.map_eq_some_iff.mp h
      obtain ⟨hm, rfl, hd⟩ := dueTimer?_eq_some ht
      exact .retryFires timer hm hd
  | tick ms => cases h; exact .tick ms
  | shutdownSync => cases h; exact .shutdownSync
  | shutdown => cases h; exact .shutdown

end Steps

end EvoClaw.GroupQueue.Queue
