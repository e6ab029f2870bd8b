import EvoClaw.GroupQueue.Contents
import EvoClaw.GroupQueue.Runners

namespace EvoClaw.GroupQueue

open EventSystem

variable {Fn : Type} {cfg : Config} {queue next : Queue Fn} {jid : Jid} {state : GroupState Fn}
  {task : QueuedTask Fn} {rest : List (QueuedTask Fn)}

def Runner.task? (runner : Runner Fn) : Option (QueuedTask Fn) :=
  match runner.job with
  | .messages _ _ => none
  | .task task => some task

-- The tasks of the unfinished _run_task coroutines.
def Queue.taskRuns (queue : Queue Fn) : List (QueuedTask Fn) :=
  queue.runners.filterMap Runner.task?

-- Those of them that have called their function.
def Queue.begunRuns (queue : Queue Fn) : List (QueuedTask Fn) :=
  queue.underWay.filterMap Runner.task?

-- The task object that enqueue_task appends or starts, on the branches where it does.
def Queue.acceptedTask (cfg : Config) (queue : Queue Fn) (jid : Jid) (taskId : TaskId) (fn : Fn) :
    Option (QueuedTask Fn) :=
  let state := queue.groups jid
  let task : QueuedTask Fn := ⟨taskId, jid, fn⟩
  if queue.shuttingDown then none
  else if state.runningTaskId = some taskId then none
  else if taskId ∈ state.pendingTaskIds then none
  else if state.active then
    if MAX_PENDING_TASKS_PER_GROUP ≤ state.pendingTasks.length then none else some task
  else if queue.full cfg then
    if jid ∉ queue.waitingSet ∧ MAX_WAITING_GROUPS ≤ queue.waitingGroups.length then none
    else if MAX_PENDING_TASKS_PER_GROUP ≤ state.pendingTasks.length then none
    else some task
  else some task

-- pending_tasks of one group and its mirror pending_task_ids.
structure GroupState.Mirrored (jid : Jid) (state : GroupState Fn) : Prop where
  owner : ∀ task ∈ state.pendingTasks, task.groupJid = jid
  ids_eq : state.pendingTaskIds = (state.pendingTasks.map QueuedTask.id).toFinset
  ids_nodup : (state.pendingTasks.map QueuedTask.id).Nodup

namespace GroupState.Mirrored

theorem empty : Mirrored jid ({} : GroupState Fn) where
  owner := by simp
  ids_eq := rfl
  ids_nodup := List.nodup_nil

theorem pushTask (h : state.Mirrored task.groupJid) (hnew : task.id ∉ state.pendingTaskIds) :
    (state.pushTask task).Mirrored task.groupJid where
  owner := by
    intro pending hp
    rcases List.mem_append.mp hp with hp | hp
    · exact h.owner pending hp
    · rw [List.mem_singleton.mp hp]
  ids_eq := by
    ext id
    simp only [GroupState.pushTask, h.ids_eq, Finset.mem_insert, List.mem_toFinset,
      List.map_append, List.mem_append, List.map_cons, List.map_nil, List.mem_singleton]
    exact or_comm
  ids_nodup := by
    rw [h.ids_eq, List.mem_toFinset] at hnew
    simp only [GroupState.pushTask, List.map_append, List.map_cons, List.map_nil]
    exact List.nodup_append.mpr ⟨h.ids_nodup, List.nodup_singleton _, by
      intro id hid other ho he
      rw [List.mem_singleton.mp ho] at he
      exact hnew (he ▸ hid)⟩

-- The popped id occurs once, so discarding it from the set leaves the ids of the rest.
theorem popTask (h : state.Mirrored jid) (ht : state.pendingTasks = task :: rest) :
    (state.popTask task rest).Mirrored jid where
  owner := fun pending hp => h.owner pending (ht ▸ List.mem_cons_of_mem _ hp)
  ids_eq := by
    have hn := h.ids_nodup
    rw [ht, List.map_cons, List.nodup_cons] at hn
    simp only [GroupState.popTask, h.ids_eq, ht, List.map_cons, List.toFinset_cons]
    exact Finset.erase_insert (by rw [List.mem_toFinset]; exact hn.1)
  ids_nodup := by
    have hn := h.ids_nodup
    rw [ht, List.map_cons, List.nodup_cons] at hn
    exact hn.2

end GroupState.Mirrored

def Mirrored (queue : Queue Fn) : Prop :=
  ∀ jid, (queue.groups jid).Mirrored jid

theorem Mirrored.setGroup (h : Mirrored queue) (hstate : state.Mirrored jid) :
    Mirrored (queue.setGroup jid state) := by
  intro other
  rw [Queue.setGroup_groups]
  split_ifs with he
  · exact he ▸ hstate
  · exact h other

-- Nothing but pending_tasks and pending_task_ids is looked at.
theorem Mirrored.update (h : Mirrored queue)
    (ht : state.pendingTasks = (queue.groups jid).pendingTasks)
    (hi : state.pendingTaskIds = (queue.groups jid).pendingTaskIds) :
    Mirrored (queue.setGroup jid state) :=
  h.setGroup ⟨by rw [ht]; exact (h jid).owner, by rw [ht, hi]; exact (h jid).ids_eq,
    by rw [ht]; exact (h jid).ids_nodup⟩

theorem setGroup_taskRuns (state : GroupState Fn) :
    (queue.setGroup jid state).taskRuns = queue.taskRuns := rfl

section Held

variable [DecidableEq Fn]

-- In how many places of the queue a task object is.
def Queue.held (queue : Queue Fn) (task : QueuedTask Fn) : Nat :=
  (queue.groups task.groupJid).pendingTasks.count task + queue.taskRuns.count task

-- `next` holds the tasks of `queue` and those of `added`.
structure Keeps (added : List (QueuedTask Fn)) (queue next : Queue Fn) : Prop where
  mirrored : Mirrored next
  held : ∀ task, next.held task = queue.held task + added.count task
  waiting_length : queue.waitingGroups.length ≤ MAX_WAITING_GROUPS →
    next.waitingGroups.length ≤ MAX_WAITING_GROUPS

namespace Keeps

variable {added : List (QueuedTask Fn)}

theorem frame (h : Mirrored queue) (hg : next.groups = queue.groups)
    (hr : next.taskRuns = queue.taskRuns)
    (hw : queue.waitingGroups.length ≤ MAX_WAITING_GROUPS →
      next.waitingGroups.length ≤ MAX_WAITING_GROUPS) : Keeps [] queue next where
  mirrored := fun jid => hg ▸ h jid
  held := by
    intro task
    rw [Queue.held, hg, hr]
    rfl
  waiting_length := hw

theorem refl (h : Mirrored queue) : Keeps [] queue queue :=
  frame h rfl rfl id

theorem trans {more : List (QueuedTask Fn)} {last : Queue Fn} (h : Keeps added queue next)
    (h' : Keeps more next last) : Keeps (added ++ more) queue last where
  mirrored := h'.mirrored
  held := by
    intro task
    rw [h'.held, h.held, List.count_append, Nat.add_assoc]
  waiting_length := h'.waiting_length ∘ h.waiting_length

theorem setGroup (h : Mirrored queue) (ht : state.pendingTasks = (queue.groups jid).pendingTasks)
    (hi : state.pendingTaskIds = (queue.groups jid).pendingTaskIds) :
    Keeps [] queue (queue.setGroup jid state) where
  mirrored := h.update ht hi
  held := by
    intro task
    simp only [Queue.held, Queue.setGroup_groups]
    split_ifs with he
    · rw [ht, ← he]
      rfl
    · rfl
  waiting_length := id

theorem startMessages (h : Mirrored queue) (reason : String) :
    Keeps [] queue (queue.startMessages jid reason) := by
  let started : GroupState Fn :=
    { queue.groups jid with active := true, retryReady := false, pendingMessageQueuedAtMs := none }
  have hset : Keeps [] queue (queue.setGroup jid started) := setGroup h rfl rfl
  refine hset.trans (frame hset.mirrored rfl ?_ id)
  simp [Queue.taskRuns, Queue.startMessages, Runner.task?]

theorem startTask (h : Mirrored queue) (task : QueuedTask Fn) :
    Keeps [task] queue (queue.startTask jid task) where
  mirrored := h.update rfl rfl
  held := by
    intro other
    have hpending : ((queue.startTask jid task).groups other.groupJid).pendingTasks =
        (queue.groups other.groupJid).pendingTasks := by
      simp only [Queue.startTask, Queue.launch_groups]
      split_ifs with he
      · rw [he]
      · rfl
    have hruns : (queue.startTask jid task).taskRuns = queue.taskRuns ++ [task] := by
      simp [Queue.taskRuns, Queue.startTask, Runner.task?]
    rw [Queue.held, hpending, hruns, List.count_append, Queue.held, Nat.add_assoc]
  waiting_length := id

theorem pushTask (h : Mirrored queue)
    (hnew : task.id ∉ (queue.groups task.groupJid).pendingTaskIds) :
    Keeps [task] queue
      (queue.setGroup task.groupJid ((queue.groups task.groupJid).pushTask task)) where
  mirrored := h.setGroup ((h task.groupJid).pushTask hnew)
  held := by
    intro other
    simp only [Queue.held, Queue.setGroup_groups]
    split_ifs with he
    · rw [GroupState.pushTask, List.count_append, he]
      exact Nat.add_right_comm ..
    · have hne : [task].count other = 0 :=
        List.count_eq_zero.mpr fun hm => he (congrArg _ (List.mem_singleton.mp hm))
      rw [hne]
      rfl
  waiting_length := id

-- A popped task belongs to the group it is popped from, so it is looked for there.
theorem startPending (h : Mirrored queue) (ht : (queue.groups jid).pendingTasks = task :: rest) :
    Keeps [] queue
      ((queue.setGroup jid ((queue.groups jid).popTask task rest)).startTask jid task) := by
  have hpop := h.setGroup ((h jid).popTask ht)
  have hstart : Keeps [task] (queue.setGroup jid ((queue.groups jid).popTask task rest))
      ((queue.setGroup jid ((queue.groups jid).popTask task rest)).startTask jid task) :=
    startTask hpop task
  refine ⟨hstart.mirrored, fun other => ?_, hstart.waiting_length⟩
  have howner : task.groupJid = jid := (h jid).owner task (ht ▸ List.mem_cons_self)
  rw [hstart.held]
  simp only [Queue.held, Queue.setGroup_groups]
  split_ifs with he
  · rw [he, ht]
    simp only [GroupState.popTask, setGroup_taskRuns, List.count_cons, List.count_nil]
    omega
  · have hne : [task].count other = 0 :=
      List.count_eq_zero.mpr fun hm => he (List.mem_singleton.mp hm ▸ howner)
    rw [hne]
    rfl

theorem enqueueMessageCheck (h : Mirrored queue) (fromRetry : Bool) :
    Keeps [] queue (queue.enqueueMessageCheck cfg jid fromRetry) := by
  have hmarked : Keeps [] queue
      (queue.setGroup jid ((queue.groups jid).markPending queue.clock)) := setGroup h rfl rfl
  have hc := queue.enqueueMessageCheck_cases jid cfg fromRetry
  generalize queue.enqueueMessageCheck cfg jid fromRetry = next at hc ⊢
  cases hc with
  | stopped => exact refl h
  | busy | backoff | listed | crowded => exact hmarked
  | parked _ _ _ _ hl =>
      refine hmarked.trans (frame hmarked.mirrored rfl rfl fun _ => ?_)
      rw [Queue.park_waitingGroups, List.length_append]
      exact hl
  | started => exact startMessages h _

theorem dispatchParked (h : Mirrored queue) : Keeps [] queue (queue.dispatchParked jid) := by
  have hd := queue.dispatchParked_cases jid
  generalize queue.dispatchParked jid = next at hd ⊢
  cases hd with
  | task task rest ht => exact startPending h ht
  | messages =>
      have hset : Keeps [] queue
          (queue.setGroup jid { queue.groups jid with pendingMessages := false }) :=
        setGroup h rfl rfl
      exact hset.trans (startMessages hset.mirrored _)
  | deferred | idle => exact refl h

theorem drainGroup (h : Mirrored queue) : Keeps [] queue (queue.drainGroup cfg jid) := by
  have hd := queue.drainGroup_cases jid cfg
  generalize queue.drainGroup cfg jid = next at hd ⊢
  cases hd with
  | stopped | deferred => exact refl h
  | task _ task rest ht => exact startPending h ht
  | messages => exact startMessages h _
  | waiting =>
      refine queue.drainWaiting_invariant (Keeps [] queue) (fun drained next rest hd hl _ => ?_)
        (refl h)
      have hpop : Keeps [] drained (drained.popWaiting next rest) := by
        refine frame hd.mirrored rfl rfl fun hw => ?_
        rw [hl, List.length_cons] at hw
        exact Nat.le_of_succ_le hw
      exact (hd.trans hpop).trans (dispatchParked hpop.mirrored)

theorem retryFires (h : Mirrored queue) : Keeps [] queue (queue.retryFires cfg jid) := by
  unfold Queue.retryFires
  split_ifs
  · exact refl h
  · have hset : Keeps [] queue
        (queue.setGroup jid { queue.groups jid with retryReady := true }) := setGroup h rfl rfl
    exact hset.trans (enqueueMessageCheck hset.mirrored true)

theorem runnerStart (h : Mirrored queue) (runner : Runner Fn) :
    Keeps [] queue (queue.runnerStart runner) := by
  unfold Queue.runnerStart
  split <;> exact setGroup h rfl rfl

theorem markRunning (h : Mirrored queue) (id : Nat) : Keeps [] queue (queue.markRunning id) := by
  refine frame h rfl ?_ fun hw => hw
  simp only [Queue.taskRuns, Queue.markRunning, List.filterMap_map]
  congr 1
  funext runner
  simp only [Function.comp_apply]
  split_ifs <;> rfl

-- Accepted, the task object is in one place more; rejected, it is nowhere.
theorem enqueueTask (h : Mirrored queue) (taskId : TaskId) (fn : Fn) :
    Keeps (queue.acceptedTask cfg jid taskId fn).toList queue
      (queue.enqueueTask cfg jid taskId fn) := by
  let task : QueuedTask Fn := ⟨taskId, jid, fn⟩
  have hpush (hp : taskId ∉ (queue.groups jid).pendingTaskIds) :
      Keeps [task] queue (queue.setGroup jid ((queue.groups jid).pushTask task)) :=
    @pushTask Fn queue task _ h hp
  have hidle : Keeps [] queue
      (queue.setGroup jid { queue.groups jid with retryReady := false }) := setGroup h rfl rfl
  simp only [Queue.acceptedTask, Queue.enqueueTask]
  by_cases hs : queue.shuttingDown = true
  · rw [if_pos hs, if_pos hs]
    exact refl h
  rw [if_neg hs, if_neg hs]
  by_cases hr : (queue.groups jid).runningTaskId = some taskId
  · rw [if_pos hr, if_pos hr]
    exact refl h
  rw [if_neg hr, if_neg hr]
  by_cases hp : taskId ∈ (queue.groups jid).pendingTaskIds
  · rw [if_pos hp, if_pos hp]
    exact refl h
  rw [if_neg hp, if_neg hp]
  by_cases ha : (queue.groups jid).active = true
  · rw [if_pos ha, if_pos ha]
    split
    · exact frame h rfl rfl id
    · exact hpush hp
  rw [if_neg ha, if_neg ha]
  by_cases hf : queue.full cfg = true
  · rw [if_pos hf, if_pos hf]
    split
    · exact refl h
    next hc =>
    split
    · exact refl h
    split
    · exact hpush hp
    next hw =>
      refine (hpush hp).trans (frame (hpush hp).mirrored rfl rfl fun _ => ?_)
      rw [Queue.park_waitingGroups, List.length_append]
      exact Nat.lt_of_not_le fun hl => hc ⟨hw, hl⟩
  · rw [if_neg hf, if_neg hf]
    exact hidle.trans (startTask hidle.mirrored task)

end Keeps

theorem count_task? (tasks : List (Runner Fn)) (runner : Runner Fn) (task : QueuedTask Fn) :
    ((runner :: tasks).filterMap Runner.task?).count task =
      (tasks.filterMap Runner.task?).count task + runner.task?.toList.count task := by
  rw [List.filterMap_cons]
  cases runner.task? with
  | none => rfl
  | some own =>
      rw [List.count_cons, Option.toList_some, List.count_singleton]

-- The runner that ends takes its task object out of the queue.
theorem freed_held (hw : WellFormed cfg queue) {runner : Runner Fn}
    (hr : runner ∈ queue.runners) (outcome : Outcome) (task : QueuedTask Fn) :
    queue.held task =
      (queue.freed runner outcome).held task + runner.task?.toList.count task := by
  have hruns := ((perm_withoutRunner hw hr).filterMap Runner.task?).count_eq task
  rw [count_task?] at hruns
  have hfreed : (queue.freed runner outcome).taskRuns =
      (queue.withoutRunner runner.id).runners.filterMap Runner.task? := by
    rw [Queue.taskRuns, Queue.freed_runners]
    rfl
  simp only [Queue.held, Queue.freed_pendingTasks, hfreed]
  rw [Queue.taskRuns, hruns, Nat.add_assoc]

theorem freed_begunRuns (hw : WellFormed cfg queue) {runner : Runner Fn}
    (hr : runner ∈ queue.runners) (hp : runner.phase ≠ .created) (outcome : Outcome)
    (task : QueuedTask Fn) : queue.begunRuns.count task =
      (queue.freed runner outcome).begunRuns.count task + runner.task?.toList.count task := by
  have hperm := (perm_withoutRunner hw hr).filter fun other => decide (other.phase ≠ .created)
  rw [List.filter_cons_of_pos (by simpa using hp)] at hperm
  have hruns := (hperm.filterMap Runner.task?).count_eq task
  rw [count_task?] at hruns
  have hfreed : (queue.freed runner outcome).underWay =
      (queue.withoutRunner runner.id).runners.filter fun other => decide (other.phase ≠ .created) := by
    rw [Queue.underWay, Queue.freed_runners]
    rfl
  rw [Queue.begunRuns, Queue.begunRuns, hfreed]
  exact hruns

-- A runner that begins calls the function of its task object.
theorem markRunning_begunRuns (hw : WellFormed cfg queue) {runner : Runner Fn}
    (hr : runner ∈ queue.runners) (hp : runner.phase = .created) (task : QueuedTask Fn) :
    (queue.markRunning runner.id).begunRuns.count task =
      queue.begunRuns.count task + runner.task?.toList.count task := by
  let begins : Runner Fn → Runner Fn := fun other =>
    if other.id = runner.id then { other with phase := .running queue.clock } else other
  let others := (queue.withoutRunner runner.id).runners
  have hothers : others.map begins = others := by
    refine (List.map_congr_left fun other ho => ?_).trans (List.map_id _)
    have hid : other.id ≠ runner.id := by simpa using (List.mem_filter.mp ho).2
    exact if_neg hid
  have hperm := perm_withoutRunner hw hr
  have hbefore : queue.underWay.Perm (others.filter (·.phase ≠ .created)) := by
    have hfilter := hperm.filter fun other => decide (other.phase ≠ .created)
    rwa [List.filter_cons_of_neg (by simpa using hp)] at hfilter
  have hafter : (queue.markRunning runner.id).underWay.Perm
      ({ runner with phase := .running queue.clock } :: others.filter (·.phase ≠ .created)) := by
    have hmap := hperm.map begins
    rw [List.map_cons, hothers] at hmap
    have hfilter := hmap.filter fun other => decide (other.phase ≠ .created)
    have hbegun : begins runner = { runner with phase := .running queue.clock } := if_pos rfl
    rw [hbegun, List.filter_cons_of_pos (by simp)] at hfilter
    exact hfilter
  rw [Queue.begunRuns, Queue.begunRuns, (hafter.filterMap _).count_eq, count_task?,
    (hbefore.filterMap _).count_eq]
  rfl

end Held

theorem settled_pendingTaskIds (state : GroupState Fn) (job : Job Fn) (outcome : Outcome) :
    (state.settled job outcome).pendingTaskIds = state.pendingTaskIds := by
  unfold GroupState.settled GroupState.failed
  split <;> try split_ifs
  all_goals rfl

theorem freed_pendingTaskIds (runner : Runner Fn) (outcome : Outcome) :
    ((queue.freed runner outcome).groups jid).pendingTaskIds =
      (queue.groups jid).pendingTaskIds := by
  by_cases h : jid = runner.jid
  · subst h
    rw [Queue.freed_groups_self]
    have hs := settled_pendingTaskIds (queue.groups runner.jid) runner.job outcome
    generalize (queue.groups runner.jid).settled runner.job outcome = settled at hs ⊢
    rw [← hs]
    cases runner.job <;> rfl
  · rw [Queue.freed_groups_of_ne queue jid runner outcome h]

theorem Mirrored.freed (h : Mirrored queue) (runner : Runner Fn) (outcome : Outcome) :
    Mirrored (queue.freed runner outcome) := by
  intro jid
  refine ⟨?_, ?_, ?_⟩
  · rw [Queue.freed_pendingTasks]
    exact (h jid).owner
  · rw [Queue.freed_pendingTasks, freed_pendingTaskIds]
    exact (h jid).ids_eq
  · rw [Queue.freed_pendingTasks]
    exact (h jid).ids_nodup

-- A group with tasks will be looked at again: by a runner that ends, or as a parked one.
def Reachable (queue : Queue Fn) : Prop :=
  ∀ jid, (queue.groups jid).pendingTasks ≠ [] →
    jid ∈ queue.runnerJids ∨ jid ∈ queue.waitingGroups

namespace Reachable

theorem mono (h : Reachable queue)
    (ht : ∀ jid, (next.groups jid).pendingTasks ≠ [] → (queue.groups jid).pendingTasks ≠ [])
    (hr : queue.runnerJids ⊆ next.runnerJids) (hw : queue.waitingGroups ⊆ next.waitingGroups) :
    Reachable next := by
  intro jid hne
  exact (h jid (ht jid hne)).imp (fun hm => hr hm) (fun hm => hw hm)

theorem setGroup (h : Reachable queue)
    (hstate : state.pendingTasks ≠ [] → (queue.groups jid).pendingTasks ≠ [] ∨
      jid ∈ queue.runnerJids ∨ jid ∈ queue.waitingGroups) :
    Reachable (queue.setGroup jid state) := by
  intro other hne
  rw [Queue.setGroup_groups] at hne
  split_ifs at hne with he
  · subst he
    rcases hstate hne with hold | hold
    · exact h other hold
    · exact hold
  · exact h other hne

theorem launch (h : Reachable queue) (state : GroupState Fn) (job : Job Fn) :
    Reachable (queue.launch jid state job) := by
  intro other hne
  simp only [Queue.runnerJids, Queue.launch_runners, List.map_append, List.map_cons, List.map_nil,
    List.mem_append, List.mem_singleton]
  rw [Queue.launch_groups] at hne
  split_ifs at hne with he
  · exact Or.inl (Or.inr he)
  · exact (h other hne).imp_left Or.inl

theorem enqueueMessageCheck (h : Reachable queue) (fromRetry : Bool) :
    Reachable (queue.enqueueMessageCheck cfg jid fromRetry) := by
  have hmarked : Reachable
      (queue.setGroup jid ((queue.groups jid).markPending queue.clock)) := h.setGroup Or.inl
  have hc := queue.enqueueMessageCheck_cases jid cfg fromRetry
  generalize queue.enqueueMessageCheck cfg jid fromRetry = next at hc ⊢
  cases hc with
  | stopped => exact h
  | busy | backoff | listed | crowded => exact hmarked
  | parked =>
      exact hmarked.mono (fun _ hne => hne) (fun _ hm => hm) (List.subset_append_left _ _)
  | started => exact h.launch _ _

-- A task is appended only behind a container of its group or with the group parked.
theorem enqueueTask (h : Reachable queue) (hw : WellFormed cfg queue) (ho : ActiveOwned queue)
    (taskId : TaskId) (fn : Fn) : Reachable (queue.enqueueTask cfg jid taskId fn) := by
  have hc := queue.enqueueTask_cases jid cfg taskId fn
  generalize queue.enqueueTask cfg jid taskId fn = next at hc ⊢
  cases hc with
  | ignored | notified => exact h
  | busy hs ha => exact h.setGroup fun _ => Or.inr (Or.inl (ho hs jid ha))
  | listed _ _ _ _ hwait =>
      exact h.setGroup fun _ => Or.inr (Or.inr ((hw.mem_waitingSet jid).mp hwait))
  | parked =>
      intro other hne
      simp only [Queue.park_groups, Queue.setGroup_groups] at hne
      rw [Queue.park_waitingGroups, List.mem_append, List.mem_singleton]
      split_ifs at hne with he
      · exact Or.inr (Or.inr he)
      · exact (h other hne).imp_right Or.inl
  | started =>
      have hidle : Reachable
          (queue.setGroup jid { queue.groups jid with retryReady := false }) :=
        h.setGroup Or.inl
      exact hidle.launch _ _

-- What the loop pops it starts, unless the group has no task.
theorem dispatchPopped {parked : List Jid} (h : Reachable queue)
    (hl : queue.waitingGroups = jid :: parked) :
    Reachable ((queue.popWaiting jid parked).dispatchParked jid) := by
  have hs := StartsRunners.dispatchParked (queue.popWaiting jid parked) jid
  intro other hne
  rw [hs.runnerJids, Queue.dispatchParked_waitingGroups]
  by_cases he : other = jid
  · subst he
    have hd := (queue.popWaiting other parked).dispatchParked_cases other
    generalize (queue.popWaiting other parked).dispatchParked other = next at hd hne
    have htasks : ((queue.popWaiting other parked).groups other).pendingTasks ≠ [] := by
      cases hd with
      | task _ _ ht => rw [ht]; simp
      | messages ht | deferred ht | idle ht =>
          simp [Queue.startMessages, ht] at hne
    left
    rw [if_pos (by simp [Queue.dispatchable, htasks])]
    exact List.mem_append_right _ (List.mem_singleton_self _)
  · rw [dispatchParked_groups_of_ne he] at hne
    have hreach := h other hne
    rw [hl, List.mem_cons] at hreach
    rcases hreach with hm | hm
    · exact Or.inl (List.mem_append_left _ hm)
    · exact Or.inr (hm.resolve_left he)

-- Only the group of the runner that ends can have lost its last runner, and its first
-- task is the first thing that _drain_group looks for.
theorem finish (h : Reachable queue) (hw : WellFormed cfg queue) {runner : Runner Fn}
    (hr : runner ∈ queue.runners) (hs : queue.shuttingDown = false) (outcome : Outcome) :
    Reachable ((queue.freed runner outcome).drainGroup cfg runner.jid) := by
  have hothers (other : Jid) (hne : other ≠ runner.jid)
      (ht : ((queue.freed runner outcome).groups other).pendingTasks ≠ []) :
      other ∈ (queue.freed runner outcome).runnerJids ∨
        other ∈ (queue.freed runner outcome).waitingGroups := by
    rw [Queue.freed_pendingTasks] at ht
    rw [freed_runnerJids, Queue.freed_waitingGroups]
    exact (h other ht).imp_left (mem_withoutRunner hw hr hne)
  have hempty (ht : ((queue.freed runner outcome).groups runner.jid).pendingTasks = []) :
      Reachable (queue.freed runner outcome) := by
    intro other hne
    by_cases he : other = runner.jid
    · exact absurd ht (he ▸ hne)
    · exact hothers other he hne
  have hd := (queue.freed runner outcome).drainGroup_cases runner.jid cfg
  generalize (queue.freed runner outcome).drainGroup cfg runner.jid = next at hd ⊢
  cases hd with
  | stopped hstop =>
      rw [Queue.freed_shuttingDown, hs] at hstop
      cases hstop
  | task _ task rest =>
      intro other hne
      simp only [Queue.runnerJids, Queue.startTask, Queue.launch_runners, List.map_append,
        List.map_cons, List.map_nil, List.mem_append, List.mem_singleton]
      by_cases he : other = runner.jid
      · exact Or.inl (Or.inr he)
      · simp only [Queue.startTask, Queue.launch_groups, if_neg he, Queue.setGroup_groups] at hne
        exact (hothers other he hne).imp_left Or.inl
  | messages _ ht => exact (hempty ht).launch _ _
  | deferred _ ht => exact hempty ht
  | waiting _ ht =>
      exact Queue.drainWaiting_invariant _ Reachable (fun _ _ _ hq hl _ => hq.dispatchPopped hl)
        (hempty ht)

theorem retryFires (h : Reachable queue) : Reachable (queue.retryFires cfg jid) := by
  unfold Queue.retryFires
  split_ifs
  · exact h
  · have hset : Reachable (queue.setGroup jid { queue.groups jid with retryReady := true }) :=
      h.setGroup Or.inl
    exact hset.enqueueMessageCheck true

theorem start (h : Reachable queue) (runner : Runner Fn) (id : Nat) :
    Reachable ((queue.runnerStart runner).markRunning id) := by
  have hstart : Reachable (queue.runnerStart runner) := by
    unfold Queue.runnerStart
    split <;> exact h.setGroup Or.inl
  refine hstart.mono (fun _ hne => hne) ?_ (fun _ hm => hm)
  rw [Queue.runnerJids, Queue.runnerJids, Queue.markRunning_jids]
  exact fun _ hm => hm

end Reachable

end EvoClaw.GroupQueue
