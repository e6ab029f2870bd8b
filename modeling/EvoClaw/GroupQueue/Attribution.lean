import EvoClaw.GroupQueue.Lemmas

namespace EvoClaw.GroupQueue

open EventSystem

variable {Fn : Type} {cfg : Config} {queue next last : Queue Fn} {jid : Jid}

-- The queue beside the message runs that have begun, with what they were handed.
structure Attribution (Fn : Type) where
  queue : Queue Fn := {}
  begun : List (Jid × QueueMeta) := []

-- What the first step of a runner hands to the process function.
def Queue.handed (queue : Queue Fn) : Event Fn → List (Jid × QueueMeta)
  | .start id => (queue.created? id).toList.filterMap fun runner =>
      { runner with phase := .running queue.clock }.queueMeta.map fun info => (runner.jid, info)
  | _ => []

def Attribution.step (cfg : Config) (record : Attribution Fn) (event : Event Fn) :
    Option (Attribution Fn) :=
  (record.queue.step cfg event).map fun next => ⟨next, record.begun ++ record.queue.handed event⟩

-- A queue time is kept for pending messages only.
def GroupState.Stamped (state : GroupState Fn) : Prop :=
  state.pendingMessageQueuedAtMs ≠ none → state.pendingMessages = true

def Stamped (record : Attribution Fn) : Prop :=
  ∀ jid, (record.queue.groups jid).Stamped

-- No message run has a queue time from before an earlier run of its group began.
def InOrder (record : Attribution Fn) : Prop :=
  record.begun.Pairwise fun earlier later =>
    earlier.1 = later.1 → earlier.2.startedAtMs ≤ later.2.queuedAtMs

def Job.queuedAtMs? : Job Fn → Option Nat
  | .messages _ queuedAtMs => some queuedAtMs
  | .task _ => none

-- Nothing has come in for the group since its message run was dispatched.
def beginsUnstamped (record : Attribution Fn) : Event Fn → Prop
  | .start id => ∀ runner ∈ record.queue.created? id, runner.job.queuedAtMs? ≠ none →
      (record.queue.groups runner.jid).pendingMessageQueuedAtMs = none
  | _ => True

-- No other message run of the group has been dispatched and has not begun.
def beginsAlone (record : Attribution Fn) : Event Fn → Prop
  | .start id => ∀ runner ∈ record.queue.created? id, runner.job.queuedAtMs? ≠ none →
      ∀ other ∈ record.queue.runners, other.id ≠ id → other.phase = .created →
        other.job.queuedAtMs? ≠ none → other.jid ≠ runner.jid
  | _ => True

-- What an operation does to the queue time of a group.
structure GroupState.KeepsTime (now : Nat) (state after : GroupState Fn) : Prop where
  stamped : state.Stamped → after.Stamped
  stamps : ∀ time ∈ after.pendingMessageQueuedAtMs,
    time ∈ state.pendingMessageQueuedAtMs ∨ time = now

namespace GroupState.KeepsTime

variable {now : Nat} {state after : GroupState Fn}

theorem of_eq (hstamp : after.pendingMessageQueuedAtMs = state.pendingMessageQueuedAtMs)
    (hpending : after.pendingMessages = state.pendingMessages) : state.KeepsTime now after where
  stamped h := by
    unfold Stamped
    rwa [hstamp, hpending]
  stamps _ htime := .inl (hstamp ▸ htime)

theorem of_none (hstamp : after.pendingMessageQueuedAtMs = none) : state.KeepsTime now after where
  stamped _ h := absurd hstamp h
  stamps time htime := by
    rw [hstamp] at htime
    cases htime

theorem markPending : state.KeepsTime now (state.markPending now) where
  stamped _ _ := rfl
  stamps time htime := by
    unfold GroupState.markPending at htime
    cases hstamp : state.pendingMessageQueuedAtMs with
    | none => exact .inr (by simpa [hstamp, eq_comm] using htime)
    | some old => exact .inl (by simpa [hstamp] using htime)

end GroupState.KeepsTime

-- The queue time of a run that is dispatched now.
theorem GroupState.queuedAtMs_cases (state : GroupState Fn) (now : Nat) :
    state.queuedAtMs now ∈ state.pendingMessageQueuedAtMs ∨ state.queuedAtMs now = now := by
  unfold GroupState.queuedAtMs
  split
  · exact .inr rfl
  · next hstamp => exact .inl hstamp
  · exact .inr rfl

-- What no operation but the first step of a runner does to the queue times.
structure KeepsTimes (queue next : Queue Fn) : Prop where
  clock : next.clock = queue.clock
  groups : ∀ jid, (queue.groups jid).KeepsTime queue.clock (next.groups jid)
  queued : ∀ runner ∈ next.runners, runner.phase = .created → ∀ time ∈ runner.job.queuedAtMs?,
    runner ∈ queue.runners ∨ time ∈ (queue.groups runner.jid).pendingMessageQueuedAtMs ∨
      time = queue.clock

namespace KeepsTimes

theorem trans (h : KeepsTimes queue next) (h' : KeepsTimes next last) : KeepsTimes queue last where
  clock := h'.clock.trans h.clock
  groups jid := by
    refine ⟨(h'.groups jid).stamped ∘ (h.groups jid).stamped, fun time htime => ?_⟩
    rcases (h'.groups jid).stamps time htime with hnext | hclock
    · exact (h.groups jid).stamps time hnext
    · exact .inr (hclock.trans h.clock)
  queued runner hmem hcreated time htime := by
    rcases h'.queued runner hmem hcreated time htime with hnext | hstamp | hclock
    · exact h.queued runner hnext hcreated time htime
    · exact .inr ((h.groups runner.jid).stamps time hstamp)
    · exact .inr (.inr (hclock.trans h.clock))

theorem frame (hclock : next.clock = queue.clock) (hgroups : next.groups = queue.groups)
    (hrunners : next.runners ⊆ queue.runners) : KeepsTimes queue next where
  clock := hclock
  groups jid := by
    rw [hgroups]
    exact .of_eq rfl rfl
  queued _ hmem _ _ _ := .inl (hrunners hmem)

theorem setGroup {state : GroupState Fn}
    (h : (queue.groups jid).KeepsTime queue.clock state) :
    KeepsTimes queue (queue.setGroup jid state) where
  clock := rfl
  groups other := by
    rw [Queue.setGroup_groups]
    split
    · next heq => exact heq ▸ h
    · exact .of_eq rfl rfl
  queued _ hmem _ _ _ := .inl hmem

theorem launch {state : GroupState Fn} {job : Job Fn}
    (h : (queue.groups jid).KeepsTime queue.clock state)
    (hjob : ∀ time ∈ job.queuedAtMs?,
      time ∈ (queue.groups jid).pendingMessageQueuedAtMs ∨ time = queue.clock) :
    KeepsTimes queue (queue.launch jid state job) where
  clock := rfl
  groups := (setGroup h).groups
  queued runner hmem _ time htime := by
    rw [Queue.launch_runners, List.mem_append, List.mem_singleton] at hmem
    rcases hmem with hold | rfl
    · exact .inl hold
    · exact .inr (hjob time htime)

theorem startMessages (reason : String) : KeepsTimes queue (queue.startMessages jid reason) := by
  refine launch (.of_none rfl) fun time htime => ?_
  rw [← Option.mem_some.mp htime]
  exact GroupState.queuedAtMs_cases _ _

theorem startTask (task : QueuedTask Fn) : KeepsTimes queue (queue.startTask jid task) := by
  refine launch (.of_eq rfl rfl) fun time htime => ?_
  cases htime

theorem enqueueMessageCheck (fromRetry : Bool) :
    KeepsTimes queue (queue.enqueueMessageCheck cfg jid fromRetry) := by
  have hc := queue.enqueueMessageCheck_cases jid cfg fromRetry
  generalize queue.enqueueMessageCheck cfg jid fromRetry = next at hc
  have hmarked : KeepsTimes queue
      (queue.setGroup jid ((queue.groups jid).markPending queue.clock)) := setGroup .markPending
  cases hc with
  | stopped => exact frame rfl rfl (List.Subset.refl _)
  | busy | backoff | listed | crowded => exact hmarked
  | parked => exact hmarked.trans (frame rfl rfl (List.Subset.refl _))
  | started => exact startMessages "messages"

theorem enqueueTask (taskId : TaskId) (fn : Fn) :
    KeepsTimes queue (queue.enqueueTask cfg jid taskId fn) := by
  have hc := queue.enqueueTask_cases jid cfg taskId fn
  generalize queue.enqueueTask cfg jid taskId fn = next at hc
  have hqueued : KeepsTimes queue
      (queue.setGroup jid ((queue.groups jid).pushTask ⟨taskId, jid, fn⟩)) :=
    setGroup (.of_eq rfl rfl)
  cases hc with
  | ignored | notified => exact frame rfl rfl (List.Subset.refl _)
  | busy | listed => exact hqueued
  | parked => exact hqueued.trans (frame rfl rfl (List.Subset.refl _))
  | started =>
      refine trans (setGroup ?_) (startTask _)
      exact .of_eq rfl rfl

theorem launch_setGroup (state after : GroupState Fn) (job : Job Fn) :
    (queue.setGroup jid state).launch jid after job = queue.launch jid after job := by
  simp only [Queue.launch, Queue.setGroup, Function.update_idem]

theorem popTask (task : QueuedTask Fn) (rest : List (QueuedTask Fn)) :
    KeepsTimes queue
      ((queue.setGroup jid ((queue.groups jid).popTask task rest)).startTask jid task) := by
  refine trans (setGroup ?_) (startTask task)
  exact .of_eq rfl rfl

theorem dispatchParked : KeepsTimes queue (queue.dispatchParked jid) := by
  have hd := queue.dispatchParked_cases jid
  generalize queue.dispatchParked jid = next at hd
  cases hd with
  | task task rest => exact popTask task rest
  | messages =>
      -- the flag is cleared first, and the queue time right behind it
      unfold Queue.startMessages
      rw [launch_setGroup, Queue.setGroup_groups_self]
      refine launch (.of_none rfl) fun time htime => ?_
      rw [← Option.mem_some.mp htime]
      exact GroupState.queuedAtMs_cases { queue.groups jid with pendingMessages := false } _
  | deferred | idle => exact frame rfl rfl (List.Subset.refl _)

theorem drainWaiting : KeepsTimes queue (queue.drainWaiting cfg) := by
  refine Queue.drainWaiting_invariant queue (KeepsTimes queue) (fun other parked rest h _ _ => ?_)
    (frame rfl rfl (List.Subset.refl _))
  have hpopped : KeepsTimes other (other.popWaiting parked rest) :=
    frame rfl rfl (List.Subset.refl _)
  exact (h.trans hpopped).trans dispatchParked

theorem drainGroup : KeepsTimes queue (queue.drainGroup cfg jid) := by
  have hd := queue.drainGroup_cases jid cfg
  generalize queue.drainGroup cfg jid = next at hd
  cases hd with
  | stopped | deferred => exact frame rfl rfl (List.Subset.refl _)
  | task _ task rest => exact popTask task rest
  | messages => exact startMessages "drain"
  | waiting => exact drainWaiting

theorem freed (runner : Runner Fn) (outcome : Outcome) :
    KeepsTimes queue (queue.freed runner outcome) where
  clock := by
    unfold Queue.freed Queue.release Queue.settle Queue.scheduleRetry
    split
    · rfl
    · dsimp only
      split_ifs <;> rfl
    · dsimp only
      split_ifs <;> rfl
    · rfl
    · rfl
  groups jid := by
    refine .of_eq ?_ (queue.freed_pendingMessages jid runner outcome)
    by_cases hjid : jid = runner.jid
    · subst hjid
      rw [Queue.freed_groups_self]
      unfold GroupState.released GroupState.settled GroupState.failed
      split <;> split <;> try split_ifs
      all_goals rfl
    · rw [queue.freed_groups_of_ne jid runner outcome hjid]
  queued other hmem _ _ _ := by
    rw [Queue.freed_runners] at hmem
    exact .inl (List.mem_of_mem_filter hmem)

theorem retryFires : KeepsTimes queue (queue.retryFires cfg jid) := by
  unfold Queue.retryFires
  split
  · exact frame rfl rfl (List.Subset.refl _)
  · refine trans (setGroup ?_) (enqueueMessageCheck true)
    exact .of_eq rfl rfl

end KeepsTimes

theorem start_cases {id : Nat} (h : queue.step cfg (.start id) = some next) :
    ∃ runner, queue.created? id = some runner ∧
      next = (queue.runnerStart runner).markRunning id := by
  obtain ⟨runner, hrunner, rfl⟩ := Option.map_eq_some_iff.mp h
  exact ⟨runner, hrunner, rfl⟩

theorem keepsTimes_of_step {event : Event Fn} (h : queue.step cfg event = some next)
    (hstart : ∀ id, event ≠ .start id) (htick : ∀ ms, event ≠ .tick ms) :
    KeepsTimes queue next := by
  cases Queue.step_cases h with
  | enqueueMessageCheck jid => exact .enqueueMessageCheck false
  | enqueueTask jid taskId fn => exact .enqueueTask taskId fn
  | start runner => exact absurd rfl (hstart runner.id)
  | finish runner outcome =>
      rw [Queue.runnerFinish_eq]
      exact (KeepsTimes.freed runner outcome).trans .drainGroup
  | cancelCreated runner => exact .frame rfl rfl List.filter_sublist.subset
  | retryFires timer =>
      have hfired : KeepsTimes queue (queue.withoutTimer timer.id) :=
        .frame rfl rfl (List.Subset.refl _)
      exact hfired.trans .retryFires
  | tick ms => exact absurd rfl (htick ms)
  | shutdownSync | shutdown => exact .frame rfl rfl (List.Subset.refl _)

section FirstStep

variable {id : Nat} {runner other : Runner Fn}

-- The flag goes, and the queue time stays.
theorem begun_stamped_iff (h : (queue.groups jid).Stamped) :
    (((queue.runnerStart runner).markRunning id).groups jid).Stamped ↔
      (runner.jid = jid → runner.job.queuedAtMs? ≠ none →
        (queue.groups jid).pendingMessageQueuedAtMs = none) := by
  unfold Queue.runnerStart
  cases runner.job with
  | messages reason time =>
      by_cases hjid : runner.jid = jid
      · subst hjid
        simp [GroupState.Stamped, Queue.markRunning, Job.queuedAtMs?]
      · have hother : ((queue.setGroup runner.jid
            { queue.groups runner.jid with
              idleWaiting := false, isTaskContainer := false, pendingMessages := false }).groups
              jid) = queue.groups jid := by
          rw [Queue.setGroup_groups, if_neg (Ne.symm hjid)]
        exact iff_of_true (hother.symm ▸ h) fun heq => absurd heq hjid
  | task task =>
      have hkept : KeepsTimes queue
          (queue.setGroup runner.jid { queue.groups runner.jid with idleWaiting := false }) :=
        .setGroup (.of_eq rfl rfl)
      exact iff_of_true ((hkept.groups jid).stamped h) fun _ hjob => absurd rfl hjob

theorem begun_stamp : (((queue.runnerStart runner).markRunning id).groups
    jid).pendingMessageQueuedAtMs = (queue.groups jid).pendingMessageQueuedAtMs := by
  unfold Queue.runnerStart
  cases runner.job <;> simp only [Queue.markRunning, Queue.setGroup_groups] <;> split
  all_goals first | rfl | next heq => rw [heq]

-- The runners that are still to begin.
theorem mem_begun (hmem : other ∈ ((queue.runnerStart runner).markRunning id).runners)
    (hcreated : other.phase = .created) : other ∈ queue.runners ∧ other.id ≠ id := by
  have hsame : (queue.runnerStart runner).runners = queue.runners := by
    unfold Queue.runnerStart
    cases runner.job <;> rfl
  obtain ⟨old, hold, rfl⟩ := List.mem_map.mp hmem
  rw [hsame] at hold
  split at hcreated
  · cases hcreated
  · next hid =>
      rw [if_neg hid]
      exact ⟨hold, hid⟩

theorem begun_clock : ((queue.runnerStart runner).markRunning id).clock = queue.clock := by
  unfold Queue.runnerStart
  cases runner.job <;> rfl

-- A task's first step changes no queue time.
theorem beginTask {task : QueuedTask Fn} (hjob : runner.job = .task task) :
    KeepsTimes queue ((queue.runnerStart runner).markRunning id) where
  clock := begun_clock
  groups jid := by
    refine ⟨fun h => (begun_stamped_iff h).mpr fun _ hmessages => ?_, fun time htime => ?_⟩
    · exact absurd (by rw [hjob]; rfl) hmessages
    · rw [begun_stamp] at htime
      exact .inl htime
  queued _ hmem hcreated _ _ := .inl (mem_begun hmem hcreated).1

end FirstStep

-- The message runs that have begun did so in the past, and before what is still to begin was
-- queued.
structure Timely (record : Attribution Fn) : Prop where
  inOrder : InOrder record
  past : ∀ run ∈ record.begun, run.2.startedAtMs ≤ record.queue.clock
  stamps : ∀ run ∈ record.begun, ∀ time ∈ (record.queue.groups run.1).pendingMessageQueuedAtMs,
    run.2.startedAtMs ≤ time
  queued : ∀ run ∈ record.begun, ∀ runner ∈ record.queue.runners, runner.phase = .created →
    runner.jid = run.1 → ∀ time ∈ runner.job.queuedAtMs?, run.2.startedAtMs ≤ time

theorem Timely.keepsTimes {begun : List (Jid × QueueMeta)} (h : Timely ⟨queue, begun⟩)
    (hkept : KeepsTimes queue next) : Timely ⟨next, begun⟩ where
  inOrder := h.inOrder
  past run hrun := by
    rw [hkept.clock]
    exact h.past run hrun
  stamps run hrun time htime := by
    rcases (hkept.groups run.1).stamps time htime with hold | rfl
    · exact h.stamps run hrun time hold
    · exact h.past run hrun
  queued run hrun runner hmem hcreated hjid time htime := by
    rcases hkept.queued runner hmem hcreated time htime with hold | hstamp | rfl
    · exact h.queued run hrun runner hold hcreated hjid time htime
    · exact h.stamps run hrun time (hjid ▸ hstamp)
    · exact h.past run hrun

-- The first step of a message run.
theorem Timely.begin {begun : List (Jid × QueueMeta)} (h : Timely ⟨queue, begun⟩)
    {runner : Runner Fn} {reason : String} {time : Nat} {info : QueueMeta}
    (hmem : runner ∈ queue.runners) (hcreated : runner.phase = .created)
    (hjob : runner.job = .messages reason time)
    (hinfo : { runner with phase := .running queue.clock }.queueMeta = some info)
    (hstamp : (queue.groups runner.jid).pendingMessageQueuedAtMs = none)
    (halone : ∀ other ∈ queue.runners, other.id ≠ runner.id → other.phase = .created →
      other.job.queuedAtMs? ≠ none → other.jid ≠ runner.jid) :
    Timely ⟨(queue.runnerStart runner).markRunning runner.id, begun ++ [(runner.jid, info)]⟩ := by
  simp only [Runner.queueMeta, hjob, Option.some.injEq] at hinfo
  have hqueued : ∀ run ∈ begun, run.1 = runner.jid → run.2.startedAtMs ≤ info.queuedAtMs := by
    intro run hrun hjid
    rw [← hinfo]
    dsimp only
    split
    · exact h.past run hrun
    · exact h.queued run hrun runner hmem hcreated hjid.symm time (by rw [hjob]; rfl)
  have hstarted : info.startedAtMs = queue.clock := by rw [← hinfo]
  refine ⟨?_, fun run hrun => ?_, fun run hrun other hother => ?_,
    fun run hrun other hother hphase hjid later hlater => ?_⟩
  · refine List.pairwise_append.mpr ⟨h.inOrder, List.pairwise_singleton _ _, ?_⟩
    intro run hrun last hlast hjid
    rw [List.mem_singleton.mp hlast] at hjid ⊢
    exact hqueued run hrun hjid
  · rw [begun_clock]
    rcases List.mem_append.mp hrun with hold | hnew
    · exact h.past run hold
    · rw [List.mem_singleton.mp hnew]
      exact Nat.le_of_eq hstarted
  · rw [begun_stamp] at hother
    rcases List.mem_append.mp hrun with hold | hnew
    · exact h.stamps run hold other hother
    · rw [List.mem_singleton.mp hnew, hstamp] at hother
      cases hother
  · obtain ⟨hold, hid⟩ := mem_begun hother hphase
    rcases List.mem_append.mp hrun with hrun | hnew
    · exact h.queued run hrun other hold hphase hjid later hlater
    · rw [List.mem_singleton.mp hnew] at hjid
      exact absurd hjid (halone other hold hid hphase (Option.ne_none_iff_exists'.mpr ⟨_, hlater⟩))

section Step

variable {record after : Attribution Fn} {event : Event Fn}

theorem Attribution.step_cases (h : record.step cfg event = some after) :
    record.queue.step cfg event = some after.queue ∧
      after.begun = record.begun ++ record.queue.handed event := by
  obtain ⟨next, hnext, rfl⟩ := Option.map_eq_some_iff.mp h
  exact ⟨hnext, rfl⟩

theorem stamped_iff_of_step (hstamped : Stamped record) (h : record.step cfg event = some after) :
    Stamped after ↔ beginsUnstamped record event := by
  obtain ⟨hnext, -⟩ := Attribution.step_cases h
  have hother (hstart : ∀ id, event ≠ .start id) (htick : ∀ ms, event ≠ .tick ms) :
      Stamped after := fun jid =>
    ((keepsTimes_of_step hnext hstart htick).groups jid).stamped (hstamped jid)
  cases event with
  | start id =>
      obtain ⟨runner, hrunner, hafter⟩ := start_cases hnext
      have hsplit : Stamped after ↔ ∀ jid, runner.jid = jid → runner.job.queuedAtMs? ≠ none →
          (record.queue.groups jid).pendingMessageQueuedAtMs = none := by
        refine forall_congr' fun jid => ?_
        rw [hafter]
        exact begun_stamped_iff (hstamped jid)
      rw [hsplit, forall_eq']
      simp only [beginsUnstamped, hrunner, Option.mem_some, forall_eq']
  | tick ms =>
      refine iff_of_true (fun jid => ?_) trivial
      rw [← Option.some.inj hnext]
      exact hstamped jid
  | enqueueMessageCheck | enqueueTask | finish | cancelCreated | retryFires | shutdownSync
  | shutdown => exact iff_of_true (hother (by simp) (by simp)) trivial

theorem Timely.step (htimely : Timely record) (hunstamped : beginsUnstamped record event)
    (halone : beginsAlone record event) (h : record.step cfg event = some after) :
    Timely after := by
  obtain ⟨queue, begun⟩ := record
  obtain ⟨next, hnext, rfl⟩ := Option.map_eq_some_iff.mp h
  have hother (hstart : ∀ id, event ≠ .start id) (htick : ∀ ms, event ≠ .tick ms) :
      Timely ⟨next, begun⟩ := htimely.keepsTimes (keepsTimes_of_step hnext hstart htick)
  cases event with
  | start id =>
      obtain ⟨runner, hrunner, rfl⟩ := start_cases hnext
      obtain ⟨hmem, rfl, hcreated⟩ := Queue.created?_eq_some hrunner
      have hjobs : runner.job.queuedAtMs? ≠ none →
          (queue.groups runner.jid).pendingMessageQueuedAtMs = none := hunstamped runner hrunner
      cases hjob : runner.job with
      | messages reason time =>
          have hmessages : runner.job.queuedAtMs? ≠ none := by simp [hjob, Job.queuedAtMs?]
          have hinfo : { runner with phase := .running queue.clock }.queueMeta =
              some ⟨reason, if time = 0 then queue.clock else time, queue.clock,
                queue.clock - if time = 0 then queue.clock else time⟩ := by
            simp only [Runner.queueMeta, hjob]
          simp only [Queue.handed, hrunner, Option.toList_some, List.filterMap_cons, hinfo,
            Option.map_some, List.filterMap_nil]
          exact htimely.begin hmem hcreated hjob hinfo (hjobs hmessages)
            (halone runner hrunner hmessages)
      | task task =>
          simp only [Queue.handed, hrunner, Option.toList_some, List.filterMap_cons,
            Runner.queueMeta, hjob, Option.map_none, List.filterMap_nil, List.append_nil]
          exact htimely.keepsTimes (beginTask hjob)
  | tick ms =>
      have hnow : next = { queue with clock := queue.clock + ms } := (Option.some.inj hnext).symm
      simp only [Queue.handed, List.append_nil]
      subst hnow
      exact ⟨htimely.inOrder, fun run hrun => (htimely.past run hrun).trans (Nat.le_add_right _ _),
        htimely.stamps, htimely.queued⟩
  | enqueueMessageCheck | enqueueTask | finish | cancelCreated | retryFires | shutdownSync
  | shutdown =>
      simp only [Queue.handed, List.append_nil]
      exact hother (by simp) (by simp)

end Step

-- The queue times are those of pending messages exactly as long as nothing comes in between
-- the dispatch of a message run and its first step.
theorem queueTimes_attributed (events : List (Event Fn)) :
    (Always (Attribution.step cfg) Stamped {} events ↔
      Along (Attribution.step cfg) beginsUnstamped {} events) ∧
    (Along (Attribution.step cfg) (fun record event =>
        beginsUnstamped record event ∧ beginsAlone record event) {} events →
      Always (Attribution.step cfg) InOrder {} events) := by
  have hstamped : Stamped ({} : Attribution Fn) := fun _ h => absurd rfl h
  have htimely : Timely ({} : Attribution Fn) :=
    ⟨.nil, fun _ h => absurd h List.not_mem_nil, fun _ h => absurd h List.not_mem_nil,
      fun _ h => absurd h List.not_mem_nil⟩
  refine ⟨always_iff_along Stamped ?_ (fun _ h => h) ?_ hstamped, fun hguard => ?_⟩
  · exact fun _ _ _ hinv hguard hstep => (stamped_iff_of_step hinv hstep).mpr hguard
  · exact fun _ _ _ hinv hstep hholds => (stamped_iff_of_step hinv hstep).mp hholds
  · exact hguard.always Timely (fun _ _ _ hinv hboth hstep => hinv.step hboth.1 hboth.2 hstep)
      (fun _ h => h.inOrder) htimely

-- A notice comes between the dispatch of each run and its first step. It leaves a queue time
-- behind, and the second run is handed the one that the first run left.
def lateNotices : List (Event Unit) :=
  [.enqueueMessageCheck "a", .tick 1, .enqueueMessageCheck "a", .tick 9, .start 0,
    .finish 0 .success, .tick 10, .enqueueMessageCheck "a", .tick 1, .enqueueMessageCheck "a",
    .start 1]

set_option maxRecDepth 4000 in
theorem late_notices_misattributed :
    ¬ Always (Attribution.step ⟨2, by decide⟩) Stamped {} lateNotices ∧
      ¬ Always (Attribution.step ⟨2, by decide⟩) InOrder {} lateNotices := by
  have hrun : ∃ final, run (Attribution.step ⟨2, by decide⟩) {} lateNotices = some final ∧
      (final.queue.groups "a").pendingMessageQueuedAtMs = some 21 ∧
      (final.queue.groups "a").pendingMessages = false ∧
      final.begun = [("a", ⟨"messages", 10, 10, 0⟩), ("a", ⟨"messages", 1, 21, 20⟩)] :=
    ⟨_, rfl, by decide, by decide, by decide⟩
  obtain ⟨final, hfinal, hstamp, hpending, hbegun⟩ := hrun
  refine ⟨fun h => ?_, fun h => ?_⟩
  · have hset := h.reached hfinal "a" (by simp [hstamp])
    rw [hpending] at hset
    cases hset
  · have horder := h.reached hfinal
    rw [InOrder, hbegun] at horder
    exact absurd horder (by decide)

end EvoClaw.GroupQueue
