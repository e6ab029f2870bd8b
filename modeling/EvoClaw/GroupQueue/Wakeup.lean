import EvoClaw.GroupQueue.Runners

namespace EvoClaw.GroupQueue

open EventSystem

variable {Fn : Type} {cfg : Config} {queue next : Queue Fn} {jid : Jid}

def Job.isMessages : Job Fn → Bool
  | .messages _ _ => true
  | .task _ => false

-- The groups with a pending _retry coroutine.
def Queue.timerJids (queue : Queue Fn) : List Jid :=
  queue.retryTasks.map RetryTimer.jid

-- The groups with an unfinished _run_for_group.
def Queue.messageJids (queue : Queue Fn) : List Jid :=
  (queue.runners.filter (·.job.isMessages)).map Runner.jid

-- A failed group without a runner waits for its timer, or is parked with it fired.
def HearsAgain (queue : Queue Fn) (jid : Jid) : Prop :=
  queue.shuttingDown = false → 0 < (queue.groups jid).retryCount → jid ∉ queue.runnerJids →
    jid ∈ queue.timerJids ∨
      jid ∈ queue.waitingGroups ∧ (queue.groups jid).retryReady = true

instance (jid : Jid) : DecidablePred fun queue : Queue Fn => HearsAgain queue jid :=
  fun queue => inferInstanceAs (Decidable (queue.shuttingDown = false → _ → _ → _))

def NeverDeaf (queue : Queue Fn) : Prop :=
  ∀ jid, HearsAgain queue jid

-- The fired timer of a failed group finds room in the waiting list, and a task that
-- starts at once does not take the fired timer away from the group's messages.
def wakeupKept (cfg : Config) (queue : Queue Fn) : Event Fn → Prop
  | .retryFires id => ∀ timer ∈ queue.retryTasks, timer.id = id → queue.shuttingDown = false →
      (queue.groups timer.jid).active = false → queue.full cfg = true →
      timer.jid ∉ queue.waitingGroups → MAX_WAITING_GROUPS ≤ queue.waitingGroups.length →
      (queue.groups timer.jid).retryCount = 0 ∨ timer.jid ∈ (queue.withoutTimer id).timerJids ∨
        timer.jid ∈ queue.runnerJids
  | .enqueueTask jid taskId _ => queue.shuttingDown = false →
      (queue.groups jid).runningTaskId ≠ some taskId →
      taskId ∉ (queue.groups jid).pendingTaskIds → (queue.groups jid).active = false →
      queue.full cfg = false →
      (queue.groups jid).retryCount = 0 ∨ jid ∈ queue.timerJids ∨ jid ∈ queue.messageJids
  | _ => True

instance (queue : Queue Fn) : DecidablePred (wakeupKept cfg queue)
  | .retryFires _ => inferInstanceAs (Decidable (∀ timer ∈ queue.retryTasks, _))
  | .enqueueTask _ _ _ => inferInstanceAs (Decidable (queue.shuttingDown = false → _))
  | .enqueueMessageCheck _ | .start _ | .finish _ _ | .cancelCreated _ | .tick _
  | .shutdownSync | .shutdown => isTrue trivial

-- What keeps a failed group from going deaf: its timer, a message run that will
-- succeed or set a new timer, or a fired timer with somebody to start the messages.
def Awaited (queue : Queue Fn) (jid : Jid) : Prop :=
  jid ∈ queue.timerJids ∨ jid ∈ queue.messageJids ∨
    (queue.groups jid).retryReady = true ∧ (queue.groups jid).pendingMessages = true ∧
      (jid ∈ queue.waitingGroups ∨ jid ∈ queue.runnerJids)

def WakesAt (queue : Queue Fn) (jid : Jid) : Prop :=
  0 < (queue.groups jid).retryCount → Awaited queue jid

def Wakes (queue : Queue Fn) : Prop :=
  queue.shuttingDown = false → ∀ jid, WakesAt queue jid

theorem messageJids_subset (h : jid ∈ queue.messageJids) : jid ∈ queue.runnerJids :=
  (List.filter_sublist.map _).subset h

theorem Wakes.neverDeaf (h : Wakes queue) : NeverDeaf queue := by
  intro jid hs hc hr
  rcases h hs jid hc with ht | hm | ⟨hready, _, hw | hr'⟩
  · exact Or.inl ht
  · exact absurd (messageJids_subset hm) hr
  · exact Or.inr ⟨hw, hready⟩
  · exact absurd hr' hr

-- Nothing that `jid` waits for is lost on the way from `queue` to `next`.
structure KeepsWake (queue next : Queue Fn) (jid : Jid) : Prop where
  count : (next.groups jid).retryCount = (queue.groups jid).retryCount
  ready : (queue.groups jid).retryReady = true → (next.groups jid).retryReady = true
  pending : (queue.groups jid).pendingMessages = true →
    (next.groups jid).pendingMessages = true
  timers : jid ∈ queue.timerJids → jid ∈ next.timerJids
  messages : jid ∈ queue.messageJids → jid ∈ next.messageJids
  owned : jid ∈ queue.waitingGroups ∨ jid ∈ queue.runnerJids →
    jid ∈ next.waitingGroups ∨ jid ∈ next.runnerJids

namespace KeepsWake

theorem awaited (h : KeepsWake queue next jid) (ha : Awaited queue jid) : Awaited next jid := by
  rcases ha with ht | hm | ⟨hr, hp, ho⟩
  · exact Or.inl (h.timers ht)
  · exact Or.inr (Or.inl (h.messages hm))
  · exact Or.inr (Or.inr ⟨h.ready hr, h.pending hp, h.owned ho⟩)

theorem wakesAt (h : KeepsWake queue next jid) (hw : WakesAt queue jid) : WakesAt next jid := by
  intro hc
  rw [h.count] at hc
  exact h.awaited (hw hc)

theorem trans {last : Queue Fn} (h : KeepsWake queue next jid) (h' : KeepsWake next last jid) :
    KeepsWake queue last jid where
  count := h'.count.trans h.count
  ready := h'.ready ∘ h.ready
  pending := h'.pending ∘ h.pending
  timers := h'.timers ∘ h.timers
  messages := h'.messages ∘ h.messages
  owned := h'.owned ∘ h.owned

theorem frame (hg : next.groups = queue.groups) (ht : next.retryTasks = queue.retryTasks)
    (hr : next.runners = queue.runners)
    (hw : jid ∈ queue.waitingGroups → jid ∈ next.waitingGroups) : KeepsWake queue next jid where
  count := by rw [hg]
  ready := by rw [hg]; exact id
  pending := by rw [hg]; exact id
  timers := by rw [Queue.timerJids, Queue.timerJids, ht]; exact id
  messages := by rw [Queue.messageJids, Queue.messageJids, hr]; exact id
  owned := by
    rw [Queue.runnerJids, Queue.runnerJids, hr]
    exact Or.imp_left hw

theorem refl (queue : Queue Fn) : KeepsWake queue queue jid :=
  frame rfl rfl rfl id

-- A group keeps what it waits for through changes of the other groups.
theorem setGroup {other : Jid} {state : GroupState Fn}
    (hs : other = jid → state.retryCount = (queue.groups jid).retryCount ∧
      ((queue.groups jid).retryReady = true → state.retryReady = true) ∧
      ((queue.groups jid).pendingMessages = true → state.pendingMessages = true)) :
    KeepsWake queue (queue.setGroup other state) jid := by
  by_cases h : other = jid
  · subst h
    obtain ⟨hc, hr, hp⟩ := hs rfl
    constructor
    · simpa using hc
    · simpa using hr
    · simpa using hp
    all_goals exact id
  · have hg : (queue.setGroup other state).groups jid = queue.groups jid := by
      rw [Queue.setGroup_groups, if_neg (Ne.symm h)]
    constructor
    · rw [hg]
    · rw [hg]; exact id
    · rw [hg]; exact id
    all_goals exact id

theorem markPending (other : Jid) : KeepsWake queue
    (queue.setGroup other ((queue.groups other).markPending queue.clock)) jid :=
  setGroup fun he => by
    subst he
    exact ⟨rfl, id, fun _ => rfl⟩

theorem park (other : Jid) : KeepsWake queue (queue.park other) jid :=
  frame rfl rfl rfl fun h => List.mem_append_left _ h

theorem launch {other : Jid} {state : GroupState Fn} (job : Job Fn)
    (hs : other = jid → state.retryCount = (queue.groups jid).retryCount ∧
      ((queue.groups jid).retryReady = true → state.retryReady = true) ∧
      ((queue.groups jid).pendingMessages = true → state.pendingMessages = true)) :
    KeepsWake queue (queue.launch other state job) jid := by
  have hset : KeepsWake queue (queue.setGroup other state) jid := setGroup hs
  refine { hset with messages := ?_, owned := ?_ }
  · intro hm
    simp only [Queue.messageJids, Queue.launch_runners, List.filter_append, List.map_append,
      List.mem_append]
    exact Or.inl hm
  · refine Or.imp_right fun hr => ?_
    simp only [Queue.runnerJids, Queue.launch_runners, List.map_append, List.mem_append]
    exact Or.inl hr

theorem startMessages {other : Jid} (reason : String) (h : other ≠ jid) :
    KeepsWake queue (queue.startMessages other reason) jid :=
  launch _ fun he => absurd he h

theorem startTask (other : Jid) (task : QueuedTask Fn) :
    KeepsWake queue (queue.startTask other task) jid :=
  launch _ fun he => by
    subst he
    exact ⟨rfl, id, id⟩

-- A pending task that starts leaves the messages and the retry fields alone.
theorem startPending (queue : Queue Fn) (jid other : Jid) (task : QueuedTask Fn)
    (rest : List (QueuedTask Fn)) :
    KeepsWake queue ((queue.setGroup other ((queue.groups other).popTask task rest)).startTask
      other task) jid :=
  have hset : KeepsWake queue
      (queue.setGroup other ((queue.groups other).popTask task rest)) jid :=
    setGroup fun he => by
      subst he
      exact ⟨rfl, id, id⟩
  hset.trans (startTask other task)

end KeepsWake

namespace WakesAt

theorem startMessages (reason : String) : WakesAt (queue.startMessages jid reason) jid := by
  intro _
  refine Or.inr (Or.inl ?_)
  simp [Queue.messageJids, Queue.startMessages, Job.isMessages]

theorem enqueueMessageCheck (h : ∀ jid, WakesAt queue jid) (other : Jid) :
    WakesAt (queue.enqueueMessageCheck cfg jid false) other := by
  have hc := queue.enqueueMessageCheck_cases jid cfg false
  generalize queue.enqueueMessageCheck cfg jid false = next at hc ⊢
  cases hc with
  | stopped => exact h other
  | busy | backoff | listed | crowded => exact (KeepsWake.markPending jid).wakesAt (h other)
  | parked => exact ((KeepsWake.markPending jid).trans (.park jid)).wakesAt (h other)
  | started =>
      by_cases he : jid = other
      · subst he
        exact startMessages _
      · exact (KeepsWake.startMessages _ he).wakesAt (h other)

theorem enqueueTask (h : ∀ jid, WakesAt queue jid) {taskId : TaskId} {fn : Fn}
    (hkept : wakeupKept cfg queue (.enqueueTask jid taskId fn)) (other : Jid) :
    WakesAt (queue.enqueueTask cfg jid taskId fn) other := by
  have hpush : KeepsWake queue
      (queue.setGroup jid ((queue.groups jid).pushTask ⟨taskId, jid, fn⟩)) other :=
    .setGroup fun he => by
      subst he
      exact ⟨rfl, id, id⟩
  have hc := queue.enqueueTask_cases jid cfg taskId fn
  generalize queue.enqueueTask cfg jid taskId fn = next at hc ⊢
  cases hc with
  | ignored => exact h other
  | notified => exact (KeepsWake.frame rfl rfl rfl id).wakesAt (h other)
  | busy | listed => exact hpush.wakesAt (h other)
  | parked => exact (hpush.trans (.park jid)).wakesAt (h other)
  | started hs ha hf hnew hrun =>
      by_cases he : jid = other
      · subst he
        intro hc
        have hc : 0 < (queue.groups jid).retryCount := by simpa [Queue.startTask] using hc
        rcases hkept hs hrun hnew ha hf with hz | ht | hm
        · omega
        · exact Or.inl ht
        · refine Or.inr (Or.inl ?_)
          simp only [Queue.messageJids, Queue.startTask, Queue.launch_runners,
            Queue.setGroup_runners, List.filter_append, List.map_append, List.mem_append]
          exact Or.inl hm
      · have hset : KeepsWake queue
            (queue.setGroup jid { queue.groups jid with retryReady := false }) other :=
          .setGroup fun hj => absurd hj he
        exact (hset.trans (.startTask jid _)).wakesAt (h other)

-- A parked group that the loop passes over in backoff, or without pending messages,
-- was not relying on the waiting list.
theorem dispatchParked (h : ∀ jid, WakesAt queue jid) {rest : List Jid}
    (hl : queue.waitingGroups = jid :: rest) (other : Jid) :
    WakesAt ((queue.popWaiting jid rest).dispatchParked jid) other := by
  by_cases he : jid = other
  · subst he
    have hunparked (hnot : ¬((queue.groups jid).retryReady = true ∧
        (queue.groups jid).pendingMessages = true)) :
        WakesAt (queue.popWaiting jid rest) jid := by
      intro hc
      rcases h jid hc with ht | hm | ⟨hr, hp, _⟩
      · exact Or.inl ht
      · exact Or.inr (Or.inl hm)
      · exact absurd ⟨hr, hp⟩ hnot
    have hd := (queue.popWaiting jid rest).dispatchParked_cases jid
    generalize (queue.popWaiting jid rest).dispatchParked jid = next at hd ⊢
    cases hd with
    | task task pending ht =>
        have hk := KeepsWake.startPending queue jid jid task pending
        refine KeepsWake.wakesAt { hk with owned := fun _ => Or.inr ?_ } (h jid)
        simp [Queue.runnerJids, Queue.startTask]
    | messages => exact startMessages _
    | deferred _ _ hr =>
        refine hunparked fun hnot => ?_
        simp only [Queue.popWaiting, GroupState.retryPending, hnot.1, Bool.not_true,
          Bool.and_false, Bool.false_eq_true] at hr
    | idle _ hm =>
        refine hunparked fun hnot => ?_
        simp only [Queue.popWaiting, hnot.2, Bool.true_eq_false] at hm
  · have hpop : KeepsWake queue (queue.popWaiting jid rest) other :=
      .frame rfl rfl rfl fun ho => by
        rw [hl] at ho
        exact List.mem_of_ne_of_mem (Ne.symm he) ho
    have hd := (queue.popWaiting jid rest).dispatchParked_cases jid
    generalize (queue.popWaiting jid rest).dispatchParked jid = next at hd ⊢
    cases hd with
    | task => exact (hpop.trans (.startPending _ _ jid _ _)).wakesAt (h other)
    | messages =>
        refine (hpop.trans ?_).wakesAt (h other)
        exact KeepsWake.trans (.setGroup fun hj => absurd hj he) (.startMessages _ he)
    | deferred | idle => exact hpop.wakesAt (h other)

theorem drainWaiting (h : ∀ jid, WakesAt queue jid) :
    ∀ jid, WakesAt (queue.drainWaiting cfg) jid :=
  Queue.drainWaiting_invariant queue (fun queue => ∀ jid, WakesAt queue jid)
    (fun _ _ _ hq hl _ => dispatchParked hq hl) h

theorem runnerStart (h : ∀ jid, WakesAt queue jid) {runner : Runner Fn}
    (hr : runner ∈ queue.runners) (other : Jid) : WakesAt (queue.runnerStart runner) other := by
  unfold Queue.runnerStart
  split
  · next reason queuedAtMs hj =>
      by_cases he : runner.jid = other
      · subst he
        intro _
        exact Or.inr (Or.inl (List.mem_map_of_mem
          (List.mem_filter.mpr ⟨hr, by simp [hj, Job.isMessages]⟩)))
      · exact (KeepsWake.setGroup fun hj => absurd hj he).wakesAt (h other)
  · refine (KeepsWake.setGroup fun he => ?_).wakesAt (h other)
    subst he
    exact ⟨rfl, id, id⟩

end WakesAt

theorem KeepsWake.markRunning (id : Nat) : KeepsWake queue (queue.markRunning id) jid := by
  have hjids : (queue.markRunning id).messageJids = queue.messageJids := by
    simp only [Queue.messageJids, Queue.markRunning, List.filter_map, List.map_map]
    have hjob : (fun runner : Runner Fn => runner.job.isMessages) ∘ (fun runner =>
        if runner.id = id then { runner with phase := .running queue.clock } else runner) =
        fun runner => runner.job.isMessages := by
      funext runner
      simp only [Function.comp_apply]
      split_ifs <;> rfl
    rw [hjob]
    refine List.map_congr_left fun runner _ => ?_
    simp only [Function.comp_apply]
    split_ifs <;> rfl
  have hall : (queue.markRunning id).runnerJids = queue.runnerJids := queue.markRunning_jids id
  refine { KeepsWake.refl queue with messages := ?_, owned := ?_ }
  · rw [hjids]
    exact fun h => h
  · rw [hall]
    exact fun h => h

section Finish

variable {runner : Runner Fn} {outcome : Outcome}

theorem settle_retryTasks (queue : Queue Fn) (runner : Runner Fn) (outcome : Outcome) :
    queue.retryTasks <+: (queue.settle runner outcome).retryTasks := by
  unfold Queue.settle
  split
  · exact List.prefix_rfl
  · rw [Queue.scheduleRetry_retryTasks]
    exact List.prefix_append _ _
  · rw [Queue.scheduleRetry_retryTasks]
    exact List.prefix_append _ _
  · exact List.prefix_rfl
  · exact List.prefix_rfl

theorem freed_timerJids_eq : (queue.freed runner outcome).timerJids =
    ((queue.withoutRunner runner.id).settle runner outcome).timerJids := rfl

theorem freed_timerJids (h : jid ∈ queue.timerJids) :
    jid ∈ (queue.freed runner outcome).timerJids :=
  ((settle_retryTasks (queue.withoutRunner runner.id) runner outcome).sublist.map _).subset h

-- Every failure that leaves a positive count leaves a timer.
theorem scheduleRetry_timer (queue : Queue Fn) (jid : Jid)
    (hc : 0 < ((queue.scheduleRetry jid).groups jid).retryCount) :
    jid ∈ (queue.scheduleRetry jid).timerJids := by
  revert hc
  simp only [Queue.scheduleRetry]
  split_ifs
  · simp
  · simp [Queue.timerJids]

theorem freed_owned (hw : WellFormed cfg queue) (hr : runner ∈ queue.runners)
    (hne : jid ≠ runner.jid) : KeepsWake queue (queue.freed runner outcome) jid := by
  have hg := Queue.freed_groups_of_ne queue jid runner outcome hne
  constructor
  · rw [hg]
  · rw [hg]; exact id
  · rw [hg]; exact id
  · exact freed_timerJids
  · intro hm
    obtain ⟨other, ho, rfl⟩ := List.mem_map.mp hm
    obtain ⟨ho, hj⟩ := List.mem_filter.mp ho
    have hid : other.id ≠ runner.id := fun he =>
      hne (congrArg Runner.jid (List.inj_on_of_nodup_map hw.ids_nodup ho hr he))
    refine List.mem_map_of_mem (List.mem_filter.mpr ⟨?_, hj⟩)
    rw [Queue.freed_runners]
    exact List.mem_filter.mpr ⟨ho, by simpa using hid⟩
  · rw [Queue.freed_waitingGroups, freed_runnerJids]
    exact Or.imp_right (mem_withoutRunner hw hr hne)

-- What the freed group itself still waits for when _drain_group looks at it.
theorem freed_awaited (hw : WellFormed cfg queue) (hr : runner ∈ queue.runners)
    (ho : outcome ≠ .cancelled) (h : WakesAt queue runner.jid)
    (hc : 0 < ((queue.freed runner outcome).groups runner.jid).retryCount) :
    runner.jid ∈ (queue.freed runner outcome).timerJids ∨
      runner.jid ∈ (queue.freed runner outcome).messageJids ∨
      ((queue.freed runner outcome).groups runner.jid).retryReady = true ∧
        ((queue.freed runner outcome).groups runner.jid).pendingMessages = true := by
  rw [Queue.freed_groups_self, GroupState.released_retryCount] at hc
  cases hj : runner.job with
  | messages reason queuedAtMs =>
      cases outcome with
      | success => simp [hj, GroupState.settled] at hc
      | cancelled => exact absurd rfl ho
      | returnedFalse | raised =>
          refine Or.inl ?_
          have ht := scheduleRetry_timer (queue.withoutRunner runner.id) runner.jid (by
              rw [Queue.scheduleRetry_groups, Function.update_self]
              rwa [hj] at hc)
          simpa only [freed_timerJids_eq, Queue.settle, hj] using ht
  | task task =>
      simp only [hj, GroupState.settled] at hc
      rcases h hc with ht | hm | ⟨hready, hp, _⟩
      · exact Or.inl (freed_timerJids ht)
      · refine Or.inr (Or.inl ?_)
        obtain ⟨other, hm, he⟩ := List.mem_map.mp hm
        obtain ⟨hm, hmsg⟩ := List.mem_filter.mp hm
        have hid : other.id ≠ runner.id := by
          intro hid
          rw [List.inj_on_of_nodup_map hw.ids_nodup hm hr hid, hj] at hmsg
          cases hmsg
        refine List.mem_map.mpr ⟨other, List.mem_filter.mpr ⟨?_, hmsg⟩, he⟩
        rw [Queue.freed_runners]
        exact List.mem_filter.mpr ⟨hm, by simpa using hid⟩
      · refine Or.inr (Or.inr ?_)
        rw [Queue.freed_pendingMessages, Queue.freed_groups_self, GroupState.released_retryReady]
        exact ⟨by simpa [hj, GroupState.settled] using hready, hp⟩

theorem runnerFinish_wakes (hw : WellFormed cfg queue) (hr : runner ∈ queue.runners)
    (ho : outcome ≠ .cancelled) (h : ∀ jid, WakesAt queue jid) (other : Jid) :
    WakesAt ((queue.freed runner outcome).drainGroup cfg runner.jid) other ∨
      (queue.freed runner outcome).shuttingDown = true := by
  have hothers (jid : Jid) (hne : jid ≠ runner.jid) :
      WakesAt (queue.freed runner outcome) jid :=
    (freed_owned hw hr hne).wakesAt (h jid)
  have hself := freed_awaited hw hr ho (h runner.jid)
  generalize queue.freed runner outcome = freed at hothers hself ⊢
  have hd := freed.drainGroup_cases runner.jid cfg
  generalize freed.drainGroup cfg runner.jid = next at hd ⊢
  cases hd with
  | stopped hs => exact Or.inr hs
  | task _ task rest =>
      refine Or.inl ?_
      have hk := KeepsWake.startPending freed other runner.jid task rest
      by_cases he : other = runner.jid
      · subst he
        intro hc
        rw [hk.count] at hc
        rcases hself hc with ht | hm | ⟨hready, hp⟩
        · exact Or.inl (hk.timers ht)
        · exact Or.inr (Or.inl (hk.messages hm))
        · refine Or.inr (Or.inr ⟨hk.ready hready, hk.pending hp, Or.inr ?_⟩)
          simp [Queue.runnerJids, Queue.startTask]
      · exact hk.wakesAt (hothers other he)
  | messages =>
      refine Or.inl ?_
      by_cases he : other = runner.jid
      · subst he
        exact .startMessages _
      · exact (KeepsWake.startMessages _ (Ne.symm he)).wakesAt (hothers other he)
  | deferred _ _ _ hback =>
      refine Or.inl ?_
      by_cases he : other = runner.jid
      · subst he
        intro hc
        rcases hself hc with ht | hm | ⟨hready, _⟩
        · exact Or.inl ht
        · exact Or.inr (Or.inl hm)
        · simp [GroupState.retryPending, hready] at hback
      · exact hothers other he
  | waiting _ _ hm =>
      refine Or.inl (WakesAt.drainWaiting (fun jid => ?_) other)
      by_cases he : jid = runner.jid
      · subst he
        intro hc
        rcases hself hc with ht | hmsg | ⟨_, hp⟩
        · exact Or.inl ht
        · exact Or.inr (Or.inl hmsg)
        · rw [hm] at hp
          cases hp
      · exact hothers jid he

end Finish

section Timer

variable {timer : RetryTimer}

theorem KeepsWake.withoutTimer (hw : WellFormed cfg queue) (ht : timer ∈ queue.retryTasks)
    (hne : jid ≠ timer.jid) : KeepsWake queue (queue.withoutTimer timer.id) jid := by
  refine { KeepsWake.refl queue with timers := fun hm => ?_ }
  obtain ⟨other, ho, rfl⟩ := List.mem_map.mp hm
  have hid : other.id ≠ timer.id := fun he =>
    hne (congrArg RetryTimer.jid (List.inj_on_of_nodup_map hw.timers_nodup ho ht he))
  exact List.mem_map_of_mem (List.mem_filter.mpr ⟨ho, by simpa using hid⟩)

theorem retryFires_wakes (hw : WellFormed cfg queue) (hown : ActiveOwned queue)
    (h : ∀ jid, WakesAt queue jid) (hs : queue.shuttingDown = false)
    (ht : timer ∈ queue.retryTasks) (hkept : wakeupKept cfg queue (.retryFires timer.id))
    (other : Jid) : WakesAt ((queue.withoutTimer timer.id).retryFires cfg timer.jid) other := by
  let fired := (queue.withoutTimer timer.id).setGroup timer.jid
    { queue.groups timer.jid with retryReady := true }
  have hfires : (queue.withoutTimer timer.id).retryFires cfg timer.jid =
      fired.enqueueMessageCheck cfg timer.jid true := by
    rw [Queue.retryFires]
    exact if_neg (by rw [show (queue.withoutTimer timer.id).shuttingDown = false from hs]
                     exact Bool.false_ne_true)
  have hothers (hne : timer.jid ≠ other) : WakesAt fired other :=
    ((KeepsWake.withoutTimer hw ht (Ne.symm hne)).trans
      (.setGroup fun he => absurd he hne)).wakesAt (h other)
  have hready : (fired.groups timer.jid).retryReady = true := by
    simp only [fired, Queue.setGroup_groups_self]
  have hmarked (hparked : timer.jid ∈ queue.waitingGroups ∨ timer.jid ∈ queue.runnerJids) :
      Awaited (fired.setGroup timer.jid ((fired.groups timer.jid).markPending fired.clock))
        timer.jid := by
    refine Or.inr (Or.inr ⟨?_, ?_, hparked⟩)
    · simpa [GroupState.markPending] using hready
    · simp [GroupState.markPending]
  rw [hfires]
  have hc := fired.enqueueMessageCheck_cases timer.jid cfg true
  have hactive : (fired.groups timer.jid).active = (queue.groups timer.jid).active := by
    simp only [fired, Queue.setGroup_groups_self]
  generalize fired.enqueueMessageCheck cfg timer.jid true = next at hc ⊢
  by_cases he : timer.jid = other
  · subst he
    cases hc with
    | stopped hstop => exact absurd (hs.symm.trans hstop) Bool.false_ne_true
    | busy _ ha =>
        rw [hactive] at ha
        exact fun _ => hmarked (Or.inr (hown hs timer.jid ha))
    | backoff _ _ _ hf => cases hf
    | listed _ _ _ hset => exact fun _ => hmarked (Or.inl ((hw.mem_waitingSet _).mp hset))
    | parked =>
        intro _
        refine Or.inr (Or.inr ⟨?_, ?_, Or.inl (List.mem_append_right _ (List.mem_singleton_self _))⟩)
        · simpa [GroupState.markPending] using hready
        · simp [GroupState.markPending]
    | crowded _ ha hfull hset hl =>
        intro hcount
        rw [hactive] at ha
        have hcount : 0 < (queue.groups timer.jid).retryCount := by
          simpa [fired, GroupState.markPending] using hcount
        rcases hkept timer ht rfl hs ha hfull (fun hm => hset ((hw.mem_waitingSet _).mpr hm)) hl
          with hz | htimer | hrun
        · omega
        · exact Or.inl htimer
        · exact hmarked (Or.inr hrun)
    | started => exact .startMessages _
  · cases hc with
    | stopped => exact hothers he
    | busy | backoff | listed | crowded =>
        exact (KeepsWake.markPending timer.jid).wakesAt (hothers he)
    | parked =>
        exact ((KeepsWake.markPending timer.jid).trans (.park timer.jid)).wakesAt (hothers he)
    | started => exact (KeepsWake.startMessages _ he).wakesAt (hothers he)

end Timer

theorem Wakes.step (h : Wakes queue) (hw : WellFormed cfg queue) (hown : ActiveOwned queue)
    {event : Event Fn} (hkept : wakeupKept cfg queue event)
    (hstep : queue.step cfg event = some next) : Wakes next := by
  intro hnext
  have hs : queue.shuttingDown = false := by
    by_contra hq
    rw [shuttingDown_of_step hw hstep (by simpa using hq)] at hnext
    cases hnext
  have h := h hs
  cases Queue.step_cases hstep with
  | enqueueMessageCheck => exact WakesAt.enqueueMessageCheck h
  | enqueueTask => exact WakesAt.enqueueTask h hkept
  | start runner hr =>
      exact fun jid => (KeepsWake.markRunning runner.id).wakesAt (WakesAt.runnerStart h hr jid)
  | finish runner outcome hr _ hc =>
      have ho : outcome ≠ .cancelled := fun he => by
        rw [hc he] at hs
        cases hs
      refine fun jid => (runnerFinish_wakes hw hr ho h jid).resolve_right fun hq => ?_
      rw [Queue.freed_shuttingDown, hs] at hq
      cases hq
  | cancelCreated _ hq =>
      rw [hs] at hq
      cases hq
  | retryFires timer ht => exact retryFires_wakes hw hown h hs ht hkept
  | tick => exact fun jid => (KeepsWake.frame rfl rfl rfl id).wakesAt (h jid)
  | shutdownSync | shutdown => cases hnext

-- While every fired timer and every starting task meets the condition, no group that
-- failed is left without something that starts its messages again.
theorem neverDeaf_of_wakeupKept (events : List (Event Fn))
    (hkept : Along (Queue.step cfg) (wakeupKept cfg) {} events) :
    Always (Queue.step cfg) NeverDeaf {} events :=
  hkept.always
    (fun queue => WellFormed cfg queue ∧ ActiveOwned queue ∧ Wakes queue)
    (fun _ _ _ ⟨hw, ho, h⟩ hg hstep => ⟨hw.step hstep, ho.step hw hstep, h.step hw ho hg hstep⟩)
    (fun _ ⟨_, _, h⟩ => h.neverDeaf)
    ⟨.empty, .empty, by simp [Wakes, WakesAt]⟩

set_option maxRecDepth 4000 in
theorem failed_group_wakes_after_wait :
    Always (Queue.step ⟨1, by decide⟩) NeverDeaf ({} : Queue Unit)
      [.enqueueMessageCheck "b", .start 0, .finish 0 .returnedFalse, .enqueueMessageCheck "a",
        .start 2, .tick 5000, .retryFires 1, .finish 2 .success, .start 3] :=
  neverDeaf_of_wakeupKept _ (by decide)

set_option maxRecDepth 8000 in
-- "b" fails and is parked by its timer. A free slot lets its task start directly, which
-- clears retry_ready, and when the task ends nothing is left to start the messages.
theorem task_start_deafens_group :
    ¬ Always (Queue.step ⟨1, by decide⟩) NeverDeaf ({} : Queue Unit)
      [.enqueueMessageCheck "b", .start 0, .finish 0 .returnedFalse, .enqueueMessageCheck "a",
        .start 2, .tick 5000, .retryFires 1, .enqueueMessageCheck "a", .finish 2 .returnedFalse,
        .enqueueTask "b" "t" (), .start 4, .finish 4 .success] := by
  intro h
  have hb := h.imp fun _ hq => hq "b"
  revert hb
  decide

end EvoClaw.GroupQueue
