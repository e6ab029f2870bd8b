import EvoClaw.GroupQueue.WellFormed

namespace EvoClaw.GroupQueue

variable {Fn : Type} {P : Fn → Prop} {cfg : Config} {queue next : Queue Fn} {jid : Jid}
  {state : GroupState Fn} {runner other : Runner Fn} {task : QueuedTask Fn}

-- Every task that has not begun has a function with P, in its group or in a new runner.
structure Carries (P : Fn → Prop) (queue : Queue Fn) : Prop where
  pending : ∀ jid, ∀ task ∈ (queue.groups jid).pendingTasks, P task.fn
  created : ∀ runner ∈ queue.runners, runner.phase = .created →
    ∀ task, runner.job = .task task → P task.fn

namespace Carries

theorem empty : Carries P ({} : Queue Fn) where
  pending := by simp
  created := by simp

theorem frame (h : Carries P queue) (hg : next.groups = queue.groups)
    (hr : ∀ runner ∈ next.runners, runner ∈ queue.runners) : Carries P next where
  pending := by rw [hg]; exact h.pending
  created := fun runner hrunner => h.created runner (hr runner hrunner)

theorem mono {Q : Fn → Prop} (h : Carries P queue) (hPQ : ∀ fn, P fn → Q fn) :
    Carries Q queue where
  pending := fun jid task htask => hPQ _ (h.pending jid task htask)
  created := fun runner hr hp task hjob => hPQ _ (h.created runner hr hp task hjob)

theorem setGroup (h : Carries P queue) (hstate : ∀ task ∈ state.pendingTasks, P task.fn) :
    Carries P (queue.setGroup jid state) where
  pending := by
    intro other task htask
    rw [Queue.setGroup_groups] at htask
    split_ifs at htask
    · exact hstate task htask
    · exact h.pending other task htask
  created := h.created

theorem launch (h : Carries P queue) {job : Job Fn}
    (hstate : ∀ task ∈ state.pendingTasks, P task.fn)
    (hjob : ∀ task, job = .task task → P task.fn) : Carries P (queue.launch jid state job) where
  pending := (h.setGroup hstate).pending
  created := by
    intro runner hrunner hp task htask
    rw [Queue.launch_runners] at hrunner
    rcases List.mem_append.mp hrunner with hold | hnew
    · exact h.created runner hold hp task htask
    · rw [List.mem_singleton.mp hnew] at htask
      exact hjob task htask

theorem startMessages (h : Carries P queue) (reason : String) :
    Carries P (queue.startMessages jid reason) :=
  h.launch (h.pending jid) (by simp)

theorem startTask (h : Carries P queue) (htask : P task.fn) :
    Carries P (queue.startTask jid task) := by
  refine h.launch (h.pending jid) fun started hstarted => ?_
  cases hstarted
  exact htask

-- The first pending task of a group leaves the list for a runner.
theorem startPending {rest : List (QueuedTask Fn)} (h : Carries P queue)
    (ht : (queue.groups jid).pendingTasks = task :: rest) :
    Carries P ((queue.setGroup jid ((queue.groups jid).popTask task rest)).startTask jid task) := by
  have hall : ∀ waiting ∈ task :: rest, P waiting.fn := fun waiting hw =>
    h.pending jid waiting (ht ▸ hw)
  exact (h.setGroup fun waiting hw => hall waiting (List.mem_cons_of_mem _ hw)).startTask
    (hall task List.mem_cons_self)

theorem pushTask (h : Carries P queue) (htask : P task.fn) :
    Carries P (queue.setGroup jid ((queue.groups jid).pushTask task)) := by
  refine h.setGroup fun waiting hw => ?_
  rcases List.mem_append.mp hw with hold | hnew
  · exact h.pending jid waiting hold
  · rw [List.mem_singleton.mp hnew]
    exact htask

theorem enqueueMessageCheck (h : Carries P queue) (fromRetry : Bool) :
    Carries P (queue.enqueueMessageCheck cfg jid fromRetry) := by
  have hmarked : Carries P
      (queue.setGroup jid ((queue.groups jid).markPending queue.clock)) :=
    h.setGroup (h.pending jid)
  have hc := queue.enqueueMessageCheck_cases jid cfg fromRetry
  generalize queue.enqueueMessageCheck cfg jid fromRetry = next at hc
  cases hc with
  | stopped => exact h
  | busy | backoff | listed | crowded => exact hmarked
  | parked => exact hmarked.frame rfl fun _ hr => hr
  | started => exact h.startMessages _

theorem enqueueTask (h : Carries P queue) (taskId : TaskId) {fn : Fn} (hfn : P fn) :
    Carries P (queue.enqueueTask cfg jid taskId fn) := by
  have hc := queue.enqueueTask_cases jid cfg taskId fn
  generalize queue.enqueueTask cfg jid taskId fn = next at hc
  cases hc with
  | ignored => exact h
  | notified => exact h.frame rfl fun _ hr => hr
  | busy | listed => exact h.pushTask hfn
  | parked => exact (h.pushTask hfn).frame rfl fun _ hr => hr
  | started =>
      refine startTask ?_ hfn
      exact h.setGroup (h.pending jid)

theorem dispatchParked (h : Carries P queue) : Carries P (queue.dispatchParked jid) := by
  have hd := queue.dispatchParked_cases jid
  generalize queue.dispatchParked jid = next at hd
  cases hd with
  | task task rest ht => exact h.startPending ht
  | messages =>
      apply startMessages
      exact h.setGroup (h.pending jid)
  | deferred | idle => exact h

theorem drainGroup (h : Carries P queue) : Carries P (queue.drainGroup cfg jid) := by
  have hd := queue.drainGroup_cases jid cfg
  generalize queue.drainGroup cfg jid = next at hd
  cases hd with
  | stopped | deferred => exact h
  | task _ task rest ht => exact h.startPending ht
  | messages => exact h.startMessages _
  | waiting =>
      refine queue.drainWaiting_invariant (Carries P) (fun queue next rest h _ _ => ?_) h
      exact dispatchParked (h.frame rfl fun _ hr => hr)

theorem freed (h : Carries P queue) (runner : Runner Fn) (outcome : Outcome) :
    Carries P (queue.freed runner outcome) where
  pending := by
    intro jid task htask
    rw [Queue.freed_pendingTasks] at htask
    exact h.pending jid task htask
  created := by
    intro other ho
    rw [Queue.freed_runners] at ho
    exact h.created other (List.mem_of_mem_filter ho)

theorem markRunning (h : Carries P queue) (id : Nat) : Carries P (queue.markRunning id) where
  pending := h.pending
  created := by
    intro runner hr hp
    obtain ⟨old, ho, rfl⟩ := List.mem_map.mp hr
    split_ifs at hp ⊢
    exact h.created old ho hp

theorem runnerStart (h : Carries P queue) (runner : Runner Fn) :
    Carries P (queue.runnerStart runner) := by
  unfold Queue.runnerStart
  split <;> exact h.setGroup (h.pending _)

theorem retryFires (h : Carries P queue) : Carries P (queue.retryFires cfg jid) := by
  unfold Queue.retryFires
  split_ifs
  · exact h
  · apply enqueueMessageCheck
    exact h.setGroup (h.pending jid)

theorem step (h : Carries P queue) {event : Event Fn}
    (hnew : ∀ jid taskId fn, event = .enqueueTask jid taskId fn → P fn)
    (hstep : queue.step cfg event = some next) : Carries P next := by
  cases Queue.step_cases hstep with
  | enqueueMessageCheck => exact h.enqueueMessageCheck false
  | enqueueTask jid taskId fn => exact h.enqueueTask taskId (hnew jid taskId fn rfl)
  | start runner => exact (h.runnerStart runner).markRunning _
  | finish runner outcome => exact (h.freed runner outcome).drainGroup
  | cancelCreated runner => exact h.frame rfl fun _ hr => List.mem_of_mem_filter hr
  | retryFires timer =>
      apply retryFires
      exact h.frame rfl fun _ hr => hr
  | tick | shutdownSync | shutdown => exact h.frame rfl fun _ hr => hr

end Carries

-- The runners that have begun.
def Queue.underWay (queue : Queue Fn) : List (Runner Fn) :=
  queue.runners.filter (·.phase ≠ .created)

-- No time passes and no runner begins or ends.
structure Between (queue next : Queue Fn) : Prop where
  clock : next.clock = queue.clock
  underWay : next.underWay = queue.underWay

theorem runnerStart_clock (runner : Runner Fn) :
    (queue.runnerStart runner).clock = queue.clock := by
  unfold Queue.runnerStart
  split <;> rfl

theorem runnerStart_runners (runner : Runner Fn) :
    (queue.runnerStart runner).runners = queue.runners := by
  unfold Queue.runnerStart
  split <;> rfl

namespace Between

theorem frame (hc : next.clock = queue.clock) (hr : next.runners = queue.runners) :
    Between queue next :=
  ⟨hc, by rw [Queue.underWay, hr, Queue.underWay]⟩

theorem refl (queue : Queue Fn) : Between queue queue :=
  ⟨rfl, rfl⟩

theorem trans {last : Queue Fn} (h : Between queue next) (h' : Between next last) :
    Between queue last :=
  ⟨h'.clock.trans h.clock, h'.underWay.trans h.underWay⟩

theorem launch {job : Job Fn} (h : Between queue next) :
    Between queue (next.launch jid state job) where
  clock := h.clock
  underWay := by
    rw [← h.underWay]
    simp [Queue.underWay]

theorem enqueueMessageCheck (fromRetry : Bool) :
    Between queue (queue.enqueueMessageCheck cfg jid fromRetry) := by
  have hc := queue.enqueueMessageCheck_cases jid cfg fromRetry
  generalize queue.enqueueMessageCheck cfg jid fromRetry = next at hc
  cases hc with
  | stopped | busy | backoff | listed | crowded | parked => exact frame rfl rfl
  | started => exact launch (refl queue)

theorem enqueueTask (taskId : TaskId) (fn : Fn) :
    Between queue (queue.enqueueTask cfg jid taskId fn) := by
  have hc := queue.enqueueTask_cases jid cfg taskId fn
  generalize queue.enqueueTask cfg jid taskId fn = next at hc
  cases hc with
  | ignored | notified | busy | listed | parked => exact frame rfl rfl
  | started => exact launch (frame rfl rfl)

theorem dispatchParked : Between queue (queue.dispatchParked jid) := by
  have hd := queue.dispatchParked_cases jid
  generalize queue.dispatchParked jid = next at hd
  cases hd with
  | task | messages => exact launch (frame rfl rfl)
  | deferred | idle => exact refl queue

theorem drainGroup : Between queue (queue.drainGroup cfg jid) := by
  have hd := queue.drainGroup_cases jid cfg
  generalize queue.drainGroup cfg jid = next at hd
  cases hd with
  | stopped | deferred => exact refl queue
  | task => exact launch (frame rfl rfl)
  | messages => exact launch (refl queue)
  | waiting =>
      refine queue.drainWaiting_invariant (Between queue) (fun _ _ _ h _ _ => ?_) (refl queue)
      refine trans ?_ dispatchParked
      exact h.trans (frame rfl rfl)

theorem retryFires : Between queue (queue.retryFires cfg jid) := by
  unfold Queue.retryFires
  split_ifs
  · exact refl queue
  · refine trans ?_ (enqueueMessageCheck true)
    exact frame rfl rfl

theorem runnerStart : Between queue (queue.runnerStart runner) :=
  frame (runnerStart_clock runner) (runnerStart_runners runner)

end Between

theorem mem_underWay : runner ∈ queue.underWay ↔
    runner ∈ queue.runners ∧ runner.phase ≠ .created := by
  rw [Queue.underWay, List.mem_filter, decide_eq_true_eq]

theorem freed_clock (runner : Runner Fn) (outcome : Outcome) :
    (queue.freed runner outcome).clock = queue.clock := by
  simp only [Queue.freed, Queue.release, Queue.settle]
  split
  · rfl
  · simp only [Queue.scheduleRetry]
    split_ifs <;> rfl
  · simp only [Queue.scheduleRetry]
    split_ifs <;> rfl
  · rfl
  · rfl

theorem clock_le_of_step {event : Event Fn} (hstep : queue.step cfg event = some next) :
    queue.clock ≤ next.clock := by
  cases Queue.step_cases hstep with
  | enqueueMessageCheck => exact (Between.enqueueMessageCheck false).clock.ge
  | enqueueTask jid taskId fn => exact (Between.enqueueTask taskId fn).clock.ge
  | start runner => exact Between.runnerStart.clock.ge
  | finish runner outcome =>
      rw [Queue.runnerFinish_eq, Between.drainGroup.clock, freed_clock]
  | retryFires timer =>
      rw [Between.retryFires.clock]
      rfl
  | tick ms => exact Nat.le_add_right _ _
  | cancelCreated | shutdownSync | shutdown => exact le_rfl

-- A runner is under way from its start, the only step that adds one, to its finish.
theorem mem_underWay_of_step (hw : WellFormed cfg queue) {event : Event Fn}
    (hstep : queue.step cfg event = some next) (hr : runner ∈ next.underWay) :
    (runner ∈ queue.underWay ∧ ∀ outcome, event ≠ .finish runner.id outcome) ∨
      ∃ created ∈ queue.runners, created.phase = .created ∧ event = .start created.id ∧
        runner = { created with phase := .running queue.clock } := by
  cases Queue.step_cases hstep with
  | enqueueMessageCheck =>
      rw [(Between.enqueueMessageCheck false).underWay] at hr
      exact Or.inl ⟨hr, by simp⟩
  | enqueueTask jid taskId fn =>
      rw [(Between.enqueueTask taskId fn).underWay] at hr
      exact Or.inl ⟨hr, by simp⟩
  | start created hc hp =>
      obtain ⟨hmem, hphase⟩ := mem_underWay.mp hr
      obtain ⟨old, hold, rfl⟩ := List.mem_map.mp hmem
      rw [runnerStart_runners] at hold
      by_cases hid : old.id = created.id
      · have he : old = created := List.inj_on_of_nodup_map hw.ids_nodup hold hc hid
        subst he
        exact Or.inr ⟨old, hc, hp, rfl, by rw [if_pos rfl, runnerStart_clock]⟩
      · rw [if_neg hid] at hphase ⊢
        exact Or.inl ⟨mem_underWay.mpr ⟨hold, hphase⟩, by simp⟩
  | finish finished outcome hf hp hc =>
      rw [Queue.runnerFinish_eq, Between.drainGroup.underWay, mem_underWay,
        Queue.freed_runners, List.mem_filter, decide_eq_true_eq] at hr
      refine Or.inl ⟨mem_underWay.mpr ⟨hr.1.1, hr.2⟩, fun other he => hr.1.2 ?_⟩
      injection he.symm
  | cancelCreated created =>
      obtain ⟨hmem, hphase⟩ := mem_underWay.mp hr
      exact Or.inl ⟨mem_underWay.mpr ⟨List.mem_of_mem_filter hmem, hphase⟩, by simp⟩
  | retryFires timer =>
      rw [Between.retryFires.underWay] at hr
      exact Or.inl ⟨hr, by simp⟩
  | tick | shutdownSync | shutdown => exact Or.inl ⟨hr, by simp⟩

theorem mem_underWay_of_start (hw : WellFormed cfg queue) {id : Nat}
    (hstep : queue.step cfg (.start id) = some next) :
    ∃ created ∈ queue.runners, created.id = id ∧ ∀ runner ∈ next.underWay,
      runner ∈ queue.underWay ∨ runner = { created with phase := .running queue.clock } := by
  obtain ⟨created, hc, hcid⟩ : ∃ created ∈ queue.runners, created.id = id := by
    cases Queue.step_cases hstep with
    | start created hc hp => exact ⟨created, hc, rfl⟩
  refine ⟨created, hc, hcid, fun runner hr => ?_⟩
  rcases mem_underWay_of_step hw hstep hr with hold | ⟨other, ho, -, hevent, hrunner⟩
  · exact Or.inl hold.1
  · have hid : other.id = created.id := by
      injection hevent with hid
      rw [hcid, hid]
    have he : other = created := List.inj_on_of_nodup_map hw.ids_nodup ho hc hid
    exact Or.inr (he ▸ hrunner)

end EvoClaw.GroupQueue
