import EvoClaw.GroupQueue.WellFormed

namespace EvoClaw.GroupQueue

open EventSystem

variable {Fn : Type} {cfg : Config} {queue next : Queue Fn} {jid : Jid}

-- No slot is free while a group is parked.
def WorkConserving (cfg : Config) (queue : Queue Fn) : Prop :=
  queue.shuttingDown = false → queue.waitingGroups ≠ [] →
    (cfg.MAX_CONCURRENT_CONTAINERS : Int) ≤ queue.activeCount

instance : DecidablePred (WorkConserving cfg : Queue Fn → Prop) :=
  fun queue => inferInstanceAs (Decidable (queue.shuttingDown = false → _))

-- The group of an ending runner is in backoff when _drain_group looks at it. A
-- failure at the last retry resets the count, so it leaves no backoff.
def GroupState.backsOff (state : GroupState Fn) : Job Fn → Outcome → Prop
  | .messages _ _, .success => False
  | .messages _ _, .returnedFalse => state.retryCount < MAX_RETRIES ∧ state.retryReady = false
  | .messages _ _, .raised => state.retryCount < MAX_RETRIES ∧ state.retryReady = false
  | .messages _ _, .cancelled => 0 < state.retryCount ∧ state.retryReady = false
  | .task _, _ => 0 < state.retryCount ∧ state.retryReady = false

-- A runner whose group only has messages in backoff does not end while a group is parked.
def deferralSafe (queue : Queue Fn) : Event Fn → Prop
  | .finish id outcome => ∀ runner ∈ queue.runners, runner.id = id →
      queue.shuttingDown = false → queue.waitingGroups ≠ [] →
      ¬((queue.groups runner.jid).pendingTasks = [] ∧
        (queue.groups runner.jid).pendingMessages = true ∧
        (queue.groups runner.jid).backsOff runner.job outcome)
  | _ => True

theorem GroupState.retryPending_iff (state : GroupState Fn) : state.retryPending = true ↔
    0 < state.retryCount ∧ state.retryReady = false := by
  simp only [retryPending, Bool.and_eq_true, decide_eq_true_eq, Bool.not_eq_true']

theorem GroupState.failed_retryPending (state : GroupState Fn) : state.failed.retryPending = true ↔
    state.retryCount < MAX_RETRIES ∧ state.retryReady = false := by
  rw [retryPending_iff]
  unfold failed
  split_ifs with h
  · exact iff_of_false (fun hc => absurd hc.1 (lt_irrefl 0)) fun hc => absurd hc.1 (by omega)
  · exact and_congr_left fun _ => ⟨fun _ => by omega, fun _ => Nat.succ_pos _⟩

theorem GroupState.settled_retryPending (state : GroupState Fn) (job : Job Fn)
    (outcome : Outcome) :
    (state.settled job outcome).retryPending = true ↔ state.backsOff job outcome := by
  cases job with
  | task => exact state.retryPending_iff
  | messages =>
      cases outcome with
      | success => simp [settled, backsOff, retryPending_iff]
      | returnedFalse | raised => exact state.failed_retryPending
      | cancelled => exact state.retryPending_iff

theorem Queue.freed_retryPending (runner : Runner Fn) (outcome : Outcome) :
    ((queue.freed runner outcome).groups runner.jid).retryPending = true ↔
      (queue.groups runner.jid).backsOff runner.job outcome := by
  rw [← GroupState.settled_retryPending, freed_groups_self]
  simp only [GroupState.retryPending, GroupState.released_retryCount,
    GroupState.released_retryReady]

-- The loop of _drain_waiting stops at an empty list or at the limit.
theorem drainWaiting_waitingGroups (cfg : Config) (queue : Queue Fn) :
    (queue.drainWaiting cfg).waitingGroups = [] ∨
    (queue.drainWaiting cfg).full cfg = true := by
  unfold Queue.drainWaiting
  generalize hl : queue.waitingGroups = waiting
  induction waiting generalizing queue with
  | nil => exact Or.inl hl
  | cons jid rest ih =>
      unfold Queue.drainWaitingFrom
      cases hf : queue.full cfg with
      | true => exact Or.inr hf
      | false => exact ih _ (Queue.dispatchParked_waitingGroups _ jid)

namespace WorkConserving

theorem empty : WorkConserving cfg ({} : Queue Fn) :=
  fun _ h => absurd rfl h

theorem of_full (h : queue.full cfg = true) : WorkConserving cfg queue :=
  fun _ _ => by simpa [Queue.full] using h

theorem mono (h : WorkConserving cfg queue) (hs : next.shuttingDown = queue.shuttingDown)
    (hl : next.waitingGroups = queue.waitingGroups)
    (hc : queue.activeCount ≤ next.activeCount) : WorkConserving cfg next := by
  intro hd hn
  rw [hs] at hd
  rw [hl] at hn
  exact (h hd hn).trans hc

theorem drainWaiting (queue : Queue Fn) : WorkConserving cfg (queue.drainWaiting cfg) := by
  rcases drainWaiting_waitingGroups cfg queue with hl | hf
  · exact fun _ hn => absurd hl hn
  · exact of_full hf

theorem enqueueMessageCheck (h : WorkConserving cfg queue) (fromRetry : Bool) :
    WorkConserving cfg (queue.enqueueMessageCheck cfg jid fromRetry) := by
  have hc := queue.enqueueMessageCheck_cases jid cfg fromRetry
  generalize queue.enqueueMessageCheck cfg jid fromRetry = next at hc ⊢
  cases hc with
  | stopped => exact h
  | busy | backoff | listed | crowded => exact h.mono rfl rfl le_rfl
  | parked _ _ hf => exact of_full hf
  | started => exact h.mono rfl rfl (Int.le_add_one le_rfl)

theorem enqueueTask (h : WorkConserving cfg queue) (taskId : TaskId) (fn : Fn) :
    WorkConserving cfg (queue.enqueueTask cfg jid taskId fn) := by
  have hc := queue.enqueueTask_cases jid cfg taskId fn
  generalize queue.enqueueTask cfg jid taskId fn = next at hc ⊢
  cases hc with
  | ignored => exact h
  | notified | busy | listed => exact h.mono rfl rfl le_rfl
  | parked _ _ hf => exact of_full hf
  | started => exact h.mono rfl rfl (Int.le_add_one le_rfl)

theorem runnerStart (h : WorkConserving cfg queue) (runner : Runner Fn) :
    WorkConserving cfg (queue.runnerStart runner) := by
  unfold Queue.runnerStart
  split
  · exact h.mono rfl rfl le_rfl
  · exact h.mono rfl rfl le_rfl

theorem retryFires (h : WorkConserving cfg queue) :
    WorkConserving cfg (queue.retryFires cfg jid) := by
  unfold Queue.retryFires
  split_ifs
  · exact h
  · have hset : WorkConserving cfg
        (queue.setGroup jid { queue.groups jid with retryReady := true }) := h.mono rfl rfl le_rfl
    exact hset.enqueueMessageCheck true

-- The slot of an ending runner goes to its own group or to the parked ones, except
-- in the branch that leaves the messages to the backoff timer.
theorem finish (h : WorkConserving cfg queue) (runner : Runner Fn) (outcome : Outcome)
    (hsafe : queue.shuttingDown = false → queue.waitingGroups ≠ [] →
      ¬((queue.groups runner.jid).pendingTasks = [] ∧
        (queue.groups runner.jid).pendingMessages = true ∧
        (queue.groups runner.jid).backsOff runner.job outcome)) :
    WorkConserving cfg ((queue.freed runner outcome).drainGroup cfg runner.jid) := by
  have hback : ∀ next : Queue Fn, next.shuttingDown = (queue.freed runner outcome).shuttingDown →
      next.waitingGroups = (queue.freed runner outcome).waitingGroups →
      next.activeCount = (queue.freed runner outcome).activeCount + 1 →
      WorkConserving cfg next := by
    intro next hs hl hc
    refine h.mono (hs.trans (queue.freed_shuttingDown runner outcome))
      (hl.trans (queue.freed_waitingGroups runner outcome)) ?_
    rw [hc, Queue.freed_activeCount]
    omega
  have hd := (queue.freed runner outcome).drainGroup_cases runner.jid cfg
  generalize (queue.freed runner outcome).drainGroup cfg runner.jid = next at hd ⊢
  cases hd with
  | stopped hs => exact fun hd => by rw [hs] at hd; cases hd
  | task | messages => exact hback _ rfl rfl rfl
  | deferred hs ht hm hr =>
      intro _ hn
      rw [Queue.freed_waitingGroups] at hn
      rw [Queue.freed_shuttingDown] at hs
      rw [Queue.freed_pendingTasks] at ht
      rw [Queue.freed_pendingMessages] at hm
      exact absurd ⟨ht, hm, (Queue.freed_retryPending runner outcome).mp hr⟩ (hsafe hs hn)
  | waiting => exact drainWaiting _

theorem step (h : WorkConserving cfg queue) {event : Event Fn}
    (hsafe : deferralSafe queue event) (hstep : queue.step cfg event = some next) :
    WorkConserving cfg next := by
  cases Queue.step_cases hstep with
  | enqueueMessageCheck => exact h.enqueueMessageCheck false
  | enqueueTask _ taskId fn => exact h.enqueueTask taskId fn
  | start runner => exact (h.runnerStart runner).mono rfl rfl le_rfl
  | finish runner outcome hr => exact h.finish runner outcome (hsafe runner hr rfl)
  | cancelCreated => exact h.mono rfl rfl le_rfl
  | retryFires timer =>
      have ht : WorkConserving cfg (queue.withoutTimer timer.id) := h.mono rfl rfl le_rfl
      exact ht.retryFires
  | tick => exact h.mono rfl rfl le_rfl
  | shutdownSync | shutdown => exact fun hd => by cases hd

end WorkConserving

-- The deferral itself leaves the freed slot unused: the limit was never exceeded.
theorem deferralSafe_of_step (hw : WellFormed cfg queue) {event : Event Fn}
    (hstep : queue.step cfg event = some next) (hnext : WorkConserving cfg next) :
    deferralSafe queue event := by
  cases Queue.step_cases hstep with
  | finish runner outcome hr =>
      rintro other ho hid hs hn ⟨ht, hm, hb⟩
      have he : other = runner := List.inj_on_of_nodup_map hw.ids_nodup ho hr hid
      subst he
      rw [← Queue.freed_retryPending] at hb
      rw [Queue.runnerFinish_eq, Queue.drainGroup] at hnext
      simp only [Queue.freed_shuttingDown, hs, Queue.freed_pendingTasks, ht,
        Queue.freed_pendingMessages, hm, hb, Bool.false_eq_true, if_false, if_true] at hnext
      have hle := hnext ((Queue.freed_shuttingDown ..).trans hs)
        (by rwa [Queue.freed_waitingGroups])
      have hcount := hw.count_le
      rw [Queue.freed_activeCount] at hle
      omega
  | _ => trivial

-- A slot stays free beside a parked group in some state of a run exactly when a
-- runner ends whose group only has messages in backoff.
theorem workConserving_iff_deferralSafe (events : List (Event Fn)) :
    Always (Queue.step cfg) (WorkConserving cfg) {} events ↔
      Along (Queue.step cfg) deferralSafe {} events :=
  always_iff_along (fun queue => WellFormed cfg queue ∧ WorkConserving cfg queue)
    (fun _ _ _ h hg hstep => ⟨h.1.step hstep, h.2.step hg hstep⟩)
    (fun _ h => h.2)
    (fun _ _ _ h hstep hnext => deferralSafe_of_step h.1 hstep hnext)
    ⟨.empty, .empty⟩

set_option maxRecDepth 4000 in
-- "a" fails with another message pending, and "b" stays parked beside the free slot.
theorem failed_group_keeps_slot :
    ¬ Always (Queue.step ⟨1, by decide⟩) (WorkConserving ⟨1, by decide⟩) ({} : Queue Unit)
      [.enqueueMessageCheck "a", .start 0, .enqueueMessageCheck "a", .enqueueMessageCheck "b",
        .finish 0 .returnedFalse] := by
  decide

end EvoClaw.GroupQueue
