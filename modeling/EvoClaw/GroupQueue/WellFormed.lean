import EvoClaw.GroupQueue.Lemmas

namespace EvoClaw.GroupQueue

open EventSystem

variable {Fn : Type} {cfg : Config} {queue next : Queue Fn} {jid : Jid}

-- Facts about the bookkeeping that hold on every run, whatever the groups do.
structure WellFormed (cfg : Config) (queue : Queue Fn) : Prop where
  ids_nodup : (queue.runners.map Runner.id).Nodup
  ids_lt : ∀ runner ∈ queue.runners, runner.id < queue.nextId
  timers_nodup : (queue.retryTasks.map RetryTimer.id).Nodup
  timers_lt : ∀ timer ∈ queue.retryTasks, timer.id < queue.nextId
  waiting_nodup : queue.waitingGroups.Nodup
  mem_waitingSet : ∀ jid, jid ∈ queue.waitingSet ↔ jid ∈ queue.waitingGroups
  count_le : queue.activeCount ≤ cfg.MAX_CONCURRENT_CONTAINERS

namespace WellFormed

theorem empty : WellFormed cfg ({} : Queue Fn) where
  ids_nodup := List.nodup_nil
  ids_lt := by simp
  timers_nodup := List.nodup_nil
  timers_lt := by simp
  waiting_nodup := List.nodup_nil
  mem_waitingSet := by simp
  count_le := Int.natCast_nonneg _

theorem setGroup (h : WellFormed cfg queue) (state : GroupState Fn) :
    WellFormed cfg (queue.setGroup jid state) :=
  { h with }

theorem park (h : WellFormed cfg queue) (hnew : jid ∉ queue.waitingSet) :
    WellFormed cfg (queue.park jid) where
  ids_nodup := h.ids_nodup
  ids_lt := h.ids_lt
  timers_nodup := h.timers_nodup
  timers_lt := h.timers_lt
  waiting_nodup := by
    rw [h.mem_waitingSet] at hnew
    exact List.nodup_append.mpr ⟨h.waiting_nodup, List.nodup_singleton jid, by
      intro a ha b hb
      rw [List.mem_singleton.mp hb]
      rintro rfl
      exact hnew ha⟩
  mem_waitingSet := by
    intro other
    simp [h.mem_waitingSet, or_comm]
  count_le := h.count_le

theorem popWaiting (h : WellFormed cfg queue) {rest : List Jid}
    (hl : queue.waitingGroups = jid :: rest) : WellFormed cfg (queue.popWaiting jid rest) where
  ids_nodup := h.ids_nodup
  ids_lt := h.ids_lt
  timers_nodup := h.timers_nodup
  timers_lt := h.timers_lt
  waiting_nodup := (List.nodup_cons.mp (hl ▸ h.waiting_nodup)).2
  mem_waitingSet := by
    have hn := (List.nodup_cons.mp (hl ▸ h.waiting_nodup)).1
    intro other
    simp only [Queue.popWaiting, Finset.mem_erase, h.mem_waitingSet, hl, List.mem_cons]
    constructor
    · rintro ⟨hne, rfl | hm⟩
      · exact absurd rfl hne
      · exact hm
    · intro hm
      exact ⟨fun he => hn (he ▸ hm), Or.inr hm⟩
  count_le := h.count_le

theorem launch (h : WellFormed cfg queue) (hfull : queue.full cfg = false)
    (state : GroupState Fn) (job : Job Fn) : WellFormed cfg (queue.launch jid state job) where
  ids_nodup := by
    simp only [Queue.launch_runners, List.map_append, List.map_cons, List.map_nil]
    refine List.nodup_append.mpr ⟨h.ids_nodup, List.nodup_singleton _, ?_⟩
    intro a ha b hb
    obtain ⟨runner, hr, rfl⟩ := List.mem_map.mp ha
    rw [List.mem_singleton.mp hb]
    exact (h.ids_lt runner hr).ne
  ids_lt := by
    intro runner hr
    rcases List.mem_append.mp hr with hr | hr
    · exact (h.ids_lt runner hr).trans (Nat.lt_succ_self _)
    · rw [List.mem_singleton.mp hr]
      exact Nat.lt_succ_self _
  timers_nodup := h.timers_nodup
  timers_lt := fun timer ht => (h.timers_lt timer ht).trans (Nat.lt_succ_self _)
  waiting_nodup := h.waiting_nodup
  mem_waitingSet := h.mem_waitingSet
  count_le := by
    rw [Queue.full_eq_false] at hfull
    exact hfull

theorem startMessages (h : WellFormed cfg queue) (hfull : queue.full cfg = false)
    (reason : String) : WellFormed cfg (queue.startMessages jid reason) :=
  h.launch hfull _ _

theorem startTask (h : WellFormed cfg queue) (hfull : queue.full cfg = false)
    (task : QueuedTask Fn) : WellFormed cfg (queue.startTask jid task) :=
  h.launch hfull _ _

theorem enqueueMessageCheck (h : WellFormed cfg queue) (fromRetry : Bool) :
    WellFormed cfg (queue.enqueueMessageCheck cfg jid fromRetry) := by
  have hc := queue.enqueueMessageCheck_cases jid cfg fromRetry
  generalize queue.enqueueMessageCheck cfg jid fromRetry = next at hc ⊢
  cases hc with
  | stopped => exact h
  | busy | backoff | listed | crowded => exact h.setGroup _
  | parked _ _ _ hw => exact (h.setGroup _).park hw
  | started _ _ hf => exact h.startMessages hf _

theorem enqueueTask (h : WellFormed cfg queue) (taskId : TaskId) (fn : Fn) :
    WellFormed cfg (queue.enqueueTask cfg jid taskId fn) := by
  have hc := queue.enqueueTask_cases jid cfg taskId fn
  generalize queue.enqueueTask cfg jid taskId fn = next at hc ⊢
  cases hc with
  | ignored => exact h
  | notified => exact { h with }
  | busy | listed => exact h.setGroup _
  | parked _ _ _ _ hw => exact (h.setGroup _).park hw
  | started _ _ hf => exact (h.setGroup _).startTask hf _

theorem dispatchParked (h : WellFormed cfg queue) (hfull : queue.full cfg = false) :
    WellFormed cfg (queue.dispatchParked jid) := by
  have hd := queue.dispatchParked_cases jid
  generalize queue.dispatchParked jid = next at hd ⊢
  cases hd with
  | task => exact (h.setGroup _).startTask hfull _
  | messages => exact (h.setGroup _).startMessages hfull _
  | deferred | idle => exact h

theorem drainWaiting (h : WellFormed cfg queue) : WellFormed cfg (queue.drainWaiting cfg) :=
  Queue.drainWaiting_invariant queue (WellFormed cfg)
    (fun _ _ _ hq hl hf => (hq.popWaiting hl).dispatchParked hf) h

theorem drainGroup (h : WellFormed cfg queue) (hfull : queue.full cfg = false) :
    WellFormed cfg (queue.drainGroup cfg jid) := by
  have hd := queue.drainGroup_cases jid cfg
  generalize queue.drainGroup cfg jid = next at hd ⊢
  cases hd with
  | stopped | deferred => exact h
  | task => exact (h.setGroup _).startTask hfull _
  | messages => exact h.startMessages hfull _
  | waiting => exact h.drainWaiting

theorem scheduleRetry (h : WellFormed cfg queue) : WellFormed cfg (queue.scheduleRetry jid) := by
  simp only [Queue.scheduleRetry]
  split_ifs
  · exact { h with }
  · refine { h with ids_lt := ?_, timers_nodup := ?_, timers_lt := ?_ }
    · exact fun runner hr => (h.ids_lt runner hr).trans (Nat.lt_succ_self _)
    · simp only [List.map_append, List.map_cons, List.map_nil]
      refine List.nodup_append.mpr ⟨h.timers_nodup, List.nodup_singleton _, ?_⟩
      intro a ha b hb
      obtain ⟨timer, ht, rfl⟩ := List.mem_map.mp ha
      rw [List.mem_singleton.mp hb]
      exact (h.timers_lt timer ht).ne
    · intro timer ht
      rcases List.mem_append.mp ht with ht | ht
      · exact (h.timers_lt timer ht).trans (Nat.lt_succ_self _)
      · rw [List.mem_singleton.mp ht]
        exact Nat.lt_succ_self _

theorem settle (h : WellFormed cfg queue) (runner : Runner Fn) (outcome : Outcome) :
    WellFormed cfg (queue.settle runner outcome) := by
  unfold Queue.settle
  split
  · exact h.setGroup _
  · exact h.scheduleRetry
  · exact h.scheduleRetry
  · exact h
  · exact h

theorem release (h : WellFormed cfg queue) (runner : Runner Fn) :
    WellFormed cfg (queue.release runner) where
  ids_nodup := h.ids_nodup
  ids_lt := h.ids_lt
  timers_nodup := h.timers_nodup
  timers_lt := h.timers_lt
  waiting_nodup := h.waiting_nodup
  mem_waitingSet := h.mem_waitingSet
  count_le := by
    have hc := h.count_le
    change queue.activeCount - 1 ≤ _
    omega

-- The slot that the finally block gives back is free when _drain_group is called.
theorem release_not_full (h : WellFormed cfg queue) (runner : Runner Fn) :
    (queue.release runner).full cfg = false := by
  have hc := h.count_le
  rw [Queue.full_eq_false]
  change queue.activeCount - 1 < _
  omega

theorem withoutRunner (h : WellFormed cfg queue) (id : Nat) :
    WellFormed cfg (queue.withoutRunner id) where
  ids_nodup := h.ids_nodup.sublist (List.filter_sublist.map _)
  ids_lt := fun runner hr => h.ids_lt runner (List.mem_of_mem_filter hr)
  timers_nodup := h.timers_nodup
  timers_lt := h.timers_lt
  waiting_nodup := h.waiting_nodup
  mem_waitingSet := h.mem_waitingSet
  count_le := h.count_le

theorem withoutTimer (h : WellFormed cfg queue) (id : Nat) :
    WellFormed cfg (queue.withoutTimer id) where
  ids_nodup := h.ids_nodup
  ids_lt := h.ids_lt
  timers_nodup := h.timers_nodup.sublist (List.filter_sublist.map _)
  timers_lt := fun timer ht => h.timers_lt timer (List.mem_of_mem_filter ht)
  waiting_nodup := h.waiting_nodup
  mem_waitingSet := h.mem_waitingSet
  count_le := h.count_le

theorem markRunning (h : WellFormed cfg queue) (id : Nat) :
    WellFormed cfg (queue.markRunning id) where
  ids_nodup := by
    rw [Queue.markRunning_ids]
    exact h.ids_nodup
  ids_lt := by
    intro runner hr
    obtain ⟨old, ho, rfl⟩ := List.mem_map.mp hr
    have := h.ids_lt old ho
    split_ifs <;> exact this
  timers_nodup := h.timers_nodup
  timers_lt := h.timers_lt
  waiting_nodup := h.waiting_nodup
  mem_waitingSet := h.mem_waitingSet
  count_le := h.count_le

theorem runnerStart (h : WellFormed cfg queue) (runner : Runner Fn) :
    WellFormed cfg (queue.runnerStart runner) := by
  unfold Queue.runnerStart
  split <;> exact h.setGroup _

theorem retryFires (h : WellFormed cfg queue) : WellFormed cfg (queue.retryFires cfg jid) := by
  unfold Queue.retryFires
  split_ifs
  · exact h
  · exact (h.setGroup _).enqueueMessageCheck true

theorem step (h : WellFormed cfg queue) {event : Event Fn}
    (hstep : queue.step cfg event = some next) : WellFormed cfg next := by
  cases Queue.step_cases hstep with
  | enqueueMessageCheck => exact h.enqueueMessageCheck false
  | enqueueTask _ taskId fn => exact h.enqueueTask taskId fn
  | start runner => exact (h.runnerStart runner).markRunning _
  | finish runner outcome =>
      have hq := (h.withoutRunner runner.id).settle runner outcome
      exact (hq.release runner).drainGroup (hq.release_not_full runner)
  | cancelCreated runner => exact h.withoutRunner _
  | retryFires timer => exact (h.withoutTimer timer.id).retryFires
  | tick | shutdownSync => exact { h with }
  | shutdown => exact { h with timers_nodup := List.nodup_nil, timers_lt := by simp }

theorem of_run {events : List (Event Fn)} (hrun : run (Queue.step cfg) {} events = some queue) :
    WellFormed cfg queue :=
  run_invariant (WellFormed cfg) (fun _ _ _ h hstep => h.step hstep) empty hrun

end WellFormed

end EvoClaw.GroupQueue
