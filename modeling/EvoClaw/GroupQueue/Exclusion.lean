import EvoClaw.GroupQueue.Runners

namespace EvoClaw.GroupQueue

open EventSystem

variable {Fn : Type} {cfg : Config} {queue next : Queue Fn} {jid : Jid} {jids : List Jid}

-- No group owns two unfinished runners.
def MutualExclusion (queue : Queue Fn) : Prop :=
  queue.runnerJids.Nodup

instance : DecidablePred (MutualExclusion : Queue Fn → Prop) :=
  fun queue => inferInstanceAs (Decidable queue.runnerJids.Nodup)

-- Leaving a group with no work of its own, a runner frees one more slot. None of the
-- parked groups that the slots then go to may own a runner already.
def handoffSafe (cfg : Config) (queue : Queue Fn) : Event Fn → Prop
  | .finish id _ => ∀ runner ∈ queue.runners, runner.id = id → queue.shuttingDown = false →
      (queue.groups runner.jid).pendingTasks = [] →
      (queue.groups runner.jid).pendingMessages = false →
      ∀ jid ∈ queue.handoff (cfg.MAX_CONCURRENT_CONTAINERS - queue.activeCount + 1).toNat,
        (queue.groups jid).active = false
  | _ => True

structure Exclusive (queue : Queue Fn) : Prop where
  nodup : MutualExclusion queue
  active_of_mem : ∀ jid ∈ queue.runnerJids, (queue.groups jid).active = true

namespace Exclusive

theorem empty : Exclusive ({} : Queue Fn) where
  nodup := List.nodup_nil
  active_of_mem := by simp [Queue.runnerJids]

theorem starts (h : Exclusive queue) (hs : StartsRunners queue jids next) (hn : jids.Nodup)
    (hfree : ∀ jid ∈ jids, (queue.groups jid).active = false) : Exclusive next where
  nodup := by
    unfold MutualExclusion
    rw [hs.runnerJids]
    refine List.nodup_append.mpr ⟨h.nodup, hn, ?_⟩
    rintro jid hm _ hj rfl
    have hactive := h.active_of_mem jid hm
    rw [hfree jid hj] at hactive
    cases hactive
  active_of_mem := by
    intro jid hm
    rw [hs.runnerJids, List.mem_append] at hm
    rw [hs.active]
    exact hm.imp_left (h.active_of_mem jid)

theorem startsIdle (h : Exclusive queue) (hs : StartsIdle queue next) : Exclusive next := by
  obtain ⟨jids, hn, hfree, hs⟩ := hs
  exact h.starts hs hn hfree

theorem frame (h : Exclusive queue) (hr : next.runnerJids = queue.runnerJids)
    (hg : next.groups = queue.groups) : Exclusive next where
  nodup := by
    unfold MutualExclusion
    rw [hr]
    exact h.nodup
  active_of_mem := by
    rw [hr, hg]
    exact h.active_of_mem

theorem withoutRunner (h : Exclusive queue) (id : Nat) : Exclusive (queue.withoutRunner id) where
  nodup := List.Nodup.sublist (withoutRunner_sublist id) h.nodup
  active_of_mem := fun jid hm => h.active_of_mem jid ((withoutRunner_sublist id).subset hm)

-- The runner that ends was its group's only one.
theorem not_mem_withoutRunner (h : Exclusive queue) {runner : Runner Fn}
    (hr : runner ∈ queue.runners) :
    runner.jid ∉ (queue.withoutRunner runner.id).runnerJids := by
  intro hm
  obtain ⟨other, ho, hj⟩ := List.mem_map.mp hm
  obtain ⟨ho, hne⟩ := List.mem_filter.mp ho
  have he : other = runner := List.inj_on_of_nodup_map h.nodup ho hr hj
  simp [he] at hne

theorem freed (h : Exclusive queue) {runner : Runner Fn} (hr : runner ∈ queue.runners)
    (outcome : Outcome) : Exclusive (queue.freed runner outcome) where
  nodup := by
    unfold MutualExclusion
    rw [freed_runnerJids]
    exact h.nodup.sublist (withoutRunner_sublist _)
  active_of_mem := by
    intro jid hm
    rw [freed_runnerJids] at hm
    have hne : jid ≠ runner.jid := by
      rintro rfl
      exact h.not_mem_withoutRunner hr hm
    rw [Queue.freed_groups_of_ne queue jid runner outcome hne]
    exact h.active_of_mem jid ((withoutRunner_sublist _).subset hm)

end Exclusive

-- A group that already owns a runner gets a second one as soon as a slot goes to it.
theorem idle_of_starts (h : ActiveOwned queue) (hd : queue.shuttingDown = false)
    (hs : StartsRunners queue jids next) (hnext : MutualExclusion next) :
    ∀ jid ∈ jids, (queue.groups jid).active = false := by
  intro jid hj
  by_contra ha
  unfold MutualExclusion at hnext
  rw [hs.runnerJids] at hnext
  have hm := h hd jid (by simpa using ha)
  exact (List.nodup_append.mp hnext).2.2 jid hm jid hj rfl

-- The freed group itself has nothing to dispatch, and every other group is as before.
theorem freed_handoff {runner : Runner Fn} (outcome : Outcome)
    (ht : (queue.groups runner.jid).pendingTasks = [])
    (hm : (queue.groups runner.jid).pendingMessages = false) :
    (queue.freed runner outcome).handoff ((queue.freed runner outcome).slots cfg) =
      queue.handoff (cfg.MAX_CONCURRENT_CONTAINERS - queue.activeCount + 1).toNat := by
  have hslots : (queue.freed runner outcome).slots cfg =
      (cfg.MAX_CONCURRENT_CONTAINERS - queue.activeCount + 1).toNat := by
    unfold Queue.slots
    rw [Queue.freed_activeCount]
    congr 1
    omega
  have hdispatch : (queue.freed runner outcome).dispatchable = queue.dispatchable := by
    funext jid
    by_cases h : jid = runner.jid
    · subst h
      simp [Queue.dispatchable, Queue.freed_pendingTasks, Queue.freed_pendingMessages, ht, hm]
    · simp only [Queue.dispatchable, Queue.freed_groups_of_ne queue jid runner outcome h]
  simp only [Queue.handoff, hslots, hdispatch, Queue.freed_waitingGroups]

theorem freed_idle_of_mem_handoff {runner : Runner Fn} (outcome : Outcome)
    (ht : (queue.groups runner.jid).pendingTasks = [])
    (hm : (queue.groups runner.jid).pendingMessages = false) {slots : Nat}
    (hj : jid ∈ queue.handoff slots) :
    (queue.freed runner outcome).groups jid = queue.groups jid := by
  refine Queue.freed_groups_of_ne queue jid runner outcome ?_
  rintro rfl
  have hd := List.of_mem_filter (List.mem_of_mem_take hj)
  simp [Queue.dispatchable, ht, hm] at hd

theorem Exclusive.step (h : Exclusive queue) (hw : WellFormed cfg queue) {event : Event Fn}
    (hsafe : handoffSafe cfg queue event) (hstep : queue.step cfg event = some next) :
    Exclusive next := by
  cases Queue.step_cases hstep with
  | enqueueMessageCheck => exact h.startsIdle (.enqueueMessageCheck false)
  | enqueueTask _ taskId fn => exact h.startsIdle (.enqueueTask taskId fn)
  | start runner =>
      exact (h.startsIdle (.runnerStart runner)).frame (Queue.markRunning_jids _ _) rfl
  | finish runner outcome hr =>
      have hf := h.freed hr outcome
      have hwf := hw.freed runner outcome
      have hidle := queue.freed_active_self runner outcome
      rcases drainGroup_starts hwf hidle with hstart | ⟨hs, ht, hm, hstart⟩
      · exact hf.startsIdle hstart
      · rw [Queue.freed_shuttingDown] at hs
        rw [Queue.freed_pendingTasks] at ht
        rw [Queue.freed_pendingMessages] at hm
        refine hf.starts hstart ?_ ?_
        · exact (hwf.waiting_nodup.filter _).sublist (List.take_sublist _ _)
        · rw [freed_handoff outcome ht hm]
          intro jid hj
          rw [freed_idle_of_mem_handoff outcome ht hm hj]
          exact hsafe runner hr rfl hs ht hm jid hj
  | cancelCreated runner hs => exact h.withoutRunner _
  | retryFires timer =>
      have ht : Exclusive (queue.withoutTimer timer.id) := h.frame rfl rfl
      exact ht.startsIdle .retryFires
  | tick | shutdownSync | shutdown => exact h.frame rfl rfl

-- A hand-off to a group that owns a runner breaks mutual exclusion in the same step.
theorem handoffSafe_of_step (h : ActiveOwned queue) (hw : WellFormed cfg queue)
    {event : Event Fn} (hstep : queue.step cfg event = some next) (hnext : MutualExclusion next) :
    handoffSafe cfg queue event := by
  cases Queue.step_cases hstep with
  | finish runner outcome hr =>
      intro other ho hid hs ht hm jid hj
      have he : other = runner := List.inj_on_of_nodup_map hw.ids_nodup ho hr hid
      subst he
      rw [Queue.runnerFinish_eq, Queue.drainGroup] at hnext
      simp only [Queue.freed_shuttingDown, hs, Queue.freed_pendingTasks, ht,
        Queue.freed_pendingMessages, hm, Bool.false_eq_true, if_false] at hnext
      have hidle := idle_of_starts (h.freed hw hr outcome)
        ((Queue.freed_shuttingDown ..).trans hs) (drainWaiting_starts (hw.freed other outcome))
        hnext jid
      rw [freed_handoff outcome ht hm, freed_idle_of_mem_handoff outcome ht hm hj] at hidle
      exact hidle hj
  | _ => trivial

-- A group owns two unfinished runners in some state of a run exactly when a freed
-- slot is handed to a parked group that is already active.
theorem mutualExclusion_iff_handoffSafe (events : List (Event Fn)) :
    Always (Queue.step cfg) MutualExclusion {} events ↔
      Along (Queue.step cfg) (handoffSafe cfg) {} events :=
  always_iff_along
    (fun queue => WellFormed cfg queue ∧ ActiveOwned queue ∧ Exclusive queue)
    (fun _ _ _ ⟨hw, ho, he⟩ hg hstep => ⟨hw.step hstep, ho.step hw hstep, he.step hw hg hstep⟩)
    (fun _ ⟨_, _, he⟩ => he.nodup)
    (fun _ _ _ ⟨hw, ho, _⟩ hstep hnext => handoffSafe_of_step ho hw hstep hnext)
    ⟨.empty, .empty, .empty⟩

set_option maxRecDepth 4000 in
-- "b" is parked, then started directly when a slot is free, and stays in the list.
theorem parked_group_started_twice :
    ¬ Always (Queue.step ⟨2, by decide⟩) MutualExclusion ({} : Queue Unit)
      [.enqueueMessageCheck "a", .enqueueMessageCheck "d", .enqueueMessageCheck "b",
        .start 0, .start 1, .enqueueMessageCheck "a", .finish 0 .returnedFalse,
        .enqueueMessageCheck "b", .enqueueTask "b" "t" (), .finish 1 .success] := by
  decide

end EvoClaw.GroupQueue
