import EvoClaw.GroupQueue.WellFormed
import Mathlib.Data.List.Nodup

namespace EvoClaw.GroupQueue

open EventSystem

variable {Fn : Type} {cfg : Config} {queue next : Queue Fn} {jid : Jid} {jids : List Jid}

-- The groups that own an unfinished _run_for_group or _run_task.
def Queue.runnerJids (queue : Queue Fn) : List Jid :=
  queue.runners.map Runner.jid

-- _drain_waiting starts a parked group when it has a task, or messages and no backoff.
def Queue.dispatchable (queue : Queue Fn) (jid : Jid) : Bool :=
  !(queue.groups jid).pendingTasks.isEmpty ||
    (queue.groups jid).pendingMessages && !(queue.groups jid).retryPending

-- The parked groups that `slots` free slots go to.
def Queue.handoff (queue : Queue Fn) (slots : Nat) : List Jid :=
  (queue.waitingGroups.filter queue.dispatchable).take slots

def Queue.slots (cfg : Config) (queue : Queue Fn) : Nat :=
  (cfg.MAX_CONCURRENT_CONTAINERS - queue.activeCount).toNat

-- `next` differs from `queue` by one new runner for each group of `jids`.
structure StartsRunners (queue : Queue Fn) (jids : List Jid) (next : Queue Fn) : Prop where
  runnerJids : next.runnerJids = queue.runnerJids ++ jids
  active : ∀ jid, (next.groups jid).active = true ↔ (queue.groups jid).active = true ∨ jid ∈ jids
  shuttingDown : next.shuttingDown = queue.shuttingDown

namespace StartsRunners

theorem frame (hr : next.runners = queue.runners) (hg : next.groups = queue.groups)
    (hs : next.shuttingDown = queue.shuttingDown) : StartsRunners queue [] next where
  runnerJids := by simp [Queue.runnerJids, hr]
  active := by simp [hg]
  shuttingDown := hs

theorem refl (queue : Queue Fn) : StartsRunners queue [] queue :=
  frame rfl rfl rfl

theorem trans {more : List Jid} {last : Queue Fn} (h : StartsRunners queue jids next)
    (h' : StartsRunners next more last) : StartsRunners queue (jids ++ more) last where
  runnerJids := by rw [h'.runnerJids, h.runnerJids, List.append_assoc]
  active := by
    intro jid
    rw [h'.active, h.active, List.mem_append, or_assoc]
  shuttingDown := h'.shuttingDown.trans h.shuttingDown

theorem setGroup {state : GroupState Fn} (ha : state.active = (queue.groups jid).active) :
    StartsRunners queue [] (queue.setGroup jid state) where
  runnerJids := (List.append_nil _).symm
  active := by
    intro other
    rw [Queue.setGroup_groups]
    split_ifs with h
    · subst h
      simp [ha]
    · simp
  shuttingDown := rfl

theorem launch {state : GroupState Fn} (job : Job Fn) (ha : state.active = true) :
    StartsRunners queue [jid] (queue.launch jid state job) where
  runnerJids := by simp [Queue.runnerJids]
  active := by
    intro other
    rw [Queue.launch_groups]
    split_ifs with h
    · simp [h, ha]
    · simp [h]
  shuttingDown := rfl

theorem startMessages (reason : String) :
    StartsRunners queue [jid] (queue.startMessages jid reason) :=
  launch _ rfl

theorem startTask (task : QueuedTask Fn) : StartsRunners queue [jid] (queue.startTask jid task) :=
  launch _ rfl

theorem park (h : StartsRunners queue jids next) : StartsRunners queue jids (next.park jid) :=
  ⟨h.runnerJids, h.active, h.shuttingDown⟩

theorem dispatchParked (queue : Queue Fn) (jid : Jid) :
    StartsRunners queue (if queue.dispatchable jid then [jid] else [])
      (queue.dispatchParked jid) := by
  have hd := queue.dispatchParked_cases jid
  generalize queue.dispatchParked jid = next at hd ⊢
  cases hd with
  | task task rest ht =>
      rw [if_pos (by simp [Queue.dispatchable, ht])]
      exact (setGroup (by rfl)).trans (startTask task)
  | messages ht hm hr =>
      rw [if_pos (by simp [Queue.dispatchable, hm, hr])]
      exact (setGroup (by rfl)).trans (startMessages _)
  | deferred ht hm hr =>
      rw [if_neg (by simp [Queue.dispatchable, ht, hr])]
      exact refl queue
  | idle ht hm =>
      rw [if_neg (by simp [Queue.dispatchable, ht, hm])]
      exact refl queue

end StartsRunners

section Drain

theorem dispatchParked_groups_of_ne {other : Jid} (h : other ≠ jid) :
    (queue.dispatchParked jid).groups other = queue.groups other := by
  have hd := queue.dispatchParked_cases jid
  generalize queue.dispatchParked jid = next at hd ⊢
  cases hd with
  | task | messages =>
      simp only [Queue.startTask, Queue.startMessages, Queue.launch_groups, if_neg h,
        Queue.setGroup_groups]
  | deferred | idle => rfl

theorem dispatchParked_activeCount : (queue.dispatchParked jid).activeCount =
    queue.activeCount + if queue.dispatchable jid then 1 else 0 := by
  have hd := queue.dispatchParked_cases jid
  generalize queue.dispatchParked jid = next at hd ⊢
  cases hd with
  | task _ _ ht =>
      rw [if_pos (by simp [Queue.dispatchable, ht])]
      rfl
  | messages _ hm hr =>
      rw [if_pos (by simp [Queue.dispatchable, hm, hr])]
      rfl
  | deferred ht _ hr => simp [Queue.dispatchable, ht, hr]
  | idle ht hm => simp [Queue.dispatchable, ht, hm]

-- The loop hands the free slots to the first dispatchable groups of the list.
theorem drainWaitingFrom_starts (waiting : List Jid) (hn : waiting.Nodup) (queue : Queue Fn) :
    StartsRunners queue ((waiting.filter queue.dispatchable).take (queue.slots cfg))
      (Queue.drainWaitingFrom cfg waiting queue) := by
  induction waiting generalizing queue with
  | nil =>
      rw [List.filter_nil, List.take_nil]
      exact .refl queue
  | cons jid rest ih =>
      have hrest := List.nodup_cons.mp hn
      unfold Queue.drainWaitingFrom
      cases hf : queue.full cfg with
      | true =>
          have hslots : queue.slots cfg = 0 := by
            simp only [Queue.full, decide_eq_true_eq] at hf
            unfold Queue.slots
            omega
          rw [hslots]
          exact .refl queue
      | false =>
          rw [if_neg Bool.false_ne_true]
          rw [Queue.full_eq_false] at hf
          let popped := queue.popWaiting jid rest
          have hfilter : rest.filter (popped.dispatchParked jid).dispatchable =
              rest.filter queue.dispatchable := by
            refine List.filter_congr fun other ho => ?_
            have hne : other ≠ jid := fun he => hrest.1 (he ▸ ho)
            simp only [Queue.dispatchable, dispatchParked_groups_of_ne hne]
            rfl
          have hcount : (popped.dispatchParked jid).activeCount =
              queue.activeCount + if queue.dispatchable jid then 1 else 0 :=
            dispatchParked_activeCount
          have hpopped : StartsRunners queue [] popped := .frame rfl rfl rfl
          have hstart : StartsRunners queue (if queue.dispatchable jid then [jid] else [])
              (popped.dispatchParked jid) :=
            hpopped.trans (.dispatchParked popped jid)
          have hloop := hstart.trans (ih hrest.2 (popped.dispatchParked jid))
          rw [hfilter] at hloop
          cases hd : queue.dispatchable jid with
          | true =>
              have hslots : queue.slots cfg = (popped.dispatchParked jid).slots cfg + 1 := by
                simp only [hd, if_true] at hcount
                unfold Queue.slots
                rw [hcount]
                omega
              rw [List.filter_cons_of_pos hd, hslots, List.take_succ_cons]
              simpa only [hd, if_true, List.singleton_append] using hloop
          | false =>
              have hslots : queue.slots cfg = (popped.dispatchParked jid).slots cfg := by
                simp only [hd, Bool.false_eq_true, if_false, Int.add_zero] at hcount
                unfold Queue.slots
                rw [hcount]
              rw [List.filter_cons_of_neg (by simp [hd]), hslots]
              simpa only [hd, Bool.false_eq_true, if_false, List.nil_append] using hloop

theorem drainWaiting_starts (hw : WellFormed cfg queue) :
    StartsRunners queue (queue.handoff (queue.slots cfg)) (queue.drainWaiting cfg) :=
  drainWaitingFrom_starts _ hw.waiting_nodup queue

end Drain

-- Apart from the loop of _drain_waiting, only a group without a container gets one.
def StartsIdle (queue next : Queue Fn) : Prop :=
  ∃ jids : List Jid, jids.Nodup ∧ (∀ jid ∈ jids, (queue.groups jid).active = false) ∧
    StartsRunners queue jids next

namespace StartsIdle

theorem none (h : StartsRunners queue [] next) : StartsIdle queue next :=
  ⟨[], List.nodup_nil, by simp, h⟩

theorem one (ha : (queue.groups jid).active = false) (h : StartsRunners queue [jid] next) :
    StartsIdle queue next :=
  ⟨[jid], List.nodup_singleton jid, by simpa using ha, h⟩

theorem enqueueMessageCheck (fromRetry : Bool) :
    StartsIdle queue (queue.enqueueMessageCheck cfg jid fromRetry) := by
  have hc := queue.enqueueMessageCheck_cases jid cfg fromRetry
  generalize queue.enqueueMessageCheck cfg jid fromRetry = next at hc ⊢
  cases hc with
  | stopped => exact none (.refl queue)
  | busy | backoff | listed | crowded => exact none (.setGroup (by rfl))
  | parked => exact none (StartsRunners.setGroup (by rfl)).park
  | started _ ha => exact one ha (.startMessages _)

theorem enqueueTask (taskId : TaskId) (fn : Fn) :
    StartsIdle queue (queue.enqueueTask cfg jid taskId fn) := by
  have hc := queue.enqueueTask_cases jid cfg taskId fn
  generalize queue.enqueueTask cfg jid taskId fn = next at hc ⊢
  cases hc with
  | ignored => exact none (.refl queue)
  | notified => exact none (.frame rfl rfl rfl)
  | busy | listed => exact none (.setGroup (by rfl))
  | parked => exact none (StartsRunners.setGroup (by rfl)).park
  | started _ ha =>
      exact one ha ((StartsRunners.setGroup (by rfl)).trans (.startTask _))

theorem runnerStart (runner : Runner Fn) : StartsIdle queue (queue.runnerStart runner) := by
  unfold Queue.runnerStart
  split
  · exact none (.setGroup (by rfl))
  · exact none (.setGroup (by rfl))

theorem retryFires : StartsIdle queue (queue.retryFires cfg jid) := by
  unfold Queue.retryFires
  split_ifs
  · exact none (.refl queue)
  · have hcheck : StartsIdle _ ((queue.setGroup jid
        { queue.groups jid with retryReady := true }).enqueueMessageCheck cfg jid true) :=
      enqueueMessageCheck true
    obtain ⟨jids, hn, hfree, hs⟩ := hcheck
    have hset : StartsRunners queue [] (queue.setGroup jid
        { queue.groups jid with retryReady := true }) := .setGroup (by rfl)
    refine ⟨jids, hn, fun other ho => ?_, hset.trans hs⟩
    have hidle := hfree other ho
    by_contra ha
    rw [Bool.not_eq_false] at ha
    rw [(hset.active other).mpr (Or.inl ha)] at hidle
    cases hidle

end StartsIdle

-- What _drain_group starts: a runner of the freed group, or the hand-off.
theorem drainGroup_starts (hw : WellFormed cfg queue)
    (ha : (queue.groups jid).active = false) :
    StartsIdle queue (queue.drainGroup cfg jid) ∨
      queue.shuttingDown = false ∧ (queue.groups jid).pendingTasks = [] ∧
        (queue.groups jid).pendingMessages = false ∧
        StartsRunners queue (queue.handoff (queue.slots cfg)) (queue.drainGroup cfg jid) := by
  have hd := queue.drainGroup_cases jid cfg
  generalize queue.drainGroup cfg jid = next at hd ⊢
  cases hd with
  | stopped | deferred => exact Or.inl (.none (.refl queue))
  | task =>
      exact Or.inl (.one ha ((StartsRunners.setGroup (by rfl)).trans (.startTask _)))
  | messages => exact Or.inl (.one ha (.startMessages _))
  | waiting hs ht hm => exact Or.inr ⟨hs, ht, hm, drainWaiting_starts hw⟩

section Freed

variable {runner : Runner Fn}

theorem withoutRunner_sublist (id : Nat) :
    (queue.withoutRunner id).runnerJids.Sublist queue.runnerJids :=
  List.filter_sublist.map _

theorem mem_withoutRunner (hw : WellFormed cfg queue) (hr : runner ∈ queue.runners)
    (hne : jid ≠ runner.jid) (hm : jid ∈ queue.runnerJids) :
    jid ∈ (queue.withoutRunner runner.id).runnerJids := by
  obtain ⟨other, ho, rfl⟩ := List.mem_map.mp hm
  refine List.mem_map.mpr ⟨other, List.mem_filter.mpr ⟨ho, ?_⟩, rfl⟩
  have hid : other.id ≠ runner.id := fun he =>
    hne (congrArg Runner.jid (List.inj_on_of_nodup_map hw.ids_nodup ho hr he))
  simpa using hid

-- Ids are never shared, so a runner that leaves leaves all the others.
theorem perm_withoutRunner (hw : WellFormed cfg queue) (hr : runner ∈ queue.runners) :
    queue.runners.Perm (runner :: (queue.withoutRunner runner.id).runners) := by
  have hsame (other : Runner Fn) (ho : other ∈ queue.runners) (hid : other.id = runner.id) :
      other = runner := List.inj_on_of_nodup_map hw.ids_nodup ho hr hid
  have hnodup : queue.runners.Nodup := hw.ids_nodup.of_map
  refine (List.perm_ext_iff_of_nodup hnodup (List.nodup_cons.mpr ⟨?_, hnodup.filter _⟩)).mpr ?_
  · intro hm
    simp at hm
  · intro other
    simp only [List.mem_cons, List.mem_filter, decide_eq_true_eq]
    constructor
    · intro ho
      by_cases hid : other.id = runner.id
      · exact Or.inl (hsame other ho hid)
      · exact Or.inr ⟨ho, hid⟩
    · rintro (rfl | ho)
      · exact hr
      · exact ho.1

theorem created?_of_mem (hw : WellFormed cfg queue) (hr : runner ∈ queue.runners)
    (hp : runner.phase = .created) : queue.created? runner.id = some runner := by
  have hfound : (queue.created? runner.id).isSome :=
    List.find?_isSome.mpr ⟨runner, hr, by simp [hp]⟩
  obtain ⟨other, ho⟩ := Option.isSome_iff_exists.mp hfound
  obtain ⟨hm, hid, _⟩ := Queue.created?_eq_some ho
  rw [ho, List.inj_on_of_nodup_map hw.ids_nodup hm hr hid]

theorem running?_of_mem (hw : WellFormed cfg queue) (hr : runner ∈ queue.runners)
    (hp : runner.phase ≠ .created) : queue.running? runner.id = some runner := by
  have hfound : (queue.running? runner.id).isSome :=
    List.find?_isSome.mpr ⟨runner, hr, by simp [hp]⟩
  obtain ⟨other, ho⟩ := Option.isSome_iff_exists.mp hfound
  obtain ⟨hm, hid, _⟩ := Queue.running?_eq_some ho
  rw [ho, List.inj_on_of_nodup_map hw.ids_nodup hm hr hid]

theorem freed_runnerJids (outcome : Outcome) : (queue.freed runner outcome).runnerJids =
    (queue.withoutRunner runner.id).runnerJids := by
  unfold Queue.runnerJids
  rw [Queue.freed_runners]
  rfl

theorem freed_active {outcome : Outcome}
    (ha : ((queue.freed runner outcome).groups jid).active = true) :
    jid ≠ runner.jid ∧ (queue.groups jid).active = true := by
  have hne : jid ≠ runner.jid := by
    rintro rfl
    rw [Queue.freed_active_self] at ha
    cases ha
  rw [Queue.freed_groups_of_ne queue jid runner outcome hne] at ha
  exact ⟨hne, ha⟩

theorem WellFormed.freed (h : WellFormed cfg queue) (runner : Runner Fn) (outcome : Outcome) :
    WellFormed cfg (queue.freed runner outcome) :=
  ((h.withoutRunner runner.id).settle runner outcome).release runner

end Freed

theorem StartsIdle.shuttingDown (h : StartsIdle queue next) :
    next.shuttingDown = queue.shuttingDown := by
  obtain ⟨_, _, _, hs⟩ := h
  exact hs.shuttingDown

theorem shuttingDown_eq_of_step (hw : WellFormed cfg queue) {event : Event Fn}
    (hsync : event ≠ .shutdownSync) (hdown : event ≠ .shutdown)
    (hstep : queue.step cfg event = some next) : next.shuttingDown = queue.shuttingDown := by
  cases Queue.step_cases hstep with
  | enqueueMessageCheck => exact (StartsIdle.enqueueMessageCheck false).shuttingDown
  | enqueueTask _ taskId fn => exact (StartsIdle.enqueueTask taskId fn).shuttingDown
  | start runner => exact (StartsIdle.runnerStart runner).shuttingDown
  | finish runner outcome =>
      have hf := queue.freed_shuttingDown runner outcome
      rcases drainGroup_starts (hw.freed runner outcome)
        (queue.freed_active_self runner outcome) with hs | ⟨_, _, _, hs⟩
      · exact hs.shuttingDown.trans hf
      · exact hs.shuttingDown.trans hf
  | retryFires timer =>
      have hr : StartsIdle _ ((queue.withoutTimer timer.id).retryFires cfg timer.jid) :=
        .retryFires
      exact hr.shuttingDown
  | cancelCreated | tick => rfl
  | shutdownSync => exact absurd rfl hsync
  | shutdown => exact absurd rfl hdown

-- A shutdown is never taken back.
theorem shuttingDown_of_step (hw : WellFormed cfg queue) {event : Event Fn}
    (hstep : queue.step cfg event = some next) (hq : queue.shuttingDown = true) :
    next.shuttingDown = true := by
  by_cases hsync : event = .shutdownSync
  · subst hsync
    cases hstep
    rfl
  by_cases hdown : event = .shutdown
  · subst hdown
    cases hstep
    rfl
  · exact (shuttingDown_eq_of_step hw hsync hdown hstep).trans hq

-- Before a shutdown an active group owns a runner.
def ActiveOwned (queue : Queue Fn) : Prop :=
  queue.shuttingDown = false →
    ∀ jid, (queue.groups jid).active = true → jid ∈ queue.runnerJids

namespace ActiveOwned

theorem empty : ActiveOwned ({} : Queue Fn) := by
  simp [ActiveOwned]

theorem starts (h : ActiveOwned queue) (hs : StartsRunners queue jids next) :
    ActiveOwned next := by
  intro hd jid ha
  rw [hs.shuttingDown] at hd
  rw [hs.active] at ha
  rw [hs.runnerJids, List.mem_append]
  exact ha.imp_left (h hd jid)

theorem startsIdle (h : ActiveOwned queue) (hs : StartsIdle queue next) : ActiveOwned next := by
  obtain ⟨jids, _, _, hs⟩ := hs
  exact h.starts hs

theorem freed (h : ActiveOwned queue) (hw : WellFormed cfg queue) {runner : Runner Fn}
    (hr : runner ∈ queue.runners) (outcome : Outcome) :
    ActiveOwned (queue.freed runner outcome) := by
  intro hd jid ha
  rw [Queue.freed_shuttingDown] at hd
  obtain ⟨hne, ha⟩ := freed_active ha
  rw [freed_runnerJids]
  exact mem_withoutRunner hw hr hne (h hd jid ha)

theorem step (h : ActiveOwned queue) (hw : WellFormed cfg queue) {event : Event Fn}
    (hstep : queue.step cfg event = some next) : ActiveOwned next := by
  cases Queue.step_cases hstep with
  | enqueueMessageCheck => exact h.startsIdle (.enqueueMessageCheck false)
  | enqueueTask _ taskId fn => exact h.startsIdle (.enqueueTask taskId fn)
  | start runner =>
      have hs := h.startsIdle (.runnerStart runner)
      intro hd jid ha
      rw [Queue.runnerJids, Queue.markRunning_jids]
      exact hs hd jid ha
  | finish runner outcome hr =>
      have hf := h.freed hw hr outcome
      have hidle := queue.freed_active_self runner outcome
      rcases drainGroup_starts (hw.freed runner outcome) hidle with hs | ⟨_, _, _, hs⟩
      · exact hf.startsIdle hs
      · exact hf.starts hs
  | cancelCreated runner hs =>
      intro hd
      change queue.shuttingDown = false at hd
      rw [hs] at hd
      cases hd
  | retryFires timer =>
      have ht : ActiveOwned (queue.withoutTimer timer.id) := h
      exact ht.startsIdle .retryFires
  | tick => exact h
  | shutdownSync | shutdown => exact fun hd => by cases hd

end ActiveOwned

end EvoClaw.GroupQueue
