import EvoClaw.GroupQueue.Conservation
import EvoClaw.GroupQueue.Contents
import EvoClaw.GroupQueue.Exclusion

namespace EvoClaw.GroupQueue

open EventSystem

variable {Fn : Type} {cfg : Config} {queue next : Queue Fn} {jid : Jid} {state : GroupState Fn}

-- What an observer of the message runs notes: each group's failed runs since retry_count
-- was last 0, when its next run may start, and whether one has started before that.
structure Watch where
  streak : Jid → Nat := fun _ => 0
  notBefore : Jid → Nat := fun _ => 0
  early : Bool := false

-- The group that a _run_for_group runs for.
def Runner.messageJid? (runner : Runner Fn) : Option Jid :=
  match runner.job with
  | .messages _ _ => some runner.jid
  | .task _ => none

namespace Watch

-- `retryCount` is the count that the failed run leaves behind.
def failure (watch : Watch) (jid : Jid) (clock retryCount : Nat) : Watch :=
  let k := watch.streak jid + 1
  { watch with
    streak := Function.update watch.streak jid (if retryCount = 0 then 0 else k)
    notBefore := if k ≤ MAX_RETRIES then
        Function.update watch.notBefore jid (clock + BASE_RETRY_MS * 2 ^ (k - 1))
      else watch.notBefore }

def ended (watch : Watch) (jid : Jid) (clock retryCount : Nat) : Outcome → Watch
  | .success => { watch with streak := Function.update watch.streak jid 0 }
  | .returnedFalse => watch.failure jid clock retryCount
  | .raised => watch.failure jid clock retryCount
  | .cancelled => watch

def record (queue next : Queue Fn) (watch : Watch) : Event Fn → Watch
  | .start id =>
      match (queue.created? id).bind Runner.messageJid? with
      | some jid =>
          { watch with early := watch.early || decide (queue.clock < watch.notBefore jid) }
      | none => watch
  | .finish id outcome =>
      match (queue.running? id).bind Runner.messageJid? with
      | some jid => watch.ended jid queue.clock (next.groups jid).retryCount outcome
      | none => watch
  | _ => watch

end Watch

def watchStep (cfg : Config) (state : Queue Fn × Watch) (event : Event Fn) :
    Option (Queue Fn × Watch) :=
  (state.1.step cfg event).map fun next => (next, state.2.record state.1 next event)

structure BackoffHonoured (queue : Queue Fn) (watch : Watch) : Prop where
  notEarly : watch.early = false
  oneTimer : (queue.retryTasks.map RetryTimer.jid).Nodup
  bounded : ∀ jid, watch.streak jid ≤ MAX_RETRIES

-- The group has an unfinished _run_for_group.
def Queue.messageRun (queue : Queue Fn) (jid : Jid) : Prop :=
  ∃ runner ∈ queue.runners, runner.messageJid? = some jid

-- Nothing but a retry timer can start a message run of the group.
structure Muted (queue : Queue Fn) (jid : Jid) : Prop where
  pending : (queue.groups jid).retryPending = true
  idle : ¬ queue.messageRun jid

-- `next` has the timers, the time and the retry counts of `queue`. Groups outside `free`
-- are not started by it against their backoff, and a message run starts with a cleared flag.
structure Defers (free : Jid → Prop) (queue next : Queue Fn) : Prop where
  clock : next.clock = queue.clock
  timers : next.retryTasks = queue.retryTasks
  count : ∀ jid, (next.groups jid).retryCount = (queue.groups jid).retryCount
  muted : ∀ jid, ¬ free jid → Muted queue jid → Muted next jid
  cleared : ∀ jid, (queue.messageRun jid → (queue.groups jid).retryReady = false) →
    next.messageRun jid → (next.groups jid).retryReady = false

namespace Defers

variable {free : Jid → Prop}

theorem frame (hc : next.clock = queue.clock) (ht : next.retryTasks = queue.retryTasks)
    (hg : ∀ jid, (next.groups jid).retryCount = (queue.groups jid).retryCount ∧
      (next.groups jid).retryReady = (queue.groups jid).retryReady)
    (hr : ∀ jid, next.messageRun jid → queue.messageRun jid) : Defers free queue next where
  clock := hc
  timers := ht
  count := fun jid => (hg jid).1
  muted := by
    intro jid _ h
    refine ⟨?_, fun hm => h.idle (hr jid hm)⟩
    rw [GroupState.retryPending, (hg jid).1, (hg jid).2]
    exact h.pending
  cleared := by
    intro jid h hm
    rw [(hg jid).2]
    exact h (hr jid hm)

theorem refl (queue : Queue Fn) : Defers free queue queue :=
  frame rfl rfl (fun _ => ⟨rfl, rfl⟩) fun _ hm => hm

theorem trans {last : Queue Fn} (h : Defers free queue next) (h' : Defers free next last) :
    Defers free queue last where
  clock := h'.clock.trans h.clock
  timers := h'.timers.trans h.timers
  count := fun jid => (h'.count jid).trans (h.count jid)
  muted := fun jid hf hm => h'.muted jid hf (h.muted jid hf hm)
  cleared := fun jid hr => h'.cleared jid (h.cleared jid hr)

theorem setGroup (hc : state.retryCount = (queue.groups jid).retryCount)
    (hr : state.retryReady = (queue.groups jid).retryReady) :
    Defers free queue (queue.setGroup jid state) := by
  refine frame rfl rfl (fun other => ?_) fun _ hm => hm
  rw [Queue.setGroup_groups]
  split_ifs with he
  · exact he ▸ ⟨hc, hr⟩
  · exact ⟨rfl, rfl⟩

-- Clearing retry_ready never lets a group out of its backoff.
theorem clearReady : Defers free queue
    (queue.setGroup jid { queue.groups jid with retryReady := false }) where
  clock := rfl
  timers := rfl
  count := by
    intro other
    rw [Queue.setGroup_groups]
    split_ifs with he
    · rw [he]
    · rfl
  muted := by
    intro other _ h
    refine ⟨?_, h.idle⟩
    have hp := h.pending
    rw [GroupState.retryPending_iff] at hp ⊢
    rw [Queue.setGroup_groups]
    split_ifs with he
    · exact ⟨he ▸ hp.1, rfl⟩
    · exact hp
  cleared := by
    intro other h hm
    rw [Queue.setGroup_groups]
    split_ifs
    · rfl
    · exact h hm

theorem startTask (task : QueuedTask Fn) : Defers free queue (queue.startTask jid task) := by
  refine frame rfl rfl (fun other => ?_) fun other hm => ?_
  · simp only [Queue.startTask, Queue.launch_groups]
    split_ifs with he
    · rw [he]
      exact ⟨rfl, rfl⟩
    · exact ⟨rfl, rfl⟩
  · obtain ⟨runner, hr, hj⟩ := hm
    rw [Queue.startTask, Queue.launch_runners, List.mem_append, List.mem_singleton] at hr
    rcases hr with hr | rfl
    · exact ⟨runner, hr, hj⟩
    · cases hj

theorem startMessages (reason : String)
    (hfree : free jid ∨ (queue.groups jid).retryPending = false) :
    Defers free queue (queue.startMessages jid reason) := by
  have hruns (other : Jid) (hne : other ≠ jid)
      (hm : (queue.startMessages jid reason).messageRun other) : queue.messageRun other := by
    obtain ⟨runner, hr, hj⟩ := hm
    rw [Queue.startMessages, Queue.launch_runners, List.mem_append, List.mem_singleton] at hr
    rcases hr with hr | rfl
    · exact ⟨runner, hr, hj⟩
    · cases hj
      exact absurd rfl hne
  refine ⟨rfl, rfl, fun other => ?_, fun other hf h => ?_, fun other h hm => ?_⟩
  · simp only [Queue.startMessages, Queue.launch_groups]
    split_ifs with he
    · rw [he]
    · rfl
  · have hne : other ≠ jid := by
      rintro rfl
      rcases hfree with hfree | hp
      · exact hf hfree
      · rw [h.pending] at hp
        cases hp
    refine ⟨?_, fun hm => h.idle (hruns other hne hm)⟩
    simp only [Queue.startMessages, Queue.launch_groups, if_neg hne]
    exact h.pending
  · simp only [Queue.startMessages, Queue.launch_groups]
    split_ifs with he
    · rfl
    · exact h (hruns other he hm)

theorem enqueueMessageCheck (fromRetry : Bool) (hfree : fromRetry = true → free jid) :
    Defers free queue (queue.enqueueMessageCheck cfg jid fromRetry) := by
  have hmarked : Defers free queue
      (queue.setGroup jid ((queue.groups jid).markPending queue.clock)) := setGroup rfl rfl
  by_cases hback : 0 < (queue.groups jid).retryCount ∧ fromRetry = false
  · -- The guard on retry_count comes before the branch that starts a run.
    simp only [Queue.enqueueMessageCheck, hback.1, hback.2, decide_true, Bool.not_false,
      Bool.and_self, if_true]
    split_ifs
    · exact refl queue
    · exact hmarked
    · exact hmarked
  · have hstart : free jid ∨ (queue.groups jid).retryPending = false := by
      cases hf : fromRetry with
      | true => exact Or.inl (hfree hf)
      | false =>
          right
          have hzero : ¬ 0 < (queue.groups jid).retryCount := fun hr => hback ⟨hr, hf⟩
          simp [GroupState.retryPending, hzero]
    have hc := queue.enqueueMessageCheck_cases jid cfg fromRetry
    generalize queue.enqueueMessageCheck cfg jid fromRetry = next at hc ⊢
    cases hc with
    | stopped => exact refl queue
    | busy | backoff | listed | crowded => exact hmarked
    | parked => exact hmarked.trans (frame rfl rfl (fun _ => ⟨rfl, rfl⟩) fun _ hm => hm)
    | started => exact startMessages _ hstart

theorem enqueueTask (taskId : TaskId) (fn : Fn) :
    Defers free queue (queue.enqueueTask cfg jid taskId fn) := by
  have hc := queue.enqueueTask_cases jid cfg taskId fn
  generalize queue.enqueueTask cfg jid taskId fn = next at hc ⊢
  cases hc with
  | ignored => exact refl queue
  | notified => exact frame rfl rfl (fun _ => ⟨rfl, rfl⟩) fun _ hm => hm
  | busy | listed => exact setGroup rfl rfl
  | parked =>
      have hpush : Defers free queue
          (queue.setGroup jid ((queue.groups jid).pushTask ⟨taskId, jid, fn⟩)) := setGroup rfl rfl
      exact hpush.trans (frame rfl rfl (fun _ => ⟨rfl, rfl⟩) fun _ hm => hm)
  | started => exact clearReady.trans (startTask _)

theorem startPending (task : QueuedTask Fn) (rest : List (QueuedTask Fn)) : Defers free queue
    ((queue.setGroup jid ((queue.groups jid).popTask task rest)).startTask jid task) := by
  have hpop : Defers free queue
      (queue.setGroup jid ((queue.groups jid).popTask task rest)) := setGroup rfl rfl
  exact hpop.trans (startTask task)

theorem dispatchParked : Defers free queue (queue.dispatchParked jid) := by
  have hd := queue.dispatchParked_cases jid
  generalize queue.dispatchParked jid = next at hd ⊢
  cases hd with
  | task task rest => exact startPending task rest
  | messages _ _ hr =>
      have hset : Defers free queue
          (queue.setGroup jid { queue.groups jid with pendingMessages := false }) :=
        setGroup rfl rfl
      refine hset.trans (startMessages _ (Or.inr ?_))
      rw [Queue.setGroup_groups_self]
      exact hr
  | deferred | idle => exact refl queue

theorem drainGroup : Defers free queue (queue.drainGroup cfg jid) := by
  have hd := queue.drainGroup_cases jid cfg
  generalize queue.drainGroup cfg jid = next at hd ⊢
  cases hd with
  | stopped | deferred => exact refl queue
  | task _ task rest => exact startPending task rest
  | messages _ _ _ hr => exact startMessages _ (Or.inr hr)
  | waiting =>
      refine queue.drainWaiting_invariant (Defers free queue) (fun drained parked rest hd _ _ => ?_)
        (refl queue)
      have hpop : Defers free drained (drained.popWaiting parked rest) :=
        frame rfl rfl (fun _ => ⟨rfl, rfl⟩) fun _ hm => hm
      exact (hd.trans hpop).trans dispatchParked

theorem runnerStart (runner : Runner Fn) : Defers free queue (queue.runnerStart runner) := by
  unfold Queue.runnerStart
  split
  · exact setGroup rfl rfl
  · exact setGroup rfl rfl

theorem markRunning (id : Nat) : Defers free queue (queue.markRunning id) := by
  refine frame rfl rfl (fun _ => ⟨rfl, rfl⟩) ?_
  rintro jid ⟨runner, hr, hj⟩
  obtain ⟨old, ho, rfl⟩ := List.mem_map.mp hr
  refine ⟨old, ho, ?_⟩
  split_ifs at hj <;> exact hj

end Defers

-- Each group in backoff is muted, has the one timer, and that timer is not early.
structure BackingOff (notBefore : Jid → Nat) (queue : Queue Fn) : Prop where
  timers_nodup : (queue.retryTasks.map RetryTimer.jid).Nodup
  timer : ∀ timer ∈ queue.retryTasks, Muted queue timer.jid ∧ notBefore timer.jid ≤ timer.due
  waits : ∀ jid, queue.clock < notBefore jid → Muted queue jid
  cleared : ∀ jid, queue.messageRun jid → (queue.groups jid).retryReady = false

namespace BackingOff

variable {notBefore : Jid → Nat}

theorem empty : BackingOff (fun _ => 0) ({} : Queue Fn) where
  timers_nodup := List.nodup_nil
  timer := by simp
  waits := by simp
  cleared := by
    rintro jid ⟨runner, hr, -⟩
    cases hr

theorem defers (h : BackingOff notBefore queue) (hd : Defers (fun _ => False) queue next) :
    BackingOff notBefore next where
  timers_nodup := by
    rw [hd.timers]
    exact h.timers_nodup
  timer := by
    intro timer ht
    rw [hd.timers] at ht
    exact ⟨hd.muted timer.jid id (h.timer timer ht).1, (h.timer timer ht).2⟩
  waits := by
    intro jid hlt
    rw [hd.clock] at hlt
    exact hd.muted jid id (h.waits jid hlt)
  cleared := fun jid => hd.cleared jid (h.cleared jid)

-- Time passes, or timers are cancelled.
theorem elapse (h : BackingOff notBefore queue) (hg : next.groups = queue.groups)
    (hr : next.runners = queue.runners) (ht : next.retryTasks.Sublist queue.retryTasks)
    (hc : queue.clock ≤ next.clock) : BackingOff notBefore next := by
  have hruns (jid : Jid) : next.messageRun jid ↔ queue.messageRun jid := by
    rw [Queue.messageRun, hr, Queue.messageRun]
  have hmuted (jid : Jid) (hm : Muted queue jid) : Muted next jid :=
    ⟨hg ▸ hm.pending, fun hn => hm.idle ((hruns jid).mp hn)⟩
  refine ⟨h.timers_nodup.sublist (ht.map _), fun timer hm => ?_, fun jid hlt => ?_,
    fun jid hm => ?_⟩
  · exact (h.timer timer (ht.subset hm)).imp_left (hmuted _)
  · exact hmuted jid (h.waits jid (hc.trans_lt hlt))
  · rw [hg]
    exact h.cleared jid ((hruns jid).mp hm)

-- The timer that fires is the only one of its group, and the group's time has come.
theorem retryFires (h : BackingOff notBefore queue) {timer : RetryTimer}
    (ht : timer ∈ queue.retryTasks) (hdue : timer.due ≤ queue.clock) :
    BackingOff notBefore ((queue.withoutTimer timer.id).retryFires cfg timer.jid) := by
  have hothers : ∀ other ∈ (queue.withoutTimer timer.id).retryTasks,
      other ∈ queue.retryTasks ∧ other.jid ≠ timer.jid := by
    intro other ho
    obtain ⟨ho, hid⟩ := List.mem_filter.mp ho
    refine ⟨ho, fun hj => ?_⟩
    have he : other = timer := List.inj_on_of_nodup_map h.timers_nodup ho ht hj
    simp [he] at hid
  have hsub : (queue.withoutTimer timer.id).retryTasks.map RetryTimer.jid |>.Nodup :=
    h.timers_nodup.sublist (List.filter_sublist.map _)
  have htime : notBefore timer.jid ≤ queue.clock := (h.timer timer ht).2.trans hdue
  unfold Queue.retryFires
  split_ifs
  · exact h.elapse rfl rfl List.filter_sublist le_rfl
  · let ready : Queue Fn := (queue.withoutTimer timer.id).setGroup timer.jid
      { queue.groups timer.jid with retryReady := true }
    have hmuted (jid : Jid) (hne : jid ≠ timer.jid) (hm : Muted queue jid) : Muted ready jid := by
      refine ⟨?_, hm.idle⟩
      rw [Queue.setGroup_groups, if_neg hne]
      exact hm.pending
    have hd : Defers (· = timer.jid) ready (ready.enqueueMessageCheck cfg timer.jid true) :=
      .enqueueMessageCheck true fun _ => rfl
    change BackingOff notBefore (ready.enqueueMessageCheck cfg timer.jid true)
    refine ⟨?_, fun other ho => ?_, fun jid hlt => ?_, fun jid => hd.cleared jid fun hm => ?_⟩
    · rw [hd.timers]
      exact hsub
    · rw [hd.timers] at ho
      obtain ⟨ho, hne⟩ := hothers other ho
      obtain ⟨hm, hle⟩ := h.timer other ho
      exact ⟨hd.muted _ hne (hmuted _ hne hm), hle⟩
    · rw [hd.clock] at hlt
      have hne : jid ≠ timer.jid := by
        rintro rfl
        exact absurd hlt (Nat.not_lt.mpr htime)
      exact hd.muted jid hne (hmuted jid hne (h.waits jid hlt))
    · have hne : jid ≠ timer.jid := by
        rintro rfl
        exact (h.timer timer ht).1.idle hm
      rw [Queue.setGroup_groups, if_neg hne]
      exact h.cleared jid hm

end BackingOff

theorem retryFires_retryCount (jid other : Jid) :
    ((queue.retryFires cfg jid).groups other).retryCount = (queue.groups other).retryCount := by
  unfold Queue.retryFires
  split_ifs
  · rfl
  · have hd : Defers (fun _ => True)
        (queue.setGroup jid { queue.groups jid with retryReady := true })
        ((queue.setGroup jid { queue.groups jid with retryReady := true }).enqueueMessageCheck cfg
          jid true) := .enqueueMessageCheck true fun _ => trivial
    rw [hd.count, Queue.setGroup_groups]
    split_ifs with he
    · rw [he]
    · rfl

section Finish

variable {notBefore : Jid → Nat} {runner : Runner Fn} (outcome : Outcome)

theorem freed_messageRun (hm : (queue.freed runner outcome).messageRun jid) :
    queue.messageRun jid := by
  obtain ⟨other, ho, hj⟩ := hm
  rw [Queue.freed_runners] at ho
  exact ⟨other, List.mem_of_mem_filter ho, hj⟩

theorem messageJid?_eq_some {runner : Runner Fn} (hj : runner.messageJid? = some jid) :
    runner.jid = jid := by
  unfold Runner.messageJid? at hj
  split at hj
  · exact Option.some.inj hj
  · cases hj

-- The group's only runner has ended.
theorem freed_idle (he : Exclusive queue) (hr : runner ∈ queue.runners) :
    ¬ (queue.freed runner outcome).messageRun runner.jid := by
  rintro ⟨other, ho, hj⟩
  refine he.not_mem_withoutRunner hr ?_
  rw [← freed_runnerJids outcome]
  exact List.mem_map.mpr ⟨other, ho, messageJid?_eq_some hj⟩

theorem freed_groups_retry (jid : Jid) (hne : jid ≠ runner.jid ∨
      (queue.groups runner.jid).settled runner.job outcome = queue.groups runner.jid) :
    ((queue.freed runner outcome).groups jid).retryCount = (queue.groups jid).retryCount ∧
      ((queue.freed runner outcome).groups jid).retryReady = (queue.groups jid).retryReady := by
  by_cases he : jid = runner.jid
  · subst he
    rw [Queue.freed_groups_self, GroupState.released_retryCount, GroupState.released_retryReady,
      hne.resolve_left fun hn => hn rfl]
    exact ⟨rfl, rfl⟩
  · rw [Queue.freed_groups_of_ne queue jid runner outcome he]
    exact ⟨rfl, rfl⟩

-- A run that leaves the retry fields and the timers as they are.
theorem Defers.freed
    (hs : (queue.groups runner.jid).settled runner.job outcome = queue.groups runner.jid)
    (ht : (queue.freed runner outcome).retryTasks = queue.retryTasks) :
    Defers (fun _ => False) queue (queue.freed runner outcome) :=
  .frame (freed_clock runner outcome) ht (fun jid => freed_groups_retry outcome jid (Or.inr hs))
    fun _ => freed_messageRun outcome

-- A message run that ends leaves its group with no timer, or with the one it sets.
theorem BackingOff.freed {later : Jid → Nat} {added : List RetryTimer}
    (h : BackingOff notBefore queue) (he : Exclusive queue) (hr : runner ∈ queue.runners)
    (hj : runner.messageJid? = some runner.jid)
    (ht : (queue.freed runner outcome).retryTasks = queue.retryTasks ++ added)
    (hsame : ∀ jid, jid ≠ runner.jid → later jid = notBefore jid)
    (hown : added = [] ∧ later runner.jid = notBefore runner.jid ∨
      ((queue.freed runner outcome).groups runner.jid).retryPending = true ∧
        ∃ id, added = [⟨id, runner.jid, later runner.jid⟩]) :
    BackingOff later (queue.freed runner outcome) := by
  have hrun : queue.messageRun runner.jid := ⟨runner, hr, hj⟩
  have hold (timer : RetryTimer) (hm : timer ∈ queue.retryTasks) : timer.jid ≠ runner.jid :=
    fun hjid => (h.timer timer hm).1.idle (hjid ▸ hrun)
  have hidle := freed_idle outcome he hr
  have hmuted (jid : Jid) (hne : jid ≠ runner.jid) (hm : Muted queue jid) :
      Muted (queue.freed runner outcome) jid := by
    refine ⟨?_, fun hn => hm.idle (freed_messageRun outcome hn)⟩
    rw [Queue.freed_groups_of_ne queue jid runner outcome hne]
    exact hm.pending
  have hadded (timer : RetryTimer) (hm : timer ∈ added) : timer.jid = runner.jid ∧
      later runner.jid = timer.due ∧ Muted (queue.freed runner outcome) runner.jid := by
    rcases hown with ⟨rfl, -⟩ | ⟨hp, id, rfl⟩
    · cases hm
    · rw [List.mem_singleton.mp hm]
      exact ⟨rfl, rfl, hp, hidle⟩
  refine ⟨?_, fun timer hm => ?_, fun jid hlt => ?_, fun jid hm => ?_⟩
  · rw [ht, List.map_append]
    refine List.nodup_append.mpr ⟨h.timers_nodup, ?_, ?_⟩
    · rcases hown with ⟨rfl, -⟩ | ⟨-, id, rfl⟩
      · exact List.nodup_nil
      · exact List.nodup_singleton _
    · intro a ha b hb
      obtain ⟨timer, hm, rfl⟩ := List.mem_map.mp ha
      obtain ⟨new, hn, rfl⟩ := List.mem_map.mp hb
      rw [(hadded new hn).1]
      exact hold timer hm
  · rw [ht, List.mem_append] at hm
    rcases hm with hm | hm
    · have hne := hold timer hm
      rw [hsame _ hne]
      exact (h.timer timer hm).imp_left (hmuted _ hne)
    · obtain ⟨hjid, hdue, hmute⟩ := hadded timer hm
      rw [hjid, hdue]
      exact ⟨hmute, le_rfl⟩
  · rw [freed_clock] at hlt
    by_cases hne : jid = runner.jid
    · subst hne
      rcases hown with ⟨-, hsame⟩ | ⟨hp, -⟩
      · rw [hsame] at hlt
        exact absurd hrun (h.waits _ hlt).idle
      · exact ⟨hp, hidle⟩
    · rw [hsame jid hne] at hlt
      exact hmuted jid hne (h.waits jid hlt)
  · have hne : jid ≠ runner.jid := by
      rintro rfl
      exact hidle hm
    rw [Queue.freed_groups_of_ne queue jid runner outcome hne]
    exact h.cleared jid (freed_messageRun outcome hm)

end Finish

-- The invariant of the watched runs in which slots are handed over safely.
structure Watched (cfg : Config) (queue : Queue Fn) (watch : Watch) : Prop where
  wellFormed : WellFormed cfg queue
  exclusive : Exclusive queue
  backingOff : BackingOff watch.notBefore queue
  streak : ∀ jid, watch.streak jid = (queue.groups jid).retryCount
  bounded : ∀ jid, (queue.groups jid).retryCount ≤ MAX_RETRIES
  notEarly : watch.early = false

namespace Watched

variable {watch : Watch}

theorem empty : Watched cfg ({} : Queue Fn) {} where
  wellFormed := .empty
  exclusive := .empty
  backingOff := .empty
  streak := fun _ => rfl
  bounded := fun _ => Nat.zero_le _
  notEarly := rfl

theorem honoured (h : Watched cfg queue watch) : BackoffHonoured queue watch where
  notEarly := h.notEarly
  oneTimer := h.backingOff.timers_nodup
  bounded := fun jid => h.streak jid ▸ h.bounded jid

theorem kept (h : Watched cfg queue watch) (hw : WellFormed cfg next) (he : Exclusive next)
    (hb : BackingOff watch.notBefore next)
    (hc : ∀ jid, (next.groups jid).retryCount = (queue.groups jid).retryCount) :
    Watched cfg next watch where
  wellFormed := hw
  exclusive := he
  backingOff := hb
  streak := fun jid => (h.streak jid).trans (hc jid).symm
  bounded := fun jid => hc jid ▸ h.bounded jid
  notEarly := h.notEarly

theorem defers (h : Watched cfg queue watch) (hw : WellFormed cfg next) (he : Exclusive next)
    (hd : Defers (fun _ => False) queue next) : Watched cfg next watch :=
  h.kept hw he (h.backingOff.defers hd) hd.count

-- A run that starts is a run of a group that is not in backoff.
theorem record_start (h : Watched cfg queue watch) {runner : Runner Fn}
    (hr : runner ∈ queue.runners) (hp : runner.phase = .created) :
    watch.record queue next (.start runner.id) = watch := by
  rw [Watch.record, created?_of_mem h.wellFormed hr hp, Option.bind_some]
  cases hj : runner.messageJid? with
  | none => rfl
  | some jid =>
      have hnot : ¬ queue.clock < watch.notBefore jid := fun hlt =>
        (h.backingOff.waits jid hlt).idle ⟨runner, hr, hj⟩
      simp only [hnot, decide_false, Bool.or_false]

-- The watch notes the retry count that the run leaves behind.
theorem counted {runner : Runner Fn} {outcome : Outcome} {count : Nat} {later : Watch}
    (h : Watched cfg queue watch) (hr : runner ∈ queue.runners)
    (hown : ((queue.freed runner outcome).groups runner.jid).retryCount = count)
    (hle : count ≤ MAX_RETRIES) (hb : BackingOff later.notBefore (queue.freed runner outcome))
    (hs : later.streak = Function.update watch.streak runner.jid count)
    (hn : later.early = watch.early) : Watched cfg (queue.freed runner outcome) later := by
  have hcount (jid : Jid) : ((queue.freed runner outcome).groups jid).retryCount =
      if jid = runner.jid then count else (queue.groups jid).retryCount := by
    split_ifs with he
    · rw [he, hown]
    · rw [Queue.freed_groups_of_ne queue jid runner outcome he]
  refine ⟨h.wellFormed.freed runner outcome, h.exclusive.freed hr outcome, hb, fun jid => ?_,
    fun jid => ?_, hn.trans h.notEarly⟩
  · rw [hcount, hs, Function.update_apply, h.streak]
  · rw [hcount]
    split_ifs
    · exact hle
    · exact h.bounded jid

-- The run fails: at the last retry the count starts again, before it one timer is set.
theorem failed {runner : Runner Fn} {outcome : Outcome} (h : Watched cfg queue watch)
    (hr : runner ∈ queue.runners) (hj : runner.messageJid? = some runner.jid)
    (hg : (queue.groups runner.jid).settled runner.job outcome = (queue.groups runner.jid).failed)
    (ht : (queue.freed runner outcome).retryTasks =
      ((queue.withoutRunner runner.id).scheduleRetry runner.jid).retryTasks) :
    Watched cfg (queue.freed runner outcome) (watch.failure runner.jid queue.clock
      ((queue.freed runner outcome).groups runner.jid).retryCount) := by
  have hstate : (queue.freed runner outcome).groups runner.jid =
      (queue.groups runner.jid).failed.released runner.job := by
    rw [Queue.freed_groups_self, hg]
  have hk := h.streak runner.jid
  have hready := h.backingOff.cleared runner.jid ⟨runner, hr, hj⟩
  by_cases hmax : MAX_RETRIES < (queue.groups runner.jid).retryCount + 1
  · have hown : ((queue.freed runner outcome).groups runner.jid).retryCount = 0 := by
      rw [hstate, GroupState.released_retryCount, GroupState.failed, if_pos hmax]
    have hsame : (watch.failure runner.jid queue.clock 0).notBefore = watch.notBefore :=
      if_neg (by rw [hk]; omega)
    rw [hown]
    refine h.counted hr hown (Nat.zero_le _) ?_ rfl rfl
    rw [hsame]
    refine h.backingOff.freed outcome h.exclusive hr hj ?_ (fun _ _ => rfl) (Or.inl ⟨rfl, rfl⟩)
    rw [ht, Queue.scheduleRetry_retryTasks]
    exact congrArg (queue.retryTasks ++ ·) (if_pos hmax)
  · have hown : ((queue.freed runner outcome).groups runner.jid).retryCount =
        (queue.groups runner.jid).retryCount + 1 := by
      rw [hstate, GroupState.released_retryCount, GroupState.failed, if_neg hmax]
    have hlater : (watch.failure runner.jid queue.clock
        ((queue.groups runner.jid).retryCount + 1)).notBefore = Function.update watch.notBefore
          runner.jid (queue.clock + BASE_RETRY_MS * 2 ^ (queue.groups runner.jid).retryCount) := by
      simp only [Watch.failure, hk]
      exact if_pos (by omega)
    rw [hown]
    refine h.counted hr hown (by omega) ?_ (by simp only [Watch.failure, hk]; rfl) rfl
    rw [hlater]
    have hadd : (queue.freed runner outcome).retryTasks = queue.retryTasks ++
        [⟨queue.nextId, runner.jid,
          queue.clock + BASE_RETRY_MS * 2 ^ (queue.groups runner.jid).retryCount⟩] := by
      rw [ht, Queue.scheduleRetry_retryTasks]
      exact congrArg (queue.retryTasks ++ ·) (if_neg hmax)
    refine h.backingOff.freed outcome h.exclusive hr hj hadd
      (fun jid hne => Function.update_of_ne hne ..) (Or.inr ⟨?_, ?_⟩)
    · rw [hstate, GroupState.retryPending_iff, GroupState.released_retryCount,
        GroupState.released_retryReady, GroupState.failed, if_neg hmax]
      exact ⟨Nat.succ_pos _, hready⟩
    · exact ⟨queue.nextId, by rw [Function.update_self]⟩

theorem freed (h : Watched cfg queue watch) {runner : Runner Fn} (hr : runner ∈ queue.runners)
    (hp : runner.phase ≠ .created) (outcome : Outcome)
    (hcount : (next.groups runner.jid).retryCount =
      ((queue.freed runner outcome).groups runner.jid).retryCount) :
    Watched cfg (queue.freed runner outcome)
      (watch.record queue next (.finish runner.id outcome)) := by
  rw [Watch.record, running?_of_mem h.wellFormed hr hp, Option.bind_some]
  obtain ⟨id, jid, job, phase⟩ := runner
  cases job with
  | task task =>
      exact h.defers (h.wellFormed.freed _ _) (h.exclusive.freed hr _) (.freed outcome rfl rfl)
  | messages reason queuedAtMs =>
      change Watched cfg _ (watch.ended jid queue.clock (next.groups jid).retryCount outcome)
      rw [hcount]
      cases outcome with
      | success =>
          refine h.counted hr ?_ (Nat.zero_le _) ?_ rfl rfl
          · rw [Queue.freed_groups_self queue ⟨id, jid, .messages reason queuedAtMs, phase⟩]
            rfl
          · exact h.backingOff.freed _ h.exclusive hr rfl (List.append_nil _).symm
              (fun _ _ => rfl) (Or.inl ⟨rfl, rfl⟩)
      | returnedFalse | raised => exact h.failed hr rfl rfl rfl
      | cancelled =>
          exact h.defers (h.wellFormed.freed _ _) (h.exclusive.freed hr _) (.freed _ rfl rfl)

theorem step (h : Watched cfg queue watch) {event : Event Fn}
    (hsafe : handoffSafe cfg queue event) (hstep : queue.step cfg event = some next) :
    Watched cfg next (watch.record queue next event) := by
  have hw := h.wellFormed.step hstep
  have he := h.exclusive.step h.wellFormed hsafe hstep
  cases Queue.step_cases hstep with
  | enqueueMessageCheck jid =>
      exact h.defers hw he (.enqueueMessageCheck false (by simp))
  | enqueueTask jid taskId fn => exact h.defers hw he (.enqueueTask taskId fn)
  | start runner hr hp =>
      rw [h.record_start hr hp]
      exact h.defers hw he ((Defers.runnerStart runner).trans (.markRunning runner.id))
  | finish runner outcome hr hp =>
      have hd : Defers (fun _ => False) (queue.freed runner outcome)
          ((queue.freed runner outcome).drainGroup cfg runner.jid) := .drainGroup
      exact (h.freed hr hp outcome (hd.count runner.jid)).defers hw he hd
  | cancelCreated runner hs =>
      exact h.defers hw he (.frame rfl rfl (fun _ => ⟨rfl, rfl⟩)
        fun _ ⟨other, ho, hj⟩ => ⟨other, List.mem_of_mem_filter ho, hj⟩)
  | retryFires timer ht hd =>
      exact h.kept hw he (h.backingOff.retryFires ht hd) (retryFires_retryCount timer.jid)
  | tick ms =>
      have hb : BackingOff watch.notBefore { queue with clock := queue.clock + ms } :=
        h.backingOff.elapse rfl rfl (List.Sublist.refl _) (Nat.le_add_right ..)
      exact h.kept hw he hb fun _ => rfl
  | shutdownSync =>
      have hb : BackingOff watch.notBefore { queue with shuttingDown := true } :=
        h.backingOff.elapse rfl rfl (List.Sublist.refl _) le_rfl
      exact h.kept hw he hb fun _ => rfl
  | shutdown =>
      have hb : BackingOff watch.notBefore { queue with shuttingDown := true, retryTasks := [] } :=
        h.backingOff.elapse rfl rfl (List.nil_sublist _) le_rfl
      exact h.kept hw he hb fun _ => rfl

end Watched

def handoffsSafe (cfg : Config) (state : Queue Fn × Watch) (event : Event Fn) : Prop :=
  handoffSafe cfg state.1 event

instance (state : Queue Fn × Watch) : DecidablePred (handoffsSafe cfg state)
  | .finish id _ => inferInstanceAs (Decidable (∀ runner ∈ state.1.runners, runner.id = id → _))
  | .enqueueMessageCheck _ | .enqueueTask .. | .start _ | .cancelCreated _ | .retryFires _
  | .tick _ | .shutdownSync | .shutdown => isTrue trivial

-- As long as _drain_waiting hands no slot to a group that has a container, backoff holds
-- in every state of the run.
theorem backoff_honoured (events : List (Event Fn))
    (hsafe : Along (watchStep cfg) (handoffsSafe cfg) ({}, {}) events) :
    Always (watchStep cfg) (fun state : Queue Fn × Watch => BackoffHonoured state.1 state.2)
      ({}, {}) events := by
  refine hsafe.always (fun state => Watched cfg state.1 state.2) ?_ (fun _ h => h.honoured) .empty
  intro state event next h hg hstep
  obtain ⟨queue, hq, rfl⟩ := Option.map_eq_some_iff.mp hstep
  exact h.step hg hq

set_option maxRecDepth 8000 in
-- "a" fails twice and is started again after 5 s and after 10 s more.
theorem backoff_honoured_twice :
    Always (watchStep ⟨1, by decide⟩)
      (fun state : Queue Unit × Watch => BackoffHonoured state.1 state.2) ({}, {})
      [.enqueueMessageCheck "a", .start 0, .finish 0 .returnedFalse, .enqueueMessageCheck "a",
        .tick 5000, .retryFires 1, .start 2, .finish 2 .raised, .tick 10000, .retryFires 3,
        .start 4, .finish 4 .success] :=
  backoff_honoured _ (by decide)

set_option maxRecDepth 8000 in
-- "b" is handed a slot while it answers messages. Both runs fail, which leaves two timers,
-- and the first of them starts "b" 5 s after its second failure.
theorem backoff_broken_by_handoff :
    ¬ Always (watchStep ⟨2, by decide⟩)
      (fun state : Queue Unit × Watch => BackoffHonoured state.1 state.2) ({}, {})
      [.enqueueMessageCheck "a", .enqueueMessageCheck "d", .enqueueMessageCheck "b", .start 0,
        .start 1, .enqueueMessageCheck "a", .finish 0 .returnedFalse, .enqueueMessageCheck "b",
        .start 3, .enqueueMessageCheck "b", .finish 1 .success, .start 4, .finish 3 .returnedFalse,
        .finish 4 .returnedFalse, .tick 5000, .retryFires 5, .start 7] := by
  intro h
  have hearly : ∀ state : Queue Unit × Watch, BackoffHonoured state.1 state.2 →
      state.2.early = false := fun _ hb => hb.notEarly
  have honTime := h.imp hearly
  exact absurd honTime (by decide)

end EvoClaw.GroupQueue
