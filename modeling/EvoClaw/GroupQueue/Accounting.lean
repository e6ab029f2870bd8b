import EvoClaw.GroupQueue.Runners

namespace EvoClaw.GroupQueue

open EventSystem

variable {Fn : Type} {cfg : Config} {queue next : Queue Fn} {jid : Jid}

-- Each unfinished runner holds one slot, and the slots held are within the limit.
structure Accounted (cfg : Config) (queue : Queue Fn) : Prop where
  count_eq : queue.activeCount = queue.runners.length
  count_nonneg : 0 ≤ queue.activeCount
  count_le : queue.activeCount ≤ cfg.MAX_CONCURRENT_CONTAINERS

-- No runner is cancelled before its first step: its coroutine always reaches `finally`.
def startedFirst (_ : Queue Fn) : Event Fn → Prop
  | .cancelCreated _ => False
  | _ => True

instance (queue : Queue Fn) : DecidablePred (startedFirst queue)
  | .cancelCreated _ => isFalse id
  | .enqueueMessageCheck _ | .enqueueTask .. | .start _ | .finish .. | .retryFires _ | .tick _
  | .shutdownSync | .shutdown => isTrue trivial

-- The slots that no unfinished runner accounts for.
def Queue.unowned (queue : Queue Fn) : Int :=
  queue.activeCount - queue.runners.length

section Unowned

theorem launch_unowned (state : GroupState Fn) (job : Job Fn) :
    (queue.launch jid state job).unowned = queue.unowned := by
  simp only [Queue.unowned, Queue.launch_activeCount, Queue.launch_runners, List.length_append,
    List.length_singleton]
  omega

theorem enqueueMessageCheck_unowned (fromRetry : Bool) :
    (queue.enqueueMessageCheck cfg jid fromRetry).unowned = queue.unowned := by
  have hc := queue.enqueueMessageCheck_cases jid cfg fromRetry
  generalize queue.enqueueMessageCheck cfg jid fromRetry = next at hc ⊢
  cases hc with
  | stopped | busy | backoff | listed | parked | crowded => rfl
  | started => exact launch_unowned _ _

theorem enqueueTask_unowned (taskId : TaskId) (fn : Fn) :
    (queue.enqueueTask cfg jid taskId fn).unowned = queue.unowned := by
  have hc := queue.enqueueTask_cases jid cfg taskId fn
  generalize queue.enqueueTask cfg jid taskId fn = next at hc ⊢
  cases hc with
  | ignored | notified | busy | listed | parked => rfl
  | started => exact launch_unowned _ _

theorem dispatchParked_unowned : (queue.dispatchParked jid).unowned = queue.unowned := by
  have hd := queue.dispatchParked_cases jid
  generalize queue.dispatchParked jid = next at hd ⊢
  cases hd with
  | task | messages => exact launch_unowned _ _
  | deferred | idle => rfl

theorem drainGroup_unowned : (queue.drainGroup cfg jid).unowned = queue.unowned := by
  have hd := queue.drainGroup_cases jid cfg
  generalize queue.drainGroup cfg jid = next at hd ⊢
  cases hd with
  | stopped | deferred => rfl
  | task | messages => exact launch_unowned _ _
  | waiting =>
      apply queue.drainWaiting_invariant fun drained => drained.unowned = queue.unowned
      · intro drained parked rest hd _ _
        rw [dispatchParked_unowned]
        exact hd
      · rfl

-- A runner that ends takes itself and its slot away: its id is no other runner's.
theorem freed_unowned (hw : WellFormed cfg queue) {runner : Runner Fn}
    (hr : runner ∈ queue.runners) (outcome : Outcome) :
    (queue.freed runner outcome).unowned = queue.unowned := by
  have hlength := (perm_withoutRunner hw hr).length_eq
  rw [List.length_cons] at hlength
  have hruns : (queue.freed runner outcome).runners = (queue.withoutRunner runner.id).runners :=
    queue.freed_runners runner outcome
  simp only [Queue.unowned, Queue.freed_activeCount, hruns]
  omega

theorem runnerStart_unowned (runner : Runner Fn) :
    (queue.runnerStart runner).unowned = queue.unowned := by
  unfold Queue.runnerStart
  split <;> rfl

theorem markRunning_unowned (id : Nat) : (queue.markRunning id).unowned = queue.unowned := by
  simp only [Queue.unowned, Queue.markRunning, List.length_map]

theorem retryFires_unowned : (queue.retryFires cfg jid).unowned = queue.unowned := by
  unfold Queue.retryFires
  split_ifs
  · rfl
  · exact enqueueMessageCheck_unowned true

theorem step_unowned (hw : WellFormed cfg queue) {event : Event Fn}
    (hfirst : startedFirst queue event) (hstep : queue.step cfg event = some next) :
    next.unowned = queue.unowned := by
  cases Queue.step_cases hstep with
  | enqueueMessageCheck => exact enqueueMessageCheck_unowned false
  | enqueueTask _ taskId fn => exact enqueueTask_unowned taskId fn
  | start runner => exact (markRunning_unowned _).trans (runnerStart_unowned runner)
  | finish runner outcome hr =>
      rw [Queue.runnerFinish_eq, drainGroup_unowned]
      exact freed_unowned hw hr outcome
  | cancelCreated => exact hfirst.elim
  | retryFires => exact retryFires_unowned
  | tick | shutdownSync | shutdown => rfl

end Unowned

section Stopped

-- Shutting down, no operation of the queue starts a runner.
theorem step_stopped (hs : queue.shuttingDown = true) {event : Event Fn}
    (hstep : queue.step cfg event = some next) :
    next.shuttingDown = true ∧ next.activeCount ≤ queue.activeCount ∧
      (next.runners.map Runner.id).Sublist (queue.runners.map Runner.id) := by
  cases Queue.step_cases hstep with
  | enqueueMessageCheck jid =>
      simp only [Queue.enqueueMessageCheck, hs, if_true]
      exact ⟨trivial, le_rfl, List.Sublist.refl _⟩
  | enqueueTask jid taskId fn =>
      simp only [Queue.enqueueTask, hs, if_true]
      exact ⟨trivial, le_rfl, List.Sublist.refl _⟩
  | start runner =>
      unfold Queue.runnerStart
      split
      · exact ⟨hs, le_rfl, by rw [Queue.markRunning_ids]; exact List.Sublist.refl _⟩
      · exact ⟨hs, le_rfl, by rw [Queue.markRunning_ids]; exact List.Sublist.refl _⟩
  | finish runner outcome hr =>
      rw [Queue.runnerFinish_eq]
      have hstopped : (queue.freed runner outcome).shuttingDown = true := by
        rw [Queue.freed_shuttingDown, hs]
      simp only [Queue.drainGroup, hstopped, if_true]
      refine ⟨trivial, ?_, ?_⟩
      · rw [Queue.freed_activeCount]
        omega
      · rw [Queue.freed_runners]
        exact List.filter_sublist.map _
  | cancelCreated runner => exact ⟨hs, le_rfl, List.filter_sublist.map _⟩
  | retryFires timer =>
      have hstopped : (queue.withoutTimer timer.id).shuttingDown = true := hs
      simp only [Queue.retryFires, hstopped, if_true]
      exact ⟨trivial, le_rfl, List.Sublist.refl _⟩
  | tick => exact ⟨hs, le_rfl, List.Sublist.refl _⟩
  | shutdownSync | shutdown => exact ⟨rfl, le_rfl, List.Sublist.refl _⟩

theorem run_stopped {events : List (Event Fn)} {final : Queue Fn}
    (hs : queue.shuttingDown = true) (hrun : run (Queue.step cfg) queue events = some final) :
    final.activeCount ≤ queue.activeCount ∧
      (final.runners.map Runner.id).Sublist (queue.runners.map Runner.id) := by
  have hfinal := run_invariant
    (fun later : Queue Fn => later.shuttingDown = true ∧ later.activeCount ≤ queue.activeCount ∧
      (later.runners.map Runner.id).Sublist (queue.runners.map Runner.id))
    (fun later event next ⟨hl, hcount, hids⟩ hstep => by
      obtain ⟨hn, hcount', hids'⟩ := step_stopped hl hstep
      exact ⟨hn, hcount'.trans hcount, hids'.trans hids⟩)
    ⟨hs, le_rfl, List.Sublist.refl _⟩ hrun
  exact hfinal.2

end Stopped

theorem accounted_of_unowned (hw : WellFormed cfg queue) (hu : queue.unowned = 0) :
    Accounted cfg queue := by
  unfold Queue.unowned at hu
  exact ⟨by omega, by omega, hw.count_le⟩

-- The counter is the number of unfinished runners, within the limit, in every state of a
-- run, and from the shutdown on it only falls.
theorem activeCount_accounted (events later : List (Event Fn))
    (hfirst : Along (Queue.step cfg) startedFirst {} (events ++ later)) :
    Always (Queue.step cfg) (Accounted cfg) {} (events ++ later) ∧
      ∀ queue final, run (Queue.step cfg) {} events = some queue → queue.shuttingDown = true →
        run (Queue.step cfg) queue later = some final →
        final.activeCount ≤ queue.activeCount ∧
          (final.runners.map Runner.id).Sublist (queue.runners.map Runner.id) := by
  constructor
  · exact hfirst.always (fun queue => WellFormed cfg queue ∧ queue.unowned = 0)
      (fun queue event next ⟨hw, hu⟩ hg hstep =>
        ⟨hw.step hstep, (step_unowned hw hg hstep).trans hu⟩)
      (fun queue ⟨hw, hu⟩ => accounted_of_unowned hw hu)
      ⟨.empty, rfl⟩
  · intro queue final _ hs hrun
    exact run_stopped hs hrun

set_option maxRecDepth 4000 in
-- "a" holds the one slot through a shutdown, gives it back, and "b" never gets it.
theorem accounted_shutdown :
    Along (Queue.step ⟨1, by decide⟩) startedFirst ({} : Queue Unit)
      ([.enqueueMessageCheck "a", .enqueueMessageCheck "b", .start 0, .shutdownSync] ++
        [.enqueueMessageCheck "c", .finish 0 .returnedFalse]) ∧
    Always (Queue.step ⟨1, by decide⟩) (Accounted ⟨1, by decide⟩) ({} : Queue Unit)
      ([.enqueueMessageCheck "a", .enqueueMessageCheck "b", .start 0, .shutdownSync] ++
        [.enqueueMessageCheck "c", .finish 0 .returnedFalse]) :=
  ⟨by decide, (activeCount_accounted
    [.enqueueMessageCheck "a", .enqueueMessageCheck "b", .start 0, .shutdownSync]
    [.enqueueMessageCheck "c", .finish 0 .returnedFalse] (by decide)).1⟩

end EvoClaw.GroupQueue
