import EvoClaw.GroupQueue.Places

namespace EvoClaw.GroupQueue

open EventSystem

variable {Fn : Type} {cfg : Config} {queue next : Queue Fn}

-- What became of the task objects. The model says nothing about `Fn`, so a function can
-- carry the identity of its task object.
structure Ledger (Fn : Type) where
  accepted : List (QueuedTask Fn) := []
  called : List (QueuedTask Fn) := []
  executed : List (QueuedTask Fn) := []

def Ledger.record (cfg : Config) (queue : Queue Fn) (ledger : Ledger Fn) : Event Fn → Ledger Fn
  | .enqueueTask jid taskId fn =>
      let task := queue.acceptedTask cfg jid taskId fn
      { ledger with accepted := ledger.accepted ++ task.toList }
  | .start id =>
      let begun := (queue.created? id).bind Runner.task?
      { ledger with called := ledger.called ++ begun.toList }
  | .finish id _ =>
      let ended := (queue.running? id).bind Runner.task?
      { ledger with executed := ledger.executed ++ ended.toList }
  | _ => ledger

def ledgerStep (cfg : Config) (state : Queue Fn × Ledger Fn) (event : Event Fn) :
    Option (Queue Fn × Ledger Fn) :=
  (state.1.step cfg event).map fun next => (next, state.2.record cfg state.1 event)

def noShutdown (_ : Queue Fn × Ledger Fn) (event : Event Fn) : Prop :=
  event ≠ .shutdownSync ∧ event ≠ .shutdown

instance [DecidableEq Fn] (state : Queue Fn × Ledger Fn) : DecidablePred (noShutdown state) :=
  fun event => inferInstanceAs (Decidable (event ≠ .shutdownSync ∧ event ≠ .shutdown))

section Conservation

variable [DecidableEq Fn] {ledger : Ledger Fn}

-- Every accepted task object is executed once or in exactly one place, and the mirrored
-- structures of the queue agree.
structure TasksConserved (queue : Queue Fn) (ledger : Ledger Fn) : Prop where
  accepted : ∀ task, ledger.accepted.count task = ledger.executed.count task +
    (queue.groups task.groupJid).pendingTasks.count task + queue.taskRuns.count task
  called : ∀ task, ledger.called.count task =
    ledger.executed.count task + queue.begunRuns.count task
  owner : ∀ jid, ∀ task ∈ (queue.groups jid).pendingTasks, task.groupJid = jid
  ids_eq : ∀ jid, (queue.groups jid).pendingTaskIds =
    ((queue.groups jid).pendingTasks.map QueuedTask.id).toFinset
  ids_nodup : ∀ jid, ((queue.groups jid).pendingTasks.map QueuedTask.id).Nodup
  waitingSet_eq : queue.waitingSet = queue.waitingGroups.toFinset
  waiting_nodup : queue.waitingGroups.Nodup
  waiting_length : queue.waitingGroups.length ≤ MAX_WAITING_GROUPS
  reachable : ∀ jid, (queue.groups jid).pendingTasks ≠ [] →
    jid ∈ queue.runnerJids ∨ jid ∈ queue.waitingGroups

-- The invariant of the run, with what the steps need besides.
structure Balanced (cfg : Config) (queue : Queue Fn) (ledger : Ledger Fn) : Prop where
  wellFormed : WellFormed cfg queue
  owned : ActiveOwned queue
  opened : queue.shuttingDown = false
  mirrored : Mirrored queue
  accepted : ∀ task, ledger.accepted.count task =
    ledger.executed.count task + queue.held task
  called : ∀ task, ledger.called.count task =
    ledger.executed.count task + queue.begunRuns.count task
  waiting_length : queue.waitingGroups.length ≤ MAX_WAITING_GROUPS
  reachable : Reachable queue

namespace Balanced

theorem empty : Balanced cfg ({} : Queue Fn) {} where
  wellFormed := .empty
  owned := .empty
  opened := rfl
  mirrored := fun _ => .empty
  accepted := fun _ => rfl
  called := fun _ => rfl
  waiting_length := Nat.zero_le _
  reachable := fun _ hne => absurd rfl hne

theorem conserved (h : Balanced cfg queue ledger) : TasksConserved queue ledger where
  accepted := by
    intro task
    rw [h.accepted, Queue.held, Nat.add_assoc]
  called := h.called
  owner := fun jid => (h.mirrored jid).owner
  ids_eq := fun jid => (h.mirrored jid).ids_eq
  ids_nodup := fun jid => (h.mirrored jid).ids_nodup
  waitingSet_eq := by
    ext jid
    rw [List.mem_toFinset, h.wellFormed.mem_waitingSet]
  waiting_nodup := h.wellFormed.waiting_nodup
  waiting_length := h.waiting_length
  reachable := h.reachable

-- A step moves task objects between the places of the queue, or adds accepted ones.
theorem moved {added : List (QueuedTask Fn)} (h : Balanced cfg queue ledger)
    (hw : WellFormed cfg next) (ho : ActiveOwned next) (hs : next.shuttingDown = false)
    (hk : Keeps added queue next) (hb : Between queue next) (hr : Reachable next) :
    Balanced cfg next { ledger with accepted := ledger.accepted ++ added } where
  wellFormed := hw
  owned := ho
  opened := hs
  mirrored := hk.mirrored
  accepted := by
    intro task
    rw [List.count_append, h.accepted, hk.held, Nat.add_assoc]
  called := by
    intro task
    rw [h.called, Queue.begunRuns, Queue.begunRuns, hb.underWay]
  waiting_length := hk.waiting_length h.waiting_length
  reachable := hr

theorem kept (h : Balanced cfg queue ledger) (hw : WellFormed cfg next) (ho : ActiveOwned next)
    (hs : next.shuttingDown = false) (hk : Keeps [] queue next) (hb : Between queue next)
    (hr : Reachable next) : Balanced cfg next ledger := by
  have hmoved := h.moved hw ho hs hk hb hr
  rwa [List.append_nil] at hmoved

theorem step (h : Balanced cfg queue ledger) {event : Event Fn}
    (hopen : event ≠ .shutdownSync ∧ event ≠ .shutdown)
    (hstep : queue.step cfg event = some next) :
    Balanced cfg next (ledger.record cfg queue event) := by
  have hw := h.wellFormed.step hstep
  have ho := h.owned.step h.wellFormed hstep
  have hs : next.shuttingDown = false :=
    (shuttingDown_eq_of_step h.wellFormed hopen.1 hopen.2 hstep).trans h.opened
  cases Queue.step_cases hstep with
  | enqueueMessageCheck jid =>
      exact h.kept hw ho hs (.enqueueMessageCheck h.mirrored false) (.enqueueMessageCheck false)
        (h.reachable.enqueueMessageCheck false)
  | enqueueTask jid taskId fn =>
      exact h.moved hw ho hs (.enqueueTask h.mirrored taskId fn) (.enqueueTask taskId fn)
        (h.reachable.enqueueTask h.wellFormed h.owned taskId fn)
  | start runner hr hp =>
      have hstart : Keeps [] queue (queue.runnerStart runner) := .runnerStart h.mirrored runner
      have hk := hstart.trans (Keeps.markRunning hstart.mirrored runner.id)
      have hbegun : ledger.record cfg queue (.start runner.id) =
          { ledger with called := ledger.called ++ runner.task?.toList } := by
        rw [Ledger.record, created?_of_mem h.wellFormed hr hp]
        rfl
      rw [hbegun]
      refine ⟨hw, ho, hs, hk.mirrored, fun task => ?_, fun task => ?_,
        hk.waiting_length h.waiting_length, h.reachable.start runner runner.id⟩
      · rw [hk.held]
        exact h.accepted task
      · have hmem : runner ∈ (queue.runnerStart runner).runners := by
          rw [runnerStart_runners]
          exact hr
        have hcount := markRunning_begunRuns (h.wellFormed.runnerStart runner) hmem hp task
        rw [Queue.begunRuns.eq_def (queue.runnerStart runner), Between.runnerStart.underWay,
          ← Queue.begunRuns] at hcount
        rw [List.count_append, hcount, h.called]
        exact Nat.add_assoc ..
  | finish runner outcome hr hp =>
      have hdrain : Keeps [] (queue.freed runner outcome)
          ((queue.freed runner outcome).drainGroup cfg runner.jid) :=
        .drainGroup (h.mirrored.freed runner outcome)
      have hended : (ledger.record cfg queue (.finish runner.id outcome)) =
          { ledger with executed := ledger.executed ++ runner.task?.toList } := by
        rw [Ledger.record, running?_of_mem h.wellFormed hr hp]
        rfl
      rw [hended]
      refine ⟨hw, ho, hs, hdrain.mirrored, fun task => ?_, fun task => ?_, ?_,
        h.reachable.finish h.wellFormed hr h.opened outcome⟩
      · rw [List.count_append, Queue.runnerFinish_eq, hdrain.held, h.accepted,
          freed_held h.wellFormed hr outcome]
        simp only [List.count_nil]
        omega
      · rw [List.count_append, Queue.runnerFinish_eq, Queue.begunRuns, Between.drainGroup.underWay,
          ← Queue.begunRuns, h.called, freed_begunRuns h.wellFormed hr hp outcome]
        omega
      · refine hdrain.waiting_length ?_
        rw [Queue.freed_waitingGroups]
        exact h.waiting_length
  | cancelCreated runner hdown =>
      rw [h.opened] at hdown
      cases hdown
  | retryFires timer =>
      have hm : Mirrored (queue.withoutTimer timer.id) := h.mirrored
      have hk : Keeps [] queue (queue.withoutTimer timer.id) := .frame h.mirrored rfl rfl id
      have hb : Between queue (queue.withoutTimer timer.id) := .frame rfl rfl
      have hr : Reachable (queue.withoutTimer timer.id) := h.reachable
      exact h.kept hw ho hs (hk.trans (.retryFires hm)) (hb.trans .retryFires) hr.retryFires
  | tick ms =>
      exact ⟨hw, ho, hs, h.mirrored, h.accepted, h.called, h.waiting_length, h.reachable⟩
  | shutdownSync => exact absurd rfl hopen.1
  | shutdown => exact absurd rfl hopen.2

end Balanced

-- Queued tasks are conserved in every state of every run without a shutdown.
theorem tasks_conserved (events : List (Event Fn))
    (hopen : Along (ledgerStep cfg) noShutdown ({}, {}) events) :
    Always (ledgerStep cfg) (fun state : Queue Fn × Ledger Fn => TasksConserved state.1 state.2)
      ({}, {}) events := by
  refine hopen.always (fun state => Balanced cfg state.1 state.2) ?_
    (fun _ h => h.conserved) .empty
  intro state event next h hg hstep
  obtain ⟨queue, hq, rfl⟩ := Option.map_eq_some_iff.mp hstep
  exact h.step hg hq

set_option maxRecDepth 4000 in
-- One slot: "t" of "a" runs, "u" is appended behind it, "v" waits with "b" parked.
theorem tasks_conserved_one_slot :
    Always (ledgerStep ⟨1, by decide⟩)
      (fun state : Queue Unit × Ledger Unit => TasksConserved state.1 state.2) ({}, {})
      [.enqueueTask "a" "t" (), .enqueueTask "b" "v" (), .enqueueTask "a" "u" (), .start 0,
        .finish 0 .success, .enqueueTask "a" "t" (), .start 1, .finish 1 .raised] :=
  tasks_conserved _ (by decide)

end Conservation

end EvoClaw.GroupQueue
