import EvoClaw.GroupQueue.Attribution
import EvoClaw.GroupQueue.Backoff

namespace EvoClaw.GroupQueue

open EventSystem

variable {Fn : Type} {cfg : Config} {queue next last : Queue Fn} {jid : Jid}

-- The queue beside the groups of all calls of enqueue_message_check, and of the message runs
-- that have begun.
structure Tally (Fn : Type) where
  queue : Queue Fn := {}
  checks : List Jid := []
  begun : List Jid := []

namespace Tally

def checked : Event Fn → List Jid
  | .enqueueMessageCheck jid => [jid]
  | _ => []

def began (queue : Queue Fn) : Event Fn → List Jid
  | .start id => ((queue.created? id).bind Runner.messageJid?).toList
  | _ => []

def step (cfg : Config) (tally : Tally Fn) (event : Event Fn) : Option (Tally Fn) :=
  (tally.queue.step cfg event).map fun next =>
    ⟨next, tally.checks ++ checked event, tally.begun ++ began tally.queue event⟩

-- No call leads to more than one run and its retries.
def Bounded (tally : Tally Fn) : Prop :=
  ∀ jid, tally.begun.count jid ≤ (MAX_RETRIES + 1) * tally.checks.count jid

end Tally

namespace Queue

def timers (queue : Queue Fn) (jid : Jid) : Nat :=
  queue.retryTasks.countP fun timer => timer.jid = jid

-- The message runs of a group that wait for their first step, and those under way.
def dispatched (queue : Queue Fn) (jid : Jid) : Nat :=
  queue.runners.countP fun runner => runner.messageJid? = some jid ∧ runner.phase = .created

def answering (queue : Queue Fn) (jid : Jid) : Nat :=
  queue.runners.countP fun runner => runner.messageJid? = some jid ∧ runner.phase ≠ .created

-- A run that waits for its first step takes up the notice of the group.
def noticed (queue : Queue Fn) (jid : Jid) : Nat :=
  if (queue.groups jid).pendingMessages = true ∨ 0 < queue.dispatched jid then 1 else 0

-- How many runs the group can still begin when nobody calls for it again. What has failed so
-- far comes off.
def owed (queue : Queue Fn) (jid : Jid) : Nat :=
  (MAX_RETRIES + 1) * (queue.timers jid + queue.noticed jid) + MAX_RETRIES * queue.answering jid -
    (queue.groups jid).retryCount

theorem noticed_le_one : queue.noticed jid ≤ 1 := by
  unfold noticed
  split <;> decide

theorem noticed_of_pending (h : (queue.groups jid).pendingMessages = true) :
    queue.noticed jid = 1 :=
  if_pos (.inl h)

end Queue

namespace GroupState

-- How many retries the end of a runner schedules.
def scheduled (state : GroupState Fn) : Job Fn → Outcome → Nat
  | .messages _ _, .returnedFalse => if MAX_RETRIES < state.retryCount + 1 then 0 else 1
  | .messages _ _, .raised => if MAX_RETRIES < state.retryCount + 1 then 0 else 1
  | _, _ => 0

theorem settled_pays {state : GroupState Fn} (outcome : Outcome) (reason : String) (time : Nat)
    (hle : state.retryCount ≤ MAX_RETRIES) :
    (MAX_RETRIES + 1) * state.scheduled (.messages reason time) outcome + state.retryCount ≤
        MAX_RETRIES + (state.settled (.messages reason time) outcome).retryCount ∧
      (state.settled (.messages reason time) outcome).retryCount ≤ MAX_RETRIES := by
  cases outcome with
  | success => exact ⟨by simpa [scheduled, settled] using hle, Nat.zero_le _⟩
  | cancelled => exact ⟨by simp [scheduled, settled], hle⟩
  | returnedFalse | raised =>
      by_cases hmax : MAX_RETRIES < state.retryCount + 1
      · simp only [scheduled, settled, failed, if_pos hmax]
        exact ⟨by omega, Nat.zero_le _⟩
      · simp only [scheduled, settled, failed, if_neg hmax]
        exact ⟨by omega, by omega⟩

end GroupState

-- Apart from the notices of the groups in `free`, `next` owes no more runs than `queue`.
structure Calm (free : Jid → Prop) (queue next : Queue Fn) : Prop where
  timers : ∀ jid, next.timers jid ≤ queue.timers jid
  noticed : ∀ jid, ¬ free jid → next.noticed jid ≤ queue.noticed jid
  answering : ∀ jid, next.answering jid ≤ queue.answering jid
  retries : ∀ jid, (next.groups jid).retryCount = (queue.groups jid).retryCount

namespace Calm

variable {free : Jid → Prop}

theorem owed (h : Calm free queue next) (hfree : ¬ free jid) : next.owed jid ≤ queue.owed jid := by
  have htimers := h.timers jid
  have hnoticed := h.noticed jid hfree
  have hanswering := h.answering jid
  have hretries := h.retries jid
  unfold Queue.owed
  simp only [MAX_RETRIES]
  omega

-- A notice costs no more than a run and its retries.
theorem owed_noticed (h : Calm free queue next) :
    next.owed jid ≤ queue.owed jid + (MAX_RETRIES + 1) := by
  have htimers := h.timers jid
  have hnoticed : next.noticed jid ≤ 1 := next.noticed_le_one
  have hanswering := h.answering jid
  have hretries := h.retries jid
  unfold Queue.owed
  simp only [MAX_RETRIES]
  omega

theorem frame (htimers : next.retryTasks.Sublist queue.retryTasks)
    (hrunners : next.runners.Sublist queue.runners) (hgroups : next.groups = queue.groups) :
    Calm free queue next where
  timers _ := htimers.countP_le
  noticed jid _ := by
    have hdispatched : next.dispatched jid ≤ queue.dispatched jid := hrunners.countP_le
    unfold Queue.noticed
    rw [hgroups]
    split_ifs with hnew hold
    · exact le_rfl
    · exact absurd (hnew.imp_right fun hpos => hpos.trans_le hdispatched) hold
    · exact Nat.zero_le _
    · exact le_rfl
  answering _ := hrunners.countP_le
  retries jid := by rw [hgroups]

theorem refl (queue : Queue Fn) : Calm free queue queue :=
  frame (List.Sublist.refl _) (List.Sublist.refl _) rfl

theorem trans (h : Calm free queue next) (h' : Calm free next last) : Calm free queue last where
  timers jid := (h'.timers jid).trans (h.timers jid)
  noticed jid hfree := (h'.noticed jid hfree).trans (h.noticed jid hfree)
  answering jid := (h'.answering jid).trans (h.answering jid)
  retries jid := (h'.retries jid).trans (h.retries jid)

theorem setGroup {state : GroupState Fn} (hcount : state.retryCount = (queue.groups jid).retryCount)
    (hpending : state.pendingMessages = true →
      free jid ∨ (queue.groups jid).pendingMessages = true) :
    Calm free queue (queue.setGroup jid state) where
  timers _ := le_rfl
  noticed other hfree := by
    have hsame : (queue.setGroup jid state).dispatched other = queue.dispatched other := rfl
    unfold Queue.noticed
    rw [hsame, Queue.setGroup_groups]
    by_cases hother : other = jid
    · subst hother
      rw [if_pos rfl]
      split_ifs with hnew hold
      · exact le_rfl
      · rcases hnew with hset | hdispatched
        · exact absurd (.inl ((hpending hset).resolve_left hfree)) hold
        · exact absurd (.inr hdispatched) hold
      · exact Nat.zero_le _
      · exact le_rfl
    · rw [if_neg hother]
  answering _ := le_rfl
  retries other := by
    rw [Queue.setGroup_groups]
    split
    · next heq => rw [heq, hcount]
    · rfl

-- A message run is dispatched for a group that has a notice.
theorem launch {state : GroupState Fn} {job : Job Fn}
    (hcount : state.retryCount = (queue.groups jid).retryCount)
    (hpending : state.pendingMessages = true → (queue.groups jid).pendingMessages = true)
    (hjob : (∃ task, job = .task task) ∨ free jid ∨ (queue.groups jid).pendingMessages = true) :
    Calm free queue (queue.launch jid state job) where
  timers _ := le_rfl
  noticed other hfree := by
    by_cases hother : other = jid
    · subst hother
      rcases hjob with ⟨task, rfl⟩ | hfreed | hnotice
      · have hsame : (queue.launch other state (.task task)).dispatched other =
            queue.dispatched other := by
          simp [Queue.dispatched, Runner.messageJid?]
        unfold Queue.noticed
        rw [hsame, Queue.launch_groups_self]
        split_ifs with hnew hold
        · exact le_rfl
        · exact absurd (hnew.imp_left hpending) hold
        · exact Nat.zero_le _
        · exact le_rfl
      · exact absurd hfreed hfree
      · rw [Queue.noticed_of_pending hnotice]
        exact Queue.noticed_le_one
    · have hsame : (queue.launch jid state job).dispatched other = queue.dispatched other := by
        have hjid : ∀ runner : Runner Fn, runner.jid = jid → runner.messageJid? ≠ some other := by
          intro runner hrunner hmessages
          unfold Runner.messageJid? at hmessages
          split at hmessages
          · exact hother ((Option.some.inj hmessages).symm.trans hrunner)
          · cases hmessages
        simp [Queue.dispatched, hjid]
      unfold Queue.noticed
      rw [hsame, Queue.launch_groups, if_neg hother]
  answering other := by simp [Queue.answering]
  retries other := by
    rw [Queue.launch_groups]
    split
    · next heq => rw [heq, hcount]
    · rfl

theorem startMessages (reason : String)
    (h : free jid ∨ (queue.groups jid).pendingMessages = true) :
    Calm free queue (queue.startMessages jid reason) :=
  launch rfl id (.inr h)

theorem startTask (task : QueuedTask Fn) : Calm free queue (queue.startTask jid task) :=
  launch rfl id (.inl ⟨task, rfl⟩)

theorem park : Calm free queue (queue.park jid) :=
  frame (List.Sublist.refl _) (List.Sublist.refl _) rfl

theorem enqueueMessageCheck (fromRetry : Bool) (hfree : free jid) :
    Calm free queue (queue.enqueueMessageCheck cfg jid fromRetry) := by
  have hc := queue.enqueueMessageCheck_cases jid cfg fromRetry
  generalize queue.enqueueMessageCheck cfg jid fromRetry = next at hc ⊢
  have hmarked : Calm free queue
      (queue.setGroup jid ((queue.groups jid).markPending queue.clock)) :=
    setGroup rfl fun _ => .inl hfree
  cases hc with
  | stopped => exact refl queue
  | busy | backoff | listed | crowded => exact hmarked
  | parked => exact hmarked.trans park
  | started => exact startMessages _ (.inl hfree)

theorem enqueueTask (taskId : TaskId) (fn : Fn) :
    Calm free queue (queue.enqueueTask cfg jid taskId fn) := by
  have hc := queue.enqueueTask_cases jid cfg taskId fn
  generalize queue.enqueueTask cfg jid taskId fn = next at hc ⊢
  have hpushed : Calm free queue
      (queue.setGroup jid ((queue.groups jid).pushTask ⟨taskId, jid, fn⟩)) :=
    setGroup rfl .inr
  cases hc with
  | ignored => exact refl queue
  | notified => exact frame (List.Sublist.refl _) (List.Sublist.refl _) rfl
  | busy | listed => exact hpushed
  | parked => exact hpushed.trans park
  | started =>
      refine trans (setGroup ?_ ?_) (startTask _)
      · rfl
      · exact .inr

theorem popTask (task : QueuedTask Fn) (rest : List (QueuedTask Fn)) : Calm free queue
    ((queue.setGroup jid ((queue.groups jid).popTask task rest)).startTask jid task) := by
  refine trans (setGroup ?_ ?_) (startTask task)
  · rfl
  · exact .inr

theorem dispatchParked : Calm free queue (queue.dispatchParked jid) := by
  have hd := queue.dispatchParked_cases jid
  generalize queue.dispatchParked jid = next at hd ⊢
  cases hd with
  | task task rest => exact popTask task rest
  | messages _ hm =>
      -- the run takes the place of the notice that has been cleared for it
      unfold Queue.startMessages
      rw [KeepsTimes.launch_setGroup, Queue.setGroup_groups_self]
      exact launch rfl (by simp) (.inr (.inr hm))
  | deferred | idle => exact refl queue

theorem drainWaiting : Calm free queue (queue.drainWaiting cfg) := by
  refine Queue.drainWaiting_invariant queue (Calm free queue) (fun other parked rest h _ _ => ?_)
    (refl queue)
  have hpopped : Calm free other (other.popWaiting parked rest) :=
    frame (List.Sublist.refl _) (List.Sublist.refl _) rfl
  exact (h.trans hpopped).trans dispatchParked

theorem drainGroup : Calm free queue (queue.drainGroup cfg jid) := by
  have hd := queue.drainGroup_cases jid cfg
  generalize queue.drainGroup cfg jid = next at hd ⊢
  cases hd with
  | stopped | deferred => exact refl queue
  | task _ task rest => exact popTask task rest
  | messages _ _ hm => exact startMessages "drain" (.inr hm)
  | waiting => exact drainWaiting

end Calm

section Finish

variable {runner : Runner Fn} {outcome : Outcome}

theorem messageJid?_messages {reason : String} {time : Nat}
    (hjob : runner.job = .messages reason time) : runner.messageJid? = some runner.jid := by
  unfold Runner.messageJid?
  rw [hjob]

theorem messageJid?_task {task : QueuedTask Fn} (hjob : runner.job = .task task) :
    runner.messageJid? = none := by
  unfold Runner.messageJid?
  rw [hjob]

theorem freed_answering (hw : WellFormed cfg queue) (hr : runner ∈ queue.runners)
    (hp : runner.phase ≠ .created) : queue.answering jid =
      (queue.freed runner outcome).answering jid + if runner.messageJid? = some jid then 1 else 0 := by
  have hruns : (queue.freed runner outcome).runners = (queue.withoutRunner runner.id).runners :=
    queue.freed_runners runner outcome
  unfold Queue.answering
  rw [hruns, (perm_withoutRunner hw hr).countP_eq, List.countP_cons]
  simp [hp]

theorem freed_noticed (hw : WellFormed cfg queue) (hr : runner ∈ queue.runners)
    (hp : runner.phase ≠ .created) :
    (queue.freed runner outcome).noticed jid = queue.noticed jid := by
  have hruns : (queue.freed runner outcome).runners = (queue.withoutRunner runner.id).runners :=
    queue.freed_runners runner outcome
  have hdispatched : (queue.freed runner outcome).dispatched jid = queue.dispatched jid := by
    unfold Queue.dispatched
    rw [hruns, (perm_withoutRunner hw hr).countP_eq, List.countP_cons]
    simp [hp]
  unfold Queue.noticed
  rw [hdispatched, Queue.freed_pendingMessages]

theorem freed_timers (runner : Runner Fn) (outcome : Outcome) :
    (queue.freed runner outcome).timers jid = queue.timers jid +
      if jid = runner.jid then (queue.groups jid).scheduled runner.job outcome else 0 := by
  have hfreed : (queue.freed runner outcome).retryTasks =
      ((queue.withoutRunner runner.id).settle runner outcome).retryTasks := rfl
  have hretry : ((queue.withoutRunner runner.id).scheduleRetry runner.jid).retryTasks.countP
        (fun timer => timer.jid = jid) = queue.timers jid +
      if jid = runner.jid then
        if MAX_RETRIES < (queue.groups jid).retryCount + 1 then 0 else 1
      else 0 := by
    have hsame : (queue.withoutRunner runner.id).retryTasks = queue.retryTasks := rfl
    have hgroups : (queue.withoutRunner runner.id).groups = queue.groups := rfl
    rw [Queue.scheduleRetry_retryTasks, hsame, hgroups, List.countP_append]
    by_cases hjid : jid = runner.jid
    · subst hjid
      rw [if_pos rfl]
      split_ifs <;> simp [Queue.timers]
    · rw [if_neg hjid]
      split_ifs <;> simp [Queue.timers, Ne.symm hjid]
  have hzero : (if jid = runner.jid then 0 else 0) = 0 := ite_self 0
  unfold Queue.timers
  rw [hfreed]
  cases hjob : runner.job with
  | task task =>
      simp only [Queue.settle, GroupState.scheduled, hjob, hzero]
      rfl
  | messages reason time =>
      cases outcome with
      | success | cancelled =>
          simp only [Queue.settle, GroupState.scheduled, hjob, hzero]
          rfl
      | returnedFalse | raised =>
          simp only [Queue.settle, GroupState.scheduled, hjob]
          exact hretry

-- A run that fails pays for its retry, and a run that ends well for the new count.
theorem freed_owed (hw : WellFormed cfg queue) (hr : runner ∈ queue.runners)
    (hp : runner.phase ≠ .created) (hle : (queue.groups jid).retryCount ≤ MAX_RETRIES) :
    (queue.freed runner outcome).owed jid ≤ queue.owed jid ∧
      ((queue.freed runner outcome).groups jid).retryCount ≤ MAX_RETRIES := by
  have hanswering : queue.answering jid = (queue.freed runner outcome).answering jid +
      if runner.messageJid? = some jid then 1 else 0 := freed_answering hw hr hp
  unfold Queue.owed
  rw [hanswering, freed_noticed hw hr hp, freed_timers]
  by_cases hjid : jid = runner.jid
  · subst hjid
    rw [Queue.freed_groups_self, GroupState.released_retryCount, if_pos rfl]
    cases hjob : runner.job with
    | task task =>
        rw [messageJid?_task hjob]
        exact ⟨le_rfl, hle⟩
    | messages reason time =>
        rw [messageJid?_messages hjob, if_pos rfl]
        obtain ⟨hpays, hbound⟩ := GroupState.settled_pays outcome reason time hle
        refine ⟨?_, hbound⟩
        simp only [MAX_RETRIES] at hpays ⊢
        omega
  · have hne : runner.messageJid? ≠ some jid := by
      unfold Runner.messageJid?
      split <;> simp [Ne.symm hjid]
    rw [Queue.freed_groups_of_ne queue jid runner outcome hjid, if_neg hne, if_neg hjid]
    exact ⟨le_rfl, hle⟩

end Finish

section FirstStep

variable {runner : Runner Fn}

-- Ids are never shared, so the step of a runner changes no other one.
theorem perm_markRunning (hw : WellFormed cfg queue) (hr : runner ∈ queue.runners) :
    (queue.markRunning runner.id).runners.Perm
      ({ runner with phase := .running queue.clock } :: (queue.withoutRunner runner.id).runners) := by
  have hperm := (perm_withoutRunner hw hr).map fun other =>
    if other.id = runner.id then { other with phase := .running queue.clock } else other
  rw [List.map_cons, if_pos rfl] at hperm
  have hrest : (queue.withoutRunner runner.id).runners.map (fun other =>
      if other.id = runner.id then { other with phase := .running queue.clock } else other) =
      (queue.withoutRunner runner.id).runners := by
    refine (List.map_congr_left fun other hmem => ?_).trans (List.map_id _)
    exact if_neg (of_decide_eq_true (List.mem_filter.mp hmem).2)
  rw [hrest] at hperm
  exact hperm

theorem runnerStart_timers : (queue.runnerStart runner).retryTasks = queue.retryTasks := by
  unfold Queue.runnerStart
  split <;> rfl

theorem perm_begun (hw : WellFormed cfg queue) (hr : runner ∈ queue.runners) :
    ((queue.runnerStart runner).markRunning runner.id).runners.Perm
      ({ runner with phase := .running queue.clock } :: (queue.withoutRunner runner.id).runners) := by
  have hmem : runner ∈ (queue.runnerStart runner).runners := by
    rw [runnerStart_runners]
    exact hr
  have hperm := perm_markRunning (hw.runnerStart runner) hmem
  unfold Queue.withoutRunner at hperm ⊢
  rwa [runnerStart_clock, runnerStart_runners] at hperm

theorem begun_dispatched (hw : WellFormed cfg queue) (hr : runner ∈ queue.runners)
    (hp : runner.phase = .created) : queue.dispatched jid =
      ((queue.runnerStart runner).markRunning runner.id).dispatched jid +
        if runner.messageJid? = some jid then 1 else 0 := by
  unfold Queue.dispatched
  rw [(perm_withoutRunner hw hr).countP_eq, (perm_begun hw hr).countP_eq, List.countP_cons,
    List.countP_cons]
  simp [hp]

theorem begun_answering (hw : WellFormed cfg queue) (hr : runner ∈ queue.runners)
    (hp : runner.phase = .created) :
    ((queue.runnerStart runner).markRunning runner.id).answering jid = queue.answering jid +
      if runner.messageJid? = some jid then 1 else 0 := by
  have hsame : ({ runner with phase := .running queue.clock } : Runner Fn).messageJid? =
      runner.messageJid? := rfl
  unfold Queue.answering
  rw [(perm_withoutRunner hw hr).countP_eq, (perm_begun hw hr).countP_eq, List.countP_cons,
    List.countP_cons, hsame]
  simp [hp]

-- A runner of the group is its only one.
theorem alone (hw : WellFormed cfg queue) (he : MutualExclusion queue)
    (hr : runner ∈ queue.runners) :
    ∀ other ∈ (queue.withoutRunner runner.id).runners, other.messageJid? ≠ some runner.jid := by
  have hnodup : (queue.runners.map Runner.jid).Nodup := he
  have hperm := (perm_withoutRunner hw hr).map Runner.jid
  rw [List.map_cons] at hperm
  have hnew := (List.nodup_cons.mp (hperm.nodup_iff.mp hnodup)).1
  intro other hother hjid
  exact hnew (messageJid?_eq_some hjid ▸ List.mem_map_of_mem hother)

theorem begun_retryCount : (((queue.runnerStart runner).markRunning runner.id).groups
    jid).retryCount = (queue.groups jid).retryCount := by
  change ((queue.runnerStart runner).groups jid).retryCount = _
  unfold Queue.runnerStart
  split <;> (rw [Queue.setGroup_groups]; split) <;> simp [*]

-- A message run that begins is one of those that were owed.
theorem begun_owed (hw : WellFormed cfg queue) (he : MutualExclusion queue)
    (hr : runner ∈ queue.runners) (hp : runner.phase = .created)
    (hle : (queue.groups jid).retryCount ≤ MAX_RETRIES) :
    ((queue.runnerStart runner).markRunning runner.id).owed jid +
      (if runner.messageJid? = some jid then 1 else 0) ≤ queue.owed jid := by
  have hdispatched : queue.dispatched jid =
      ((queue.runnerStart runner).markRunning runner.id).dispatched jid +
        if runner.messageJid? = some jid then 1 else 0 := begun_dispatched hw hr hp
  have hanswering : ((queue.runnerStart runner).markRunning runner.id).answering jid =
      queue.answering jid + if runner.messageJid? = some jid then 1 else 0 :=
    begun_answering hw hr hp
  have htimers : ((queue.runnerStart runner).markRunning runner.id).timers jid =
      queue.timers jid := congrArg (List.countP _) runnerStart_timers
  unfold Queue.owed
  rw [begun_retryCount, htimers, hanswering]
  by_cases hjid : runner.messageJid? = some jid
  · rw [if_pos hjid] at hdispatched ⊢
    have hself := messageJid?_eq_some hjid
    have hlast : ((queue.runnerStart runner).markRunning runner.id).dispatched jid = 0 := by
      unfold Queue.dispatched
      rw [(perm_begun hw hr).countP_eq, List.countP_cons, List.countP_eq_zero.mpr]
      · simp
      · intro other hother
        simp [← hself, alone hw he hr other hother]
    have hcleared : (((queue.runnerStart runner).markRunning runner.id).groups
        jid).pendingMessages = false := by
      cases hjob : runner.job with
      | messages reason time => simp [Queue.runnerStart, Queue.markRunning, hjob, ← hself]
      | task task => simp [messageJid?_task hjob] at hjid
    have hnoticed : ((queue.runnerStart runner).markRunning runner.id).noticed jid = 0 := by
      simp [Queue.noticed, hlast, hcleared]
    have hnotice : queue.noticed jid = 1 := if_pos (.inr (by omega))
    rw [hnoticed, hnotice]
    simp only [MAX_RETRIES] at hle ⊢
    omega
  · rw [if_neg hjid] at hdispatched ⊢
    have hpending : (((queue.runnerStart runner).markRunning runner.id).groups
        jid).pendingMessages = (queue.groups jid).pendingMessages := by
      change ((queue.runnerStart runner).groups jid).pendingMessages = _
      cases hjob : runner.job with
      | messages reason time =>
          rw [messageJid?_messages hjob] at hjid
          have hne : jid ≠ runner.jid := fun heq => hjid (congrArg some heq.symm)
          simp [Queue.runnerStart, hjob, Queue.setGroup_groups, hne]
      | task task =>
          simp only [Queue.runnerStart, hjob, Queue.setGroup_groups]
          split
          · next heq => rw [heq]
          · rfl
    have hnoticed : ((queue.runnerStart runner).markRunning runner.id).noticed jid =
        queue.noticed jid := by
      unfold Queue.noticed
      rw [hdispatched, hpending]
      simp
    rw [hnoticed]
    simp

end FirstStep

section Retry

variable {timer : RetryTimer}

theorem timers_withoutTimer (hw : WellFormed cfg queue) (ht : timer ∈ queue.retryTasks) :
    (queue.withoutTimer timer.id).timers jid + (if timer.jid = jid then 1 else 0) ≤
      queue.timers jid := by
  have hsplit : queue.retryTasks.Perm (timer :: queue.retryTasks.erase timer) :=
    List.perm_cons_erase ht
  have hids := (hsplit.map RetryTimer.id).nodup_iff.mp hw.timers_nodup
  have hnew := (List.nodup_cons.mp hids).1
  have hfilter : (queue.retryTasks.filter (·.id ≠ timer.id)).Perm
      (queue.retryTasks.erase timer) := by
    refine (hsplit.filter _).trans ?_
    rw [List.filter_cons_of_neg (by simp), List.filter_eq_self.mpr]
    intro other hother
    have hid : other.id ≠ timer.id := fun heq => hnew (heq ▸ List.mem_map_of_mem hother)
    simpa using hid
  unfold Queue.timers
  rw [hsplit.countP_eq, List.countP_cons]
  have hsame : (queue.withoutTimer timer.id).retryTasks.countP (fun timer => timer.jid = jid) =
      (queue.retryTasks.erase timer).countP fun timer => timer.jid = jid := hfilter.countP_eq _
  rw [hsame]
  simp

theorem Calm.retryFires : Calm (· = jid) queue (queue.retryFires cfg jid) := by
  unfold Queue.retryFires
  split_ifs
  · exact refl queue
  · refine trans (setGroup ?_ ?_) (enqueueMessageCheck true rfl)
    · rfl
    · exact .inr

-- The notice that a timer leaves is worth what the timer was.
theorem fired_owed (hw : WellFormed cfg queue) (ht : timer ∈ queue.retryTasks) :
    ((queue.withoutTimer timer.id).retryFires cfg timer.jid).owed jid ≤ queue.owed jid := by
  have hleft : (queue.withoutTimer timer.id).timers jid + (if timer.jid = jid then 1 else 0) ≤
      queue.timers jid := timers_withoutTimer hw ht
  have hcalm : Calm (· = timer.jid) (queue.withoutTimer timer.id)
      ((queue.withoutTimer timer.id).retryFires cfg timer.jid) := .retryFires
  by_cases hjid : jid = timer.jid
  · have htimers := hcalm.timers jid
    have hnoticed : ((queue.withoutTimer timer.id).retryFires cfg timer.jid).noticed jid ≤ 1 :=
      Queue.noticed_le_one
    have hanswering : _ ≤ queue.answering jid := hcalm.answering jid
    have hretries : _ = (queue.groups jid).retryCount := hcalm.retries jid
    rw [if_pos hjid.symm] at hleft
    unfold Queue.owed
    simp only [MAX_RETRIES]
    omega
  · have hsame : Calm (· = timer.jid) queue (queue.withoutTimer timer.id) :=
      .frame List.filter_sublist (List.Sublist.refl _) rfl
    exact (hsame.trans hcalm).owed hjid

end Retry

-- What the groups have begun and what they still owe is paid for by the calls.
structure Solvent (cfg : Config) (tally : Tally Fn) : Prop where
  wellFormed : WellFormed cfg tally.queue
  retries : ∀ jid, (tally.queue.groups jid).retryCount ≤ MAX_RETRIES
  paid : ∀ jid, tally.begun.count jid + tally.queue.owed jid ≤
    (MAX_RETRIES + 1) * tally.checks.count jid

namespace Solvent

variable {tally after : Tally Fn}

theorem empty : Solvent cfg ({} : Tally Fn) where
  wellFormed := .empty
  retries _ := Nat.zero_le _
  paid _ := Nat.le_refl 0

theorem bounded (h : Solvent cfg tally) : tally.Bounded := fun jid =>
  (Nat.le_add_right _ _).trans (h.paid jid)

-- An event that is no call and begins no message run.
theorem quiet (h : Solvent cfg tally) (hw : WellFormed cfg next)
    (hretries : ∀ jid, (next.groups jid).retryCount ≤ MAX_RETRIES)
    (howed : ∀ jid, next.owed jid ≤ tally.queue.owed jid) :
    Solvent cfg ⟨next, tally.checks ++ [], tally.begun ++ []⟩ where
  wellFormed := hw
  retries := hretries
  paid jid := by
    simp only [List.append_nil]
    exact (Nat.add_le_add_left (howed jid) _).trans (h.paid jid)

theorem calm (h : Solvent cfg tally) (hw : WellFormed cfg next)
    (hc : Calm (fun _ => False) tally.queue next) :
    Solvent cfg ⟨next, tally.checks ++ [], tally.begun ++ []⟩ :=
  h.quiet hw (fun jid => (hc.retries jid).le.trans (h.retries jid)) fun _ => hc.owed not_false

theorem step (h : Solvent cfg tally) (he : MutualExclusion tally.queue) {event : Event Fn}
    (hstep : tally.step cfg event = some after) : Solvent cfg after := by
  obtain ⟨next, hnext, rfl⟩ := Option.map_eq_some_iff.mp hstep
  have hw := h.wellFormed.step hnext
  cases Queue.step_cases hnext with
  | enqueueMessageCheck jid =>
      have hc : Calm (· = jid) tally.queue (tally.queue.enqueueMessageCheck cfg jid false) :=
        .enqueueMessageCheck false rfl
      refine ⟨hw, fun other => (hc.retries other).le.trans (h.retries other), fun other => ?_⟩
      have hpaid := h.paid other
      simp only [Tally.checked, Tally.began, List.append_nil, List.count_append]
      by_cases hother : other = jid
      · have howed : (tally.queue.enqueueMessageCheck cfg jid false).owed other ≤
            tally.queue.owed other + (MAX_RETRIES + 1) := hc.owed_noticed
        subst hother
        rw [List.count_singleton_self, Nat.mul_add]
        omega
      · have howed := hc.owed hother
        have hnone : [jid].count other = 0 :=
          List.count_eq_zero.mpr fun hmem => hother (List.mem_singleton.mp hmem)
        rw [Nat.mul_add, hnone]
        omega
  | enqueueTask jid taskId fn => exact h.calm hw (.enqueueTask taskId fn)
  | start runner hr hp =>
      refine ⟨hw, fun jid => begun_retryCount.le.trans (h.retries jid), fun jid => ?_⟩
      have hpaid := h.paid jid
      have howed := begun_owed h.wellFormed he hr hp (h.retries jid)
      have hcount : (Tally.began tally.queue (.start runner.id)).count jid =
          if runner.messageJid? = some jid then 1 else 0 := by
        simp only [Tally.began, created?_of_mem h.wellFormed hr hp, Option.bind_some]
        cases runner.messageJid? with
        | none => rfl
        | some other => simp [List.count_singleton]
      simp only [Tally.checked, List.append_nil, List.count_append, hcount]
      omega
  | finish runner outcome hr hp _ =>
      rw [Queue.runnerFinish_eq] at hw ⊢
      have hfreed (jid : Jid) : (tally.queue.freed runner outcome).owed jid ≤ tally.queue.owed jid ∧
          ((tally.queue.freed runner outcome).groups jid).retryCount ≤ MAX_RETRIES :=
        freed_owed h.wellFormed hr hp (h.retries jid)
      have hc : Calm (fun _ => False) (tally.queue.freed runner outcome)
          ((tally.queue.freed runner outcome).drainGroup cfg runner.jid) := .drainGroup
      exact h.quiet hw (fun jid => (hc.retries jid).le.trans (hfreed jid).2) fun jid =>
        (hc.owed not_false).trans (hfreed jid).1
  | cancelCreated runner => exact h.calm hw (.frame (.refl _) List.filter_sublist rfl)
  | retryFires timer ht =>
      refine h.quiet hw (fun jid => ?_) fun jid => fired_owed h.wellFormed ht
      rw [retryFires_retryCount]
      exact h.retries jid
  | tick | shutdownSync => exact h.calm hw (.frame (.refl _) (.refl _) rfl)
  | shutdown => exact h.calm hw (.frame (List.nil_sublist _) (.refl _) rfl)

end Solvent

-- As long as no group has two runners, the message runs of a group that have begun are at most
-- six for each call of enqueue_message_check that there has been for it.
theorem runs_bounded_by_checks (events : List (Event Fn))
    (hexclusive : Always (Tally.step cfg) (fun tally => MutualExclusion tally.queue) {} events) :
    Always (Tally.step cfg) Tally.Bounded ({} : Tally Fn) events :=
  hexclusive.along_state.always (Solvent cfg) (fun _ _ _ h he hstep => h.step he hstep)
    (fun _ h => h.bounded) .empty

instance (tally : Tally Fn) : Decidable (MutualExclusion tally.queue) :=
  inferInstanceAs (Decidable tally.queue.runnerJids.Nodup)

set_option maxRecDepth 8000 in
-- One call for "a", a failure and its retry.
theorem runs_bounded_after_retry :
    Always (Tally.step ⟨1, by decide⟩) Tally.Bounded ({} : Tally Unit)
      [.enqueueMessageCheck "a", .start 0, .finish 0 .returnedFalse, .tick 5000, .retryFires 1,
        .start 2, .finish 2 .success] :=
  runs_bounded_by_checks _ (by decide)

end EvoClaw.GroupQueue
