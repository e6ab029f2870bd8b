import EvoClaw.GroupQueue.Lemmas
import EvoClaw.MessageLoop.Lemmas
import Mathlib.Data.List.Infix

namespace EvoClaw.MessageLoop

open GroupQueue (Queue Outcome Runner MAX_RETRIES)

def _GROUP_MAX_FAILS : Nat := 5

-- Seconds of the source are milliseconds here.
def _GROUP_FAIL_COOLDOWN_BASE : Nat := 60000

def _GROUP_FAIL_COOLDOWN_MAX : Nat := 600000

def getFailCooldown (failCount : Nat) : Nat :=
  min (_GROUP_FAIL_COOLDOWN_BASE * 2 ^ (failCount - 1)) _GROUP_FAIL_COOLDOWN_MAX

-- _group_fail_counts and _group_fail_timestamps.
structure FailState where
  counts : Jid → Option Nat := fun _ => none
  timestamps : Jid → Option Int := fun _ => none

-- How run_container_agent ends: on_success was called, it returned an error status
-- with this lower-cased detail, the backstop timeout fired, or it raised.
inductive AgentOutcome where
  | succeeded
  | error (errLower : List Char)
  | timedOut
  | raised
deriving DecidableEq

-- What one call meets: the clock before and after the agent, whether main() has made
-- the lock, CONTAINER_TIMEOUT, TRIGGER_PATTERN.search and the agent.
structure Env where
  now : Int
  endedAt : Int
  lockReady : Bool := true
  containerTimeout : Nat := 1800
  triggers : String → Bool
  agent : AgentOutcome

namespace FailState

variable (fails : FailState) (jid : Jid)

def failCount : Nat :=
  (fails.counts jid).getD 0

def coolingDown (now : Int) : Bool :=
  decide (_GROUP_MAX_FAILS ≤ fails.failCount jid) &&
    decide (now - (fails.timestamps jid).getD 0 < getFailCooldown ((fails.counts jid).getD 1))

-- The cooldown has expired.
def decay : FailState :=
  if _GROUP_MAX_FAILS ≤ fails.failCount jid then
    { counts := Function.update fails.counts jid (some (fails.failCount jid - 2))
      timestamps := Function.update fails.timestamps jid none }
  else fails

def recordFailure (time : Int) : FailState where
  counts := Function.update fails.counts jid (some (fails.failCount jid + 1))
  timestamps := Function.update fails.timestamps jid (some time)

def clear : FailState where
  counts := Function.update fails.counts jid none
  timestamps := Function.update fails.timestamps jid none

end FailState

-- A group that is not the main one and requires the trigger only sees triggering messages.
def selectMessages (triggers : String → Bool) (group : Group) (messages : List Message) :
    List Message :=
  if group.requiresTrigger && !group.isMain then
    messages.filter fun message => triggers message.content
  else messages

def errorHint (errLower : List Char) : String :=
  if "json".toList <:+: errLower ∨ "parse".toList <:+: errLower then
    "⚠️ AI 回應格式異常，將自動重試，無需任何操作。"
  else if "no output".toList <:+: errLower ∨ "marker".toList <:+: errLower then
    "⚠️ AI 執行時中斷，將自動重試，無需任何操作。"
  else "⚠️ 系統暫時發生問題，請稍後重新傳送訊息。"

def timeoutHint (containerTimeout : Nat) : String :=
  let mins := containerTimeout / 60
  let display := if 0 < mins then toString mins ++ " 分鐘" else toString containerTimeout ++ " 秒"
  "⏱️ 請求超過 " ++ display ++ " 仍未完成，系統將自動重試，請稍候。"

-- What _process_group_messages leaves behind.
structure GroupResult where
  fails : FailState
  onSuccess : Bool := false
  raised : Bool := false
  notice : Option String := none

def processGroupMessages (env : Env) (group : Group) (messages : List Message)
    (fails : FailState) : GroupResult :=
  if env.lockReady && fails.coolingDown group.jid env.now then { fails := fails }
  else
    let fails := if env.lockReady then fails.decay group.jid else fails
    let messages := selectMessages env.triggers group messages
    if messages = [] then { fails := fails }
    else match env.agent with
      | .succeeded => { fails := fails.clear group.jid, onSuccess := true }
      | .error errLower =>
          { fails := fails.recordFailure group.jid env.endedAt, notice := some (errorHint errLower) }
      | .timedOut =>
          { fails := fails.recordFailure group.jid env.endedAt
            notice := some (timeoutHint env.containerTimeout) }
      | .raised => { fails := fails, raised := true }

-- What the callback of GroupQueue does with a batch, and how its coroutine ends.
structure BatchResult where
  host : Host
  fails : FailState
  outcome : Outcome
  notice : Option String

-- _process_messages_for_jid after its query has returned the rows.
def processBatch (env : Env) (host : Host) (run : Run) (rows : List Message) (group : Group)
    (fails : FailState) : BatchResult :=
  let result := processGroupMessages env group rows fails
  { host := if result.onSuccess then host.succeed run rows else host.withoutRun run.id
    fails := result.fails
    outcome := if result.raised then .raised
      else if result.onSuccess then .success else .returnedFalse
    notice := result.notice }

section Retries

variable {Fn : Type} {queue : Queue Fn} {jid : Jid}

theorem scheduleRetry_counts (h : (queue.groups jid).retryCount < MAX_RETRIES) :
    ((queue.scheduleRetry jid).groups jid).retryCount = (queue.groups jid).retryCount + 1 ∧
      (queue.scheduleRetry jid).notices = queue.notices := by
  rw [Queue.scheduleRetry, if_neg (by omega)]
  exact ⟨by simp [Queue.setGroup], rfl⟩

-- A batch that keeps returning False is given up with a notice at the sixth time.
theorem repeated_retries_notify (count : Nat)
    (h : (queue.groups jid).retryCount + count = MAX_RETRIES) :
    ((fun queue : Queue Fn => queue.scheduleRetry jid)^[count + 1] queue).notices =
      queue.notices ++ [.retryExceeded jid] := by
  induction count generalizing queue with
  | zero =>
      simp only [Function.iterate_succ, Function.iterate_zero, Function.comp_apply, id_eq]
      rw [Queue.scheduleRetry, if_pos (by omega)]
  | succ count ih =>
      have hbelow : (queue.groups jid).retryCount < MAX_RETRIES := by omega
      obtain ⟨hcount, hnotices⟩ := scheduleRetry_counts hbelow
      rw [Function.iterate_succ_apply, ih (by omega), hnotices]

end Retries

-- The batch counts as done: the callback returned True, the cursor passed the batch, and
-- the queue neither sets a retry timer nor gives up with a notice.
def BatchDone {Fn : Type} (queue : Queue Fn) (runner : Runner Fn) (rows : List Message)
    (jid : Jid) (result : BatchResult) : Prop :=
  result.outcome = .success ∧ maxTimestamp rows ≤ result.host.cursor jid ∧
    (queue.settle runner result.outcome).retryTasks = queue.retryTasks ∧
    (queue.settle runner result.outcome).notices = queue.notices

theorem settle_success {Fn : Type} (queue : Queue Fn) (runner : Runner Fn) :
    (queue.settle runner .success).retryTasks = queue.retryTasks ∧
      (queue.settle runner .success).notices = queue.notices := by
  unfold Queue.settle
  cases runner.job with
  | messages | task => exact ⟨rfl, rfl⟩

theorem selectMessages_eq_nil {triggers : String → Bool} {group : Group} {rows : List Message}
    (hrows : rows ≠ []) : selectMessages triggers group rows = [] ↔
      group.requiresTrigger = true ∧ group.isMain = false ∧
        ∀ message ∈ rows, triggers message.content = false := by
  unfold selectMessages
  split_ifs with h
  · simp only [Bool.and_eq_true, Bool.not_eq_true'] at h
    simp [h, List.filter_eq_nil_iff]
  · simp only [Bool.and_eq_true, Bool.not_eq_true', not_and] at h
    exact iff_of_false hrows fun hc => h hc.1 hc.2.1

theorem succeed_cursor_ge (host : Host) (run : Run) (rows : List Message) :
    maxTimestamp rows ≤ (host.succeed run rows).cursor run.jid := by
  have hentry : (host.succeed run rows).perJidCursors run.jid =
      some (max ((host.perJidCursors run.jid).getD 0) (maxTimestamp rows)) :=
    Host.advance_cursor_self _
  rw [Host.cursor, hentry]
  exact le_max_right _ _

-- A batch of a group that is not cooling down, whose agent run did not fail, is done
-- exactly when it gets an agent run: the filter that leaves nothing counts as a failure.
theorem batchDone_iff_selected {Fn : Type} (queue : Queue Fn) (runner : Runner Fn) (env : Env)
    (host : Host) (run : Run) (rows : List Message) (group : Group) (fails : FailState)
    (hjid : run.jid = group.jid) (hrows : rows ≠ [])
    (hcool : env.lockReady = true → fails.coolingDown group.jid env.now = false)
    (hagent : selectMessages env.triggers group rows ≠ [] → env.agent = .succeeded) :
    BatchDone queue runner rows group.jid (processBatch env host run rows group fails) ↔
      group.requiresTrigger = false ∨ group.isMain = true ∨
        ∃ message ∈ rows, env.triggers message.content = true := by
  have hwarm : (env.lockReady && fails.coolingDown group.jid env.now) = false := by
    cases hl : env.lockReady with
    | false => rfl
    | true => exact hcool hl
  have hcond : (group.requiresTrigger = false ∨ group.isMain = true ∨
      ∃ message ∈ rows, env.triggers message.content = true) ↔
      selectMessages env.triggers group rows ≠ [] := by
    rw [Ne, selectMessages_eq_nil hrows]
    constructor
    · rintro (h | h | ⟨message, hm, h⟩) ⟨hr, hmain, hnone⟩
      · rw [h] at hr
        cases hr
      · rw [h] at hmain
        cases hmain
      · rw [hnone message hm] at h
        cases h
    · intro h
      by_contra hnot
      push Not at hnot
      refine h ⟨by simpa using hnot.1, by simpa using hnot.2.1, fun message hm => ?_⟩
      simpa using hnot.2.2 message hm
  rw [hcond]
  by_cases hs : selectMessages env.triggers group rows = []
  · refine iff_of_false (fun hdone => ?_) (not_not_intro hs)
    have houtcome := hdone.1
    simp [processBatch, processGroupMessages, hwarm, hs] at houtcome
  · refine iff_of_true ?_ hs
    have houtcome : (processBatch env host run rows group fails).outcome = .success := by
      simp [processBatch, processGroupMessages, hwarm, hs, hagent hs]
    have hhost : (processBatch env host run rows group fails).host = host.succeed run rows := by
      simp [processBatch, processGroupMessages, hwarm, hs, hagent hs]
    refine ⟨houtcome, ?_, ?_⟩
    · rw [hhost, ← hjid]
      exact succeed_cursor_ge host run rows
    · rw [houtcome]
      exact settle_success queue runner

section OneBatch

def groupRun : Run := { id := 0, jid := "g", cursor := 0, rows := some [textAt "m" "g" 7] }

-- No message of the batch triggers.
def silentEnv : Env := { now := 0, endedAt := 0, triggers := fun _ => false, agent := .succeeded }

theorem main_group_batch_done :
    BatchDone ({} : Queue Unit) ⟨0, "g", .messages "messages" 1, .running 1⟩ [textAt "m" "g" 7] "g"
      (processBatch silentEnv {} groupRun [textAt "m" "g" 7]
        { jid := "g", folder := "g", isMain := true } {}) :=
  (batchDone_iff_selected _ _ silentEnv {} groupRun _
    { jid := "g", folder := "g", isMain := true } {} rfl (by decide) (fun _ => rfl)
    (fun _ => rfl)).mpr (Or.inr (Or.inl rfl))

-- The same batch of a group that requires the trigger comes back as a failure.
theorem untriggered_batch_retried :
    ¬ BatchDone ({} : Queue Unit) ⟨0, "g", .messages "messages" 1, .running 1⟩
      [textAt "m" "g" 7] "g"
      (processBatch silentEnv {} groupRun [textAt "m" "g" 7] { jid := "g", folder := "g" } {}) := by
  intro hdone
  exact absurd hdone.1 (by decide)

end OneBatch

end EvoClaw.MessageLoop
