import EvoClaw.Cooldown
import EvoClaw.EventSystem.Runs
import EvoClaw.Json
import EvoClaw.MessageLoop.Batch
import EvoClaw.Strikes
import EvoClaw.Text.Search
import Mathlib.Algebra.Order.Ring.Int

-- A group whose agent keeps failing: how often it is tried again, and what is said about it.
namespace EvoClaw.MessageLoop

open EventSystem

-- In milliseconds, as the other times.
def _ERROR_NOTIFY_COOLDOWN : Int := 300000

def _URGENT_PREFIX : List Char := "|||URGENT|||".toList

def _MONITOR_CTX_SEP : List Char := "|||MONITOR_CONTEXT|||".toList

-- The clock counts from 1970.
structure StormSettings where
  triggers : String → Bool
  containerTimeout : Nat := 1800
  monitorJid : Jid := ""
  -- _DISCORD_WEBHOOK_URL is set
  discordWebhook : Bool := false
  started : Int := _ERROR_NOTIFY_COOLDOWN
  started_late : _ERROR_NOTIFY_COOLDOWN ≤ started

section Model

-- _process_group_messages up to the agent. None is the cooldown.
def FailState.enter (fails : FailState) (jid : Jid) (now : Int) : Option FailState :=
  if fails.coolingDown jid now then none else some (fails.decay jid)

-- From the agent on. on_success may have been called before the run failed.
def FailState.leave (fails : FailState) (jid : Jid) (time : Int) (runSucceeded : Bool) :
    AgentOutcome → FailState
  | .succeeded | .raised => fails
  | .error _ => if runSucceeded then fails else fails.recordFailure jid time
  | .timedOut => fails.recordFailure jid time

def outcomeNotice (containerTimeout : Nat) (runSucceeded : Bool) : AgentOutcome → Option String
  | .succeeded | .raised => none
  | .error errLower => if runSucceeded then none else some (errorHint errLower)
  | .timedOut => some (timeoutHint containerTimeout)

-- The part for the user and the one for the monitor group.
def splitError (msg : List Char) : List Char × List Char :=
  match Text.find _MONITOR_CTX_SEP msg with
  | some i => (strip (msg.take i), strip (msg.drop (i + _MONITOR_CTX_SEP.length)))
  | none => (msg, [])

def monitorText (group : Group) (userMsg errorContext : List Char) : List Char :=
  "🔔 [".toList ++ group.folder.toList ++ "] ".toList ++ userMsg ++
    if errorContext = [] then []
    else "\n\n```\n".toList ++ errorContext.take 2000 ++ "\n```".toList

-- The calls of route_outbound by on_error.
def errorTexts (settings : StormSettings) (group : Group) (msg : List Char) :
    List (Jid × List Char) :=
  let (userMsg, errorContext) := splitError msg
  (group.jid, userMsg) ::
    if settings.monitorJid ≠ "" ∧ settings.monitorJid ≠ group.jid then
      [(settings.monitorJid, monitorText group userMsg errorContext)]
    else []

def discordNotify (settings : StormSettings) (content : List Char) : List (List Char) :=
  if settings.discordWebhook then [content.take 2000] else []

-- The posts of on_error to the Discord webhook.
def errorPosts (settings : StormSettings) (group : Group) (msg : List Char) : List (List Char) :=
  let (userMsg, errorContext) := splitError msg
  discordNotify settings
    ("⚠️ **EvoClaw Error** `[".toList ++ group.folder.toList ++ "]`\n".toList ++ userMsg ++
      if errorContext = [] then []
      else "\n```\n".toList ++ errorContext.take 1000 ++ "\n```".toList)

-- A call of _process_group_messages whose agent runs.
structure Call where
  id : Nat
  group : Group
  runSucceeded : Bool := false

-- The failure counters, _error_notify_times, the calls, and what was sent. The last two fields are
-- history: the failures of a group since it was successful or forgotten, and the errors that it
-- was told of since it was forgotten.
structure Storm where
  fails : FailState := {}
  errorNotifyTimes : List (Jid × Int) := []
  clock : Int
  running : List Call := []
  nextId : Nat := 0
  outbox : List (Jid × List Char) := []
  posts : List (List Char) := []
  streak : Jid → List Int := fun _ => []
  told : List (Jid × Int) := []

-- `forget` is the reset_group flag, and the refresh after the group was deregistered.
inductive StormEvent where
  | process (group : Group) (messages : List Message)
  | onError (id : Nat) (msg : List Char)
  | onSuccess (id : Nat)
  | ends (id : Nat) (outcome : AgentOutcome)
  | forget (jid : Jid)
  | tick (ms : Nat)

namespace Storm

def init (settings : StormSettings) : Storm := { clock := settings.started }

def call? (storm : Storm) (id : Nat) : Option Call := storm.running.find? fun call => call.id = id

def runningJids (storm : Storm) : List Jid := storm.running.map fun call => call.group.jid

def process (settings : StormSettings) (storm : Storm) (group : Group) (messages : List Message) :
    Storm :=
  match storm.fails.enter group.jid storm.clock with
  | none => storm
  | some fails =>
      if selectMessages settings.triggers group messages = [] then { storm with fails := fails }
      else
        { storm with
          fails := fails
          running := { id := storm.nextId, group := group } :: storm.running
          nextId := storm.nextId + 1 }

def onError (settings : StormSettings) (storm : Storm) (group : Group) (msg : List Char) : Storm :=
  if _URGENT_PREFIX <+: msg then
    { storm with
      outbox := storm.outbox ++ errorTexts settings group (msg.drop _URGENT_PREFIX.length)
      posts := storm.posts ++ errorPosts settings group (msg.drop _URGENT_PREFIX.length) }
  else
    let (due, times) := Cooldown.request none _ERROR_NOTIFY_COOLDOWN storm.clock
      storm.errorNotifyTimes group.jid
    { storm with
      errorNotifyTimes := times
      outbox := storm.outbox ++ if due then errorTexts settings group msg else []
      posts := storm.posts ++ if due then errorPosts settings group msg else []
      told := storm.told ++ if due then [(group.jid, storm.clock)] else [] }

-- _on_success_tracked
def onSuccess (storm : Storm) (call : Call) : Storm :=
  { storm with
    fails := storm.fails.clear call.group.jid
    running := storm.running.map fun other =>
      if other.id = call.id then { other with runSucceeded := true } else other
    streak := Function.update storm.streak call.group.jid [] }

def failed (call : Call) : AgentOutcome → Bool
  | .succeeded | .raised => false
  | .error _ => !call.runSucceeded
  | .timedOut => true

def ends (settings : StormSettings) (storm : Storm) (call : Call) (outcome : AgentOutcome) : Storm :=
  { storm with
    fails := storm.fails.leave call.group.jid storm.clock call.runSucceeded outcome
    running := storm.running.filter fun other => other.id ≠ call.id
    outbox := storm.outbox ++
      ((outcomeNotice settings.containerTimeout call.runSucceeded outcome).map fun notice =>
        (call.group.jid, notice.toList)).toList
    streak := Function.update storm.streak call.group.jid
      (storm.streak call.group.jid ++ if failed call outcome then [storm.clock] else []) }

def forget (storm : Storm) (jid : Jid) : Storm :=
  { storm with
    fails := storm.fails.clear jid
    errorNotifyTimes := storm.errorNotifyTimes.filter fun entry => entry.1 ≠ jid
    streak := Function.update storm.streak jid []
    told := storm.told.filter fun entry => entry.1 ≠ jid }

def step (settings : StormSettings) (storm : Storm) : StormEvent → Option Storm
  | .process group messages => some (storm.process settings group messages)
  | .onError id msg => (storm.call? id).map fun call => storm.onError settings call.group msg
  | .onSuccess id => (storm.call? id).map storm.onSuccess
  | .ends id outcome => (storm.call? id).map fun call => storm.ends settings call outcome
  | .forget jid => some (storm.forget jid)
  | .tick ms => some { storm with clock := storm.clock + ms }

end Storm

-- A call whose two halves follow each other at once is the one of the batch. There on_success is
-- called by a run that is successful to its end.
theorem processGroupMessages_halves (env : Env) (hlock : env.lockReady = true) (group : Group)
    (messages : List Message) (fails : FailState) :
    processGroupMessages env group messages fails =
      match fails.enter group.jid env.now with
      | none => { fails := fails }
      | some entered =>
          if selectMessages env.triggers group messages = [] then { fails := entered }
          else
            let runSucceeded : Bool := env.agent = .succeeded
            let fails := if runSucceeded then entered.clear group.jid else entered
            { fails := fails.leave group.jid env.endedAt runSucceeded env.agent
              onSuccess := runSucceeded
              raised := env.agent = .raised
              notice := outcomeNotice env.containerTimeout runSucceeded env.agent } := by
  unfold processGroupMessages FailState.enter
  rw [hlock, Bool.true_and]
  split
  · rfl
  · simp only [if_true]
    split
    · rfl
    · cases env.agent <;> simp [FailState.leave, outcomeNotice]

end Model

section Throttling

variable {settings : StormSettings} {storm next : Storm} {fails entered : FailState} {jid : Jid}
  {event : StormEvent}

-- A group is processed by one call at a time.
def Serial (storm : Storm) : StormEvent → Prop
  | .process group _ => group.jid ∉ storm.runningJids
  | _ => True

instance : DecidablePred (Serial storm)
  | .process group _ => inferInstanceAs (Decidable (group.jid ∉ storm.runningJids))
  | .onError .. | .onSuccess _ | .ends .. | .forget _ | .tick _ => isTrue trivial

-- Since any of its failures a group has failed five times, and twice for each ten minutes.
def Storm.Throttled (storm : Storm) : Prop :=
  ∀ jid first rest, first :: rest <:+ storm.streak jid →
    (first :: rest).length ≤
      _GROUP_MAX_FAILS + 2 * ((storm.clock - first) / _GROUP_FAIL_COOLDOWN_MAX).toNat

-- The smaller cooldowns belong to fewer failures than it takes to cool down.
theorem coolingDown_iff {now : Int} (hle : fails.failCount jid ≤ _GROUP_MAX_FAILS) :
    fails.coolingDown jid now = true ↔ fails.failCount jid = _GROUP_MAX_FAILS ∧
      now - (fails.timestamps jid).getD 0 < _GROUP_FAIL_COOLDOWN_MAX := by
  have hcooldown (hcount : fails.failCount jid = _GROUP_MAX_FAILS) :
      getFailCooldown ((fails.counts jid).getD 1) = _GROUP_FAIL_COOLDOWN_MAX := by
    unfold FailState.failCount at hcount
    cases hvalue : fails.counts jid with
    | none =>
        rw [hvalue] at hcount
        cases hcount
    | some count =>
        rw [hvalue, Option.getD_some] at hcount
        subst hcount
        rfl
  unfold FailState.coolingDown
  rw [Bool.and_eq_true, decide_eq_true_eq, decide_eq_true_eq]
  constructor
  · rintro ⟨hlimit, hearly⟩
    have hcount := Nat.le_antisymm hle hlimit
    rw [hcooldown hcount] at hearly
    exact ⟨hcount, hearly⟩
  · rintro ⟨hcount, hearly⟩
    rw [hcooldown hcount]
    exact ⟨hcount.ge, hearly⟩

def FailState.withGroup (fails : FailState) (jid : Jid) (count : Option Nat) (time : Option Int) :
    FailState where
  counts := Function.update fails.counts jid count
  timestamps := Function.update fails.timestamps jid time

structure Storm.FailInv (storm : Storm) : Prop where
  accounts : ∀ jid, Strikes.Accounts _GROUP_MAX_FAILS 2 (_GROUP_FAIL_COOLDOWN_MAX : Int) storm.clock
    (storm.fails.failCount jid) (storm.fails.timestamps jid) (storm.streak jid)
  count_le : ∀ jid, storm.fails.failCount jid ≤ _GROUP_MAX_FAILS
  room : ∀ jid ∈ storm.runningJids, storm.fails.failCount jid < _GROUP_MAX_FAILS
  single : storm.runningJids.Nodup

namespace Storm.FailInv

theorem init (settings : StormSettings) : (Storm.init settings).FailInv where
  accounts _ := Strikes.accounts_nil _ _ _ _ _ _
  count_le _ := Nat.zero_le _
  room _ h := nomatch h
  single := List.nodup_nil

-- The counter of one group changes.
theorem change {count : Option Nat} {time : Option Int} {times : List Int} (h : storm.FailInv)
    (hclock : next.clock = storm.clock) (hfails : next.fails = storm.fails.withGroup jid count time)
    (hstreak : next.streak = Function.update storm.streak jid times)
    (hrunning : next.runningJids.Sublist storm.runningJids)
    (haccounts : Strikes.Accounts _GROUP_MAX_FAILS 2 (_GROUP_FAIL_COOLDOWN_MAX : Int) storm.clock
      (count.getD 0) time times)
    (hcount : count.getD 0 ≤ _GROUP_MAX_FAILS)
    (hroom : jid ∈ next.runningJids → count.getD 0 < _GROUP_MAX_FAILS) : next.FailInv := by
  have hself : next.fails.failCount jid = count.getD 0 ∧ next.fails.timestamps jid = time ∧
      next.streak jid = times := by
    rw [hfails, hstreak]
    simp [FailState.failCount, FailState.withGroup]
  have hother (other : Jid) (hne : other ≠ jid) :
      next.fails.failCount other = storm.fails.failCount other ∧
        next.fails.timestamps other = storm.fails.timestamps other ∧
        next.streak other = storm.streak other := by
    rw [hfails, hstreak]
    simp [FailState.failCount, FailState.withGroup, Function.update_of_ne hne]
  refine ⟨fun other => ?_, fun other => ?_, fun other hmem => ?_, h.single.sublist hrunning⟩
  all_goals rcases eq_or_ne other jid with rfl | hne
  · rw [hclock, hself.1, hself.2.1, hself.2.2]
    exact haccounts
  · rw [hclock, (hother other hne).1, (hother other hne).2.1, (hother other hne).2.2]
    exact h.accounts other
  · rw [hself.1]
    exact hcount
  · rw [(hother other hne).1]
    exact h.count_le other
  · rw [hself.1]
    exact hroom hmem
  · rw [(hother other hne).1]
    exact h.room other (hrunning.subset hmem)

-- Who is not cooling down has room for another failure then.
theorem enter (h : storm.FailInv) (he : storm.fails.enter jid storm.clock = some entered) :
    { storm with fails := entered }.FailInv ∧ entered.failCount jid < _GROUP_MAX_FAILS := by
  unfold FailState.enter at he
  split at he
  · cases he
  · next hcool =>
      cases he
      unfold FailState.decay
      rw [coolingDown_iff (h.count_le jid)] at hcool
      split
      · next hlimit =>
          have hcount := Nat.le_antisymm (h.count_le jid) hlimit
          have hpause : ∀ time ∈ storm.fails.timestamps jid,
              (_GROUP_FAIL_COOLDOWN_MAX : Int) ≤ storm.clock - time := by
            intro time htime
            rw [Option.mem_def.mp htime] at hcool
            exact not_lt.mp fun hearly => hcool ⟨hcount, hearly⟩
          have hbelow : storm.fails.failCount jid - 2 < _GROUP_MAX_FAILS := by rw [hcount]; decide
          have hrelieved := (h.accounts jid).relieve hlimit (by rw [hcount]; decide) hbelow hpause
          refine ⟨h.change rfl rfl (Function.update_eq_self jid _).symm (List.Sublist.refl _) hrelieved
            hbelow.le fun _ => hbelow, ?_⟩
          simpa [FailState.failCount] using hbelow
      · next hbelow => exact ⟨h, Nat.lt_of_not_le hbelow⟩

theorem process (h : storm.FailInv) (group : Group) (messages : List Message)
    (hidle : group.jid ∉ storm.runningJids) : (storm.process settings group messages).FailInv := by
  unfold Storm.process
  split
  · exact h
  · next entered he =>
      obtain ⟨hentered, hroom⟩ := h.enter he
      split
      · exact hentered
      · refine { hentered with
          room := fun jid hjid => ?_
          single := List.nodup_cons.mpr ⟨hidle, h.single⟩ }
        rcases List.mem_cons.mp hjid with rfl | hold
        · exact hroom
        · exact hentered.room jid hold

theorem onSuccess (h : storm.FailInv) (call : Call) : (storm.onSuccess call).FailInv := by
  have hjids : (storm.onSuccess call).runningJids = storm.runningJids := by
    unfold Storm.onSuccess Storm.runningJids
    rw [List.map_map]
    refine List.map_congr_left fun other _ => ?_
    rw [Function.comp_apply]
    split <;> rfl
  exact h.change rfl rfl rfl (hjids ▸ List.Sublist.refl _) (Strikes.accounts_nil _ _ _ _ _ _)
    (Nat.zero_le _) fun _ => by decide

-- No other call is the group's.
theorem not_mem_rest (h : storm.FailInv) {call : Call} (hrun : call ∈ storm.running) :
    call.group.jid ∉ (storm.running.filter fun other => other.id ≠ call.id).map
      fun call => call.group.jid := by
  intro hmem
  obtain ⟨other, hother, heq⟩ := List.mem_map.mp hmem
  obtain ⟨hother, hid⟩ := List.mem_filter.mp hother
  rw [List.inj_on_of_nodup_map h.single hother hrun heq] at hid
  simp at hid

theorem ends (h : storm.FailInv) {call : Call} (hrun : call ∈ storm.running)
    (outcome : AgentOutcome) : (storm.ends settings call outcome).FailInv := by
  have hrest : ((storm.running.filter fun other => other.id ≠ call.id).map
      fun call => call.group.jid).Sublist storm.runningJids := List.filter_sublist.map _
  have hgone := h.not_mem_rest hrun
  have hsame (hleave : (storm.ends settings call outcome).fails = storm.fails)
      (hfailed : failed call outcome = false) :
      (storm.ends settings call outcome).FailInv := by
    have hstreak : (storm.ends settings call outcome).streak = storm.streak := by
      simp [Storm.ends, hfailed]
    refine ⟨fun jid => ?_, fun jid => ?_, fun jid hjid => ?_, h.single.sublist hrest⟩
    · rw [hstreak, hleave]
      exact h.accounts jid
    · rw [hleave]
      exact h.count_le jid
    · rw [hleave]
      exact h.room jid (hrest.subset hjid)
  have hfails (hleave : (storm.ends settings call outcome).fails =
      storm.fails.recordFailure call.group.jid storm.clock) (hfailed : failed call outcome = true) :
      (storm.ends settings call outcome).FailInv := by
    have hstreak : (storm.ends settings call outcome).streak = Function.update storm.streak
        call.group.jid (storm.streak call.group.jid ++ [storm.clock]) := by
      simp [Storm.ends, hfailed]
    have hmem : call.group.jid ∈ storm.runningJids := List.mem_map_of_mem hrun
    exact h.change rfl hleave hstreak hrest (h.accounts _).failure (h.room _ hmem)
      fun hagain => absurd hagain hgone
  cases outcome with
  | succeeded | raised => exact hsame rfl rfl
  | timedOut => exact hfails rfl rfl
  | error errLower =>
      cases hflag : call.runSucceeded with
      | true => exact hsame (by simp [Storm.ends, FailState.leave, hflag]) (by simp [failed, hflag])
      | false =>
          exact hfails (by simp [Storm.ends, FailState.leave, hflag]) (by simp [failed, hflag])

theorem forget (h : storm.FailInv) (jid : Jid) : (storm.forget jid).FailInv :=
  h.change rfl rfl rfl (List.Sublist.refl _) (Strikes.accounts_nil _ _ _ _ _ _) (Nat.zero_le _)
    fun _ => by decide

theorem onError (h : storm.FailInv) (group : Group) (msg : List Char) :
    (storm.onError settings group msg).FailInv := by
  unfold Storm.onError
  split <;> exact ⟨h.accounts, h.count_le, h.room, h.single⟩

theorem step (h : storm.FailInv) (hserial : Serial storm event)
    (hstep : storm.step settings event = some next) : next.FailInv := by
  cases event with
  | process group messages =>
      cases hstep
      exact h.process group messages hserial
  | onError id msg =>
      obtain ⟨call, -, rfl⟩ := Option.map_eq_some_iff.mp hstep
      exact h.onError call.group msg
  | onSuccess id =>
      obtain ⟨call, -, rfl⟩ := Option.map_eq_some_iff.mp hstep
      exact h.onSuccess call
  | ends id outcome =>
      obtain ⟨call, hcall, rfl⟩ := Option.map_eq_some_iff.mp hstep
      exact h.ends (List.mem_of_find?_eq_some hcall) outcome
  | forget jid =>
      cases hstep
      exact h.forget jid
  | tick ms =>
      cases hstep
      have hlater : storm.clock ≤ storm.clock + ms := by omega
      exact { h with accounts := fun jid => (h.accounts jid).later hlater }

theorem throttled (h : storm.FailInv) : storm.Throttled := by
  intro jid first rest hsuffix
  obtain ⟨reliefs, hlength, hpast⟩ := (h.accounts jid).bound (h.count_le jid) hsuffix
  have hmul : reliefs • (_GROUP_FAIL_COOLDOWN_MAX : Int) = reliefs * _GROUP_FAIL_COOLDOWN_MAX :=
    nsmul_eq_mul _ _
  have hpos : (0 : Int) < _GROUP_FAIL_COOLDOWN_MAX := by decide
  have hreliefs : (reliefs : Int) ≤ (storm.clock - first) / _GROUP_FAIL_COOLDOWN_MAX :=
    (Int.le_ediv_iff_mul_le hpos).mpr (le_sub_iff_add_le'.mpr (hmul ▸ hpast))
  omega

end Storm.FailInv

theorem failures_throttled (settings : StormSettings) (events : List StormEvent)
    (hserial : Along (Storm.step settings) Serial (Storm.init settings) events) :
    Always (Storm.step settings) Storm.Throttled (Storm.init settings) events :=
  hserial.always Storm.FailInv (fun _ _ _ h hserial hstep => h.step hserial hstep)
    (fun _ h => h.throttled) (.init settings)

def triggered : StormSettings := { triggers := fun _ => true, started_late := le_refl _ }

-- The second run fails ten minutes after the first one.
theorem two_timeouts_throttled :
    Always (Storm.step triggered) Storm.Throttled (Storm.init triggered)
      [.process { jid := "g", folder := "g" } [textAt "m" "g" 7], .ends 0 .timedOut, .tick 600000,
        .process { jid := "g", folder := "g" } [textAt "m" "g" 7], .ends 1 .timedOut] :=
  failures_throttled _ _ (by decide)

end Throttling

section Notices

variable {settings : StormSettings} {storm next : Storm} {event : StormEvent}

-- The errors that a group is told of are five minutes apart, and a group is told of an error if it
-- is urgent or the last one is that long ago. Then the monitor group and the webhook are told too,
-- and what is for them is not told to the group itself.
structure Speaks (settings : StormSettings) (storm : Storm) (event : StormEvent) : Prop where
  paced : storm.told.Pairwise (Cooldown.Apart _ERROR_NOTIFY_COOLDOWN)
  answered : ∀ id msg next, event = .onError id msg → storm.step settings event = some next →
    ∃ call ∈ storm.call? id, ∃ said : List (List Char),
      next.outbox = storm.outbox ++ said.flatMap (errorTexts settings call.group) ∧
      next.posts = storm.posts ++ said.flatMap (errorPosts settings call.group) ∧
      said =
        if _URGENT_PREFIX <+: msg then [msg.drop _URGENT_PREFIX.length]
        else if Cooldown.Quiet _ERROR_NOTIFY_COOLDOWN storm.clock storm.told call.group.jid then
          [msg]
        else []
  discreet : ∀ group msg, ∀ entry ∈ errorTexts settings group msg, entry.1 = group.jid →
    ¬ _MONITOR_CTX_SEP <:+: entry.2

theorem strip_isInfix (text : List Char) : strip text <:+: text := by
  unfold strip
  have hright : ((text.dropWhile isSpace).reverse.dropWhile isSpace).reverse <+:
      text.dropWhile isSpace := by
    rw [← List.reverse_suffix, List.reverse_reverse]
    exact List.dropWhile_suffix _
  exact hright.isInfix.trans (List.dropWhile_suffix _).isInfix

theorem splitError_user (msg : List Char) : ¬ _MONITOR_CTX_SEP <:+: (splitError msg).1 := by
  unfold splitError
  split
  · next i hfind =>
      intro hinfix
      obtain ⟨before, after, hbefore⟩ := hinfix.trans (strip_isInfix _)
      -- an occurrence in front of the first one
      have htext : msg = before ++ (_MONITOR_CTX_SEP ++ (after ++ msg.drop i)) := by
        rw [← List.append_assoc, ← List.append_assoc, hbefore, List.take_append_drop]
      obtain ⟨j, hj, hle⟩ := Text.find_le htext
      rw [hfind] at hj
      cases hj
      have hlength := congrArg List.length hbefore
      have htake := List.length_take_le i msg
      have hpos : 0 < _MONITOR_CTX_SEP.length := by decide
      simp only [List.length_append] at hlength
      omega
  · next hfind =>
      rintro ⟨before, after, hbefore⟩
      obtain ⟨j, hj, -⟩ := Text.find_le (hbefore.symm.trans (List.append_assoc _ _ _))
      rw [hfind] at hj
      cases hj

theorem errorTexts_discreet {group : Group} {msg : List Char} {entry : Jid × List Char}
    (hentry : entry ∈ errorTexts settings group msg) (hjid : entry.1 = group.jid) :
    ¬ _MONITOR_CTX_SEP <:+: entry.2 := by
  unfold errorTexts at hentry
  dsimp only at hentry
  rcases List.mem_cons.mp hentry with rfl | hmonitor
  · exact splitError_user msg
  · split at hmonitor
    · next hother =>
        rw [List.mem_singleton.mp hmonitor] at hjid
        exact absurd hjid hother.2
    · cases hmonitor

structure Storm.NoticeInv (storm : Storm) : Prop where
  tracks : Cooldown.Tracks none _ERROR_NOTIFY_COOLDOWN storm.clock storm.told
    storm.errorNotifyTimes
  late : _ERROR_NOTIFY_COOLDOWN ≤ storm.clock

namespace Storm.NoticeInv

theorem init (settings : StormSettings) : (Storm.init settings).NoticeInv :=
  ⟨Cooldown.tracks_nil _ _ _, settings.started_late⟩

theorem onError (h : storm.NoticeInv) (group : Group) (msg : List Char) :
    (storm.onError settings group msg).NoticeInv := by
  unfold Storm.onError
  split
  · exact ⟨h.tracks, h.late⟩
  · exact ⟨h.tracks.request, h.late⟩

theorem step (h : storm.NoticeInv) (hstep : storm.step settings event = some next) :
    next.NoticeInv := by
  cases event with
  | process group messages =>
      cases hstep
      unfold Storm.process
      split
      · exact h
      · split <;> exact ⟨h.tracks, h.late⟩
  | onError id msg =>
      obtain ⟨call, -, rfl⟩ := Option.map_eq_some_iff.mp hstep
      exact h.onError call.group msg
  | onSuccess id | ends id outcome =>
      obtain ⟨call, -, rfl⟩ := Option.map_eq_some_iff.mp hstep
      exact ⟨h.tracks, h.late⟩
  | forget jid =>
      cases hstep
      exact ⟨h.tracks.forget jid, h.late⟩
  | tick ms =>
      cases hstep
      have hlater : storm.clock ≤ storm.clock + ms := by omega
      exact ⟨h.tracks.later hlater, h.late.trans hlater⟩

theorem speaks (h : storm.NoticeInv) : Speaks settings storm event where
  paced := h.tracks.apart
  answered id msg next hevent hstep := by
    subst hevent
    obtain ⟨call, hcall, rfl⟩ := Option.map_eq_some_iff.mp hstep
    have hdue : (Cooldown.request none _ERROR_NOTIFY_COOLDOWN storm.clock storm.errorNotifyTimes
        call.group.jid).1 = true ↔ _ := h.tracks.due_iff h.late
    refine ⟨call, hcall, _, ?_, ?_, rfl⟩
    all_goals
      unfold Storm.onError
      by_cases hurgent : _URGENT_PREFIX <+: msg
      · rw [if_pos hurgent, if_pos hurgent, List.flatMap_singleton]
      · rw [if_neg hurgent, if_neg hurgent]
        simp only [hdue]
        split <;> simp
  discreet _ _ _ := errorTexts_discreet

end Storm.NoticeInv

theorem error_notices_paced (settings : StormSettings) (events : List StormEvent) :
    Along (Storm.step settings) (Speaks settings) (Storm.init settings) events := by
  have hany : Along (Storm.step settings) (fun _ _ => True) (Storm.init settings) events :=
    along_of_forall (fun _ _ => trivial) _ _
  exact hany.along Storm.NoticeInv (fun _ _ _ h _ hstep => h.step hstep) (fun _ _ h _ => h.speaks)
    (.init settings)

end Notices

end EvoClaw.MessageLoop
