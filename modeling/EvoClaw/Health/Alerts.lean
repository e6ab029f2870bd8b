import EvoClaw.Cooldown
import EvoClaw.EventSystem.Runs
import Mathlib.Algebra.Order.Ring.Int

-- The warnings of the health monitor on their way to the monitor group: the monitor puts alerts on
-- a queue, and the message loop takes them from it.
namespace EvoClaw.Health

open EventSystem
open Cooldown (Quiet Apart Tracks)

-- In milliseconds.
def WARNING_COOLDOWN : Int := 300000

def _ALERT_COOLDOWN_S : Int := 600000

-- The maxsize of the queue that main() makes.
def ALERT_QUEUE_SIZE : Nat := 50

inductive Level where
  | critical
  | warning
  | info
deriving DecidableEq

def Level.upper : Level → String
  | .critical => "CRITICAL"
  | .warning => "WARNING"
  | .info => "INFO"

structure Alert where
  issueKey : String
  message : String
deriving DecidableEq

def Alert.of (level : Level) (message warningId : String) : Alert where
  issueKey := warningId
  message := "🚨 [HealthMonitor] " ++ ("[" ++ ("[" ++ level.upper ++ "] " ++ message) ++ "]")

-- `clock` is both datetime.now() of the monitor and time.time() of the queue: that the two run
-- together and neither goes back, also where daylight saving time ends, is assumed. `sent` is what
-- route_outbound is called with. The last four fields are history: the warnings
-- that were logged, the alerts that their cooldown let pass, and those that were put on the queue
-- and taken from it.
structure Bus where
  lastWarnings : List (String × Int) := []
  alertLastSent : List (String × Int) := []
  alertQueue : List Alert := []
  monitorJid : String := ""
  clock : Int
  sent : List (String × String) := []
  logged : List (String × Int) := []
  due : List (String × Int) := []
  accepted : List Alert := []
  taken : List Alert := []

-- Some check of a cycle finds something, the message loop empties the queue, and /monitor sets
-- the group.
inductive BusEvent where
  | sendWarning (level : Level) (message warningId : String)
  | drain
  | setMonitor (jid : String)
  | tick (ms : Nat)

namespace Bus

def shouldSendWarning (bus : Bus) (warningId : String) : Bool :=
  match Keyed.valueAt bus.lastWarnings warningId with
  | none => true
  | some last => WARNING_COOLDOWN ≤ bus.clock - last

def enqueueAlert (bus : Bus) (alert : Alert) : Bus :=
  let (due, times) := Cooldown.request none _ALERT_COOLDOWN_S bus.clock bus.alertLastSent
    alert.issueKey
  let put := if due ∧ bus.alertQueue.length < ALERT_QUEUE_SIZE then [alert] else []
  { bus with
    alertLastSent := times
    alertQueue := bus.alertQueue ++ put
    due := bus.due ++ if due then [(alert.issueKey, bus.clock)] else []
    accepted := bus.accepted ++ put }

def sendWarning (bus : Bus) (level : Level) (message warningId : String) : Bus :=
  if bus.shouldSendWarning warningId then
    { bus.enqueueAlert (.of level message warningId) with
      lastWarnings := Keyed.amend 0 bus.lastWarnings warningId fun _ => bus.clock
      logged := bus.logged ++ [(warningId, bus.clock)] }
  else bus

def drain (bus : Bus) : Bus :=
  { bus with
    alertQueue := []
    taken := bus.taken ++ bus.alertQueue
    sent := bus.sent ++
      if bus.monitorJid = "" then []
      else bus.alertQueue.map fun alert => (bus.monitorJid, alert.message) }

def step (bus : Bus) : BusEvent → Option Bus
  | .sendWarning level message warningId => some (bus.sendWarning level message warningId)
  | .drain => some bus.drain
  | .setMonitor jid => some { bus with monitorJid := jid }
  | .tick ms => some { bus with clock := bus.clock + ms }

end Bus

section Delivery

variable {bus next : Bus} {event : BusEvent}

-- The queue loses nothing, doubles nothing and keeps the order, it is never longer than its size,
-- and what becomes of a warning depends on the ones before it.
structure Delivers (bus : Bus) (event : BusEvent) : Prop where
  conserved : bus.accepted = bus.taken ++ bus.alertQueue
  bounded : bus.alertQueue.length ≤ ALERT_QUEUE_SIZE
  ordered : (bus.sent.map Prod.snd).Sublist (bus.accepted.map Alert.message)
  logged : bus.logged.Pairwise (Apart WARNING_COOLDOWN)
  alerted : bus.due.Pairwise (Apart _ALERT_COOLDOWN_S)
  answered : ∀ level message warningId next, event = .sendWarning level message warningId →
    bus.step event = some next →
      next.logged = bus.logged ++
        (if Quiet WARNING_COOLDOWN bus.clock bus.logged warningId then [(warningId, bus.clock)]
        else []) ∧
      next.accepted = bus.accepted ++
        if Quiet WARNING_COOLDOWN bus.clock bus.logged warningId ∧
            Quiet _ALERT_COOLDOWN_S bus.clock bus.due warningId ∧
            bus.alertQueue.length < ALERT_QUEUE_SIZE then [.of level message warningId] else []

structure Bus.Inv (bus : Bus) : Prop where
  conserved : bus.accepted = bus.taken ++ bus.alertQueue
  bounded : bus.alertQueue.length ≤ ALERT_QUEUE_SIZE
  ordered : (bus.sent.map Prod.snd).Sublist (bus.taken.map Alert.message)
  warnings : Tracks none WARNING_COOLDOWN bus.clock bus.logged bus.lastWarnings
  alerts : Tracks none _ALERT_COOLDOWN_S bus.clock bus.due bus.alertLastSent
  late : _ALERT_COOLDOWN_S ≤ bus.clock

-- A kind without a warning counts as one whose warning is long ago.
theorem request_warning (hlate : _ALERT_COOLDOWN_S ≤ bus.clock) (warningId : String) :
    Cooldown.request none WARNING_COOLDOWN bus.clock bus.lastWarnings warningId =
      if bus.shouldSendWarning warningId then
        (true, Keyed.amend 0 bus.lastWarnings warningId fun _ => bus.clock)
      else (false, bus.lastWarnings) := by
  have hzero : WARNING_COOLDOWN ≤ bus.clock - 0 := by
    rw [sub_zero]
    exact (by decide : WARNING_COOLDOWN ≤ _ALERT_COOLDOWN_S).trans hlate
  have hfull : ¬ Cooldown.Full none bus.lastWarnings := by
    rintro ⟨most, hmost, -⟩
    cases hmost
  unfold Cooldown.request Bus.shouldSendWarning
  cases hvalue : Keyed.valueAt bus.lastWarnings warningId with
  | none => rw [Option.getD_none, if_pos hzero, if_neg hfull, if_pos rfl]
  | some last => simp only [Option.getD_some, decide_eq_true_eq, if_neg hfull]

namespace Bus.Inv

theorem init (start : Int) (hlate : _ALERT_COOLDOWN_S ≤ start) : ({ clock := start } : Bus).Inv where
  conserved := rfl
  bounded := Nat.zero_le _
  ordered := List.Sublist.refl _
  warnings := Cooldown.tracks_nil _ _ _
  alerts := Cooldown.tracks_nil _ _ _
  late := hlate

theorem should_iff (h : bus.Inv) (warningId : String) : bus.shouldSendWarning warningId = true ↔
    Quiet WARNING_COOLDOWN bus.clock bus.logged warningId := by
  have hzero := (by decide : WARNING_COOLDOWN ≤ _ALERT_COOLDOWN_S).trans h.late
  have hdue : (Cooldown.request none WARNING_COOLDOWN bus.clock bus.lastWarnings warningId).1 =
      true ↔ _ := h.warnings.due_iff hzero
  rw [request_warning h.late] at hdue
  rw [← hdue]
  cases bus.shouldSendWarning warningId <;> simp

theorem enqueueAlert (h : bus.Inv) (alert : Alert) : (bus.enqueueAlert alert).Inv := by
  refine { h with conserved := ?_, bounded := ?_, alerts := h.alerts.request }
  · exact (congrArg (· ++ _) h.conserved).trans (List.append_assoc _ _ _)
  · unfold Bus.enqueueAlert
    dsimp only
    rw [List.length_append]
    split
    · next hput => exact Nat.succ_le_of_lt hput.2
    · exact h.bounded

theorem sendWarning (h : bus.Inv) (level : Level) (message warningId : String) :
    (bus.sendWarning level message warningId).Inv := by
  unfold Bus.sendWarning
  split
  · next hshould =>
      have hwarnings : Tracks none WARNING_COOLDOWN bus.clock
          (bus.logged ++ if (Cooldown.request none WARNING_COOLDOWN bus.clock bus.lastWarnings
            warningId).1 then [(warningId, bus.clock)] else [])
          (Cooldown.request none WARNING_COOLDOWN bus.clock bus.lastWarnings warningId).2 :=
        h.warnings.request
      rw [request_warning h.late, if_pos hshould] at hwarnings
      have henqueued := h.enqueueAlert (.of level message warningId)
      exact { henqueued with warnings := hwarnings }
  · exact h

theorem drain (h : bus.Inv) : bus.drain.Inv where
  conserved := by rw [Bus.drain, List.append_nil, h.conserved]
  bounded := Nat.zero_le _
  ordered := by
    unfold Bus.drain
    rw [List.map_append, List.map_append]
    refine h.ordered.append ?_
    split
    · exact List.nil_sublist _
    · rw [List.map_map]
      exact List.Sublist.refl _
  warnings := h.warnings
  alerts := h.alerts
  late := h.late

theorem step (h : bus.Inv) (hstep : bus.step event = some next) : next.Inv := by
  cases event with
  | sendWarning level message warningId =>
      cases hstep
      exact h.sendWarning level message warningId
  | drain =>
      cases hstep
      exact h.drain
  | setMonitor jid =>
      cases hstep
      exact ⟨h.conserved, h.bounded, h.ordered, h.warnings, h.alerts, h.late⟩
  | tick ms =>
      cases hstep
      have hlater : bus.clock ≤ bus.clock + ms := by omega
      exact { h with
        warnings := h.warnings.later hlater
        alerts := h.alerts.later hlater
        late := h.late.trans hlater }

theorem answered (h : bus.Inv) (level : Level) (message warningId : String) :
    (bus.sendWarning level message warningId).logged = bus.logged ++
        (if Quiet WARNING_COOLDOWN bus.clock bus.logged warningId then [(warningId, bus.clock)]
        else []) ∧
      (bus.sendWarning level message warningId).accepted = bus.accepted ++
        if Quiet WARNING_COOLDOWN bus.clock bus.logged warningId ∧
            Quiet _ALERT_COOLDOWN_S bus.clock bus.due warningId ∧
            bus.alertQueue.length < ALERT_QUEUE_SIZE then [.of level message warningId] else [] := by
  have hdue : (Cooldown.request none _ALERT_COOLDOWN_S bus.clock bus.alertLastSent warningId).1 =
      true ↔ _ := h.alerts.due_iff h.late
  unfold Bus.sendWarning
  split
  · next hshould =>
      rw [h.should_iff] at hshould
      refine ⟨by rw [if_pos hshould], ?_⟩
      simp only [hshould, true_and, ← hdue]
      rfl
  · next hshould =>
      rw [h.should_iff] at hshould
      simp [hshould]

theorem delivers (h : bus.Inv) : Delivers bus event where
  conserved := h.conserved
  bounded := h.bounded
  ordered := by
    rw [h.conserved, List.map_append]
    exact h.ordered.trans (List.sublist_append_left _ _)
  logged := h.warnings.apart
  alerted := h.alerts.apart
  answered level message warningId next hevent hstep := by
    subst hevent
    cases hstep
    exact h.answered level message warningId

end Bus.Inv

-- The clock counts from 1970.
theorem alerts_delivered (start : Int) (hlate : _ALERT_COOLDOWN_S ≤ start)
    (events : List BusEvent) : Along Bus.step Delivers { clock := start } events := by
  have hany : Along Bus.step (fun _ _ => True) { clock := start } events :=
    along_of_forall (fun _ _ => trivial) _ _
  exact hany.along Bus.Inv (fun _ _ _ h _ hstep => h.step hstep) (fun _ _ h _ => h.delivers)
    (.init start hlate)

theorem second_alert_delivered :
    Along Bus.step Delivers { clock := 600000 }
      [.setMonitor "tg:1", .sendWarning .critical "50 tasks pending" "container_queue",
        .sendWarning .warning "12 tasks pending" "container_queue", .drain, .tick 600000,
        .sendWarning .warning "12 tasks pending" "container_queue", .drain] :=
  alerts_delivered 600000 (by decide) _

end Delivery

end EvoClaw.Health
