import EvoClaw.EventSystem.Runs
import Mathlib.Data.Rat.Defs
import Mathlib.Algebra.Order.Ring.Rat
import Mathlib.Logic.Function.Basic

namespace EvoClaw.LeaderElection

abbrev InstanceId := String

-- LEADER_HEARTBEAT_INTERVAL and LEADER_LEASE_TIMEOUT, in seconds, of an enabled election.
structure Config where
  HEARTBEAT_INTERVAL : Int := 10
  LEASE_TIMEOUT : Int := 30

namespace Config

-- _LEASE_TIMEOUT after the guard of the module.
def leaseTimeout (config : Config) : ℚ :=
  if config.LEASE_TIMEOUT ≤ config.HEARTBEAT_INTERVAL then 3 * config.HEARTBEAT_INTERVAL
  else config.LEASE_TIMEOUT

-- asyncio.sleep returns at once for a delay that is not positive.
def heartbeatSleep (config : Config) : ℚ := max config.HEARTBEAT_INTERVAL 0

end Config

def DB_OP_TIMEOUT : ℚ := 5

def MAX_CONSECUTIVE_HEARTBEAT_FAILURES : Nat := 3

-- The one row of the table leader_election. Nothing looks at its acquired_at.
structure Row where
  instanceId : InstanceId
  heartbeatAt : ℚ
deriving DecidableEq

-- A statement with the time that its instance has measured for it.
inductive Statement where
  | acquire (now : ℚ)
  | heartbeat (now : ℚ)
  | delete
deriving DecidableEq

-- The row after a statement of the instance, and whether its rowcount is positive.
def Statement.execute (config : Config) (id : InstanceId) (row : Option Row) :
    Statement → Option Row × Bool
  | .acquire now =>
      match row with
      | none => (some ⟨id, now⟩, true)
      | some held =>
          if held.heartbeatAt < now - config.leaseTimeout then (some ⟨id, now⟩, true)
          else (row, false)
  | .heartbeat now =>
      match row with
      | none => (none, false)
      | some held => if held.instanceId = id then (some ⟨id, now⟩, true) else (row, false)
  | .delete =>
      match row with
      | none => (none, false)
      | some held => if held.instanceId = id then (none, true) else (row, false)

-- Where the coroutines of an instance are: before or between attempts of acquire(), in an
-- attempt begun at `now` (with the outcome of its statement, once that has taken effect),
-- asleep in _heartbeat_loop until `wake`, in a heartbeat, or demoted or released.
inductive Phase where
  | standby
  | acquiring (now : ℚ) (executed : Option Bool)
  | sleeping (wake : ℚ)
  | beating (now : ℚ) (executed : Option Bool)
  | stopped
deriving DecidableEq

-- `late` are the statements whose attempt is over while their thread still waits.
structure Instance where
  phase : Phase := .standby
  failures : Nat := 0
  late : List Statement := []
deriving DecidableEq

-- The property is_leader.
def Instance.isLeader (self : Instance) : Bool :=
  match self.phase with
  | .sleeping _ | .beating _ _ => true
  | .standby | .acquiring _ _ | .stopped => false

-- The statement of the attempt that has not taken effect.
def Phase.pending : Phase → List Statement
  | .acquiring now none => [.acquire now]
  | .beating now none => [.heartbeat now]
  | _ => []

-- Until when the instance stays in its phase at most.
def Phase.limit : Phase → Option ℚ
  | .acquiring now _ => some (now + DB_OP_TIMEOUT)
  | .beating now _ => some (now + DB_OP_TIMEOUT)
  | .sleeping wake => some wake
  | .standby => none
  | .stopped => none

structure State where
  clock : ℚ := 0
  row : Option Row := none
  instances : InstanceId → Instance := fun _ => {}

def State.set (state : State) (id : InstanceId) (self : Instance) : State :=
  { state with instances := Function.update state.instances id self }

inductive Event where
  | acquireStarts (id : InstanceId)
  | heartbeatStarts (id : InstanceId)
  | executes (id : InstanceId)
  | reports (id : InstanceId)
  | fails (id : InstanceId)
  | timesOut (id : InstanceId)
  | lateExecutes (id : InstanceId)
  | lateFails (id : InstanceId)
  | release (id : InstanceId)
  | tick (seconds : ℚ)
deriving DecidableEq

namespace Instance

variable (config : Config) (self : Instance) (clock : ℚ)

-- What the instance does once its statement has been reported with its rowcount.
def reported : Option Instance :=
  match self.phase with
  | .acquiring _ (some true) =>
      some { self with phase := .sleeping (clock + config.heartbeatSleep) }
  | .acquiring _ (some false) => some { self with phase := .standby }
  | .beating _ (some true) =>
      some { self with phase := .sleeping (clock + config.heartbeatSleep), failures := 0 }
  | .beating _ (some false) => some { self with phase := .stopped, failures := 0 }
  | _ => none

-- What it does when the attempt raises.
def failed : Option Instance :=
  match self.phase with
  | .acquiring _ _ => some { self with phase := .standby }
  | .beating _ _ =>
      if MAX_CONSECUTIVE_HEARTBEAT_FAILURES ≤ self.failures + 1 then
        some { self with phase := .stopped, failures := self.failures + 1 }
      else some
        { self with
          phase := .sleeping (clock + config.heartbeatSleep)
          failures := self.failures + 1 }
  | _ => none

-- After the timeout the thread goes on with a statement that has not taken effect.
def timedOut : Option Instance :=
  if self.phase.limit = some clock then
    (self.failed config clock).map fun next =>
      { next with late := self.late ++ self.phase.pending }
  else none

-- release(): the instance is no leader before its row is deleted.
def released : Option Instance :=
  if self.isLeader then
    some { self with phase := .stopped, late := self.late ++ self.phase.pending ++ [.delete] }
  else none

end Instance

namespace State

variable (config : Config) (state : State) (id : InstanceId)

-- The statements of one connection take effect in their order.
def execute : Option State :=
  let self := state.instances id
  match self.late, self.phase with
  | [], .acquiring now none =>
      let (row, changed) := (Statement.acquire now).execute config id state.row
      some ({ state with row := row }.set id { self with phase := .acquiring now (some changed) })
  | [], .beating now none =>
      let (row, changed) := (Statement.heartbeat now).execute config id state.row
      some ({ state with row := row }.set id { self with phase := .beating now (some changed) })
  | _, _ => none

def executeLate : Option State :=
  let self := state.instances id
  match self.late with
  | [] => none
  | statement :: rest => some
      ({ state with row := (statement.execute config id state.row).1 }.set id
        { self with late := rest })

end State

-- One step of a deployment whose instances are `members`. A heartbeat begins when its sleep
-- is over, and time does not pass the end of a sleep or the timeout of an attempt.
def step (config : Config) (members : List InstanceId) (state : State) : Event → Option State
  | .acquireStarts id =>
      let self := state.instances id
      if id ∈ members ∧ self.phase = .standby then
        some (state.set id { self with phase := .acquiring state.clock none })
      else none
  | .heartbeatStarts id =>
      let self := state.instances id
      if self.phase = .sleeping state.clock then
        some (state.set id { self with phase := .beating state.clock none })
      else none
  | .executes id => state.execute config id
  | .reports id => ((state.instances id).reported config state.clock).map (state.set id)
  | .fails id => ((state.instances id).failed config state.clock).map (state.set id)
  | .timesOut id => ((state.instances id).timedOut config state.clock).map (state.set id)
  | .lateExecutes id => state.executeLate config id
  | .lateFails id =>
      let self := state.instances id
      if self.late = [] then none else some (state.set id { self with late := self.late.tail })
  | .release id => ((state.instances id).released).map (state.set id)
  | .tick seconds =>
      if 0 ≤ seconds ∧ ∀ id ∈ members, ∀ limit ∈ (state.instances id).phase.limit,
          state.clock + seconds ≤ limit then
        some { state with clock := state.clock + seconds }
      else none

def AtMostOneLeader (state : State) : Prop :=
  ∀ id other, (state.instances id).isLeader = true → (state.instances other).isLeader = true →
    id = other

end EvoClaw.LeaderElection
