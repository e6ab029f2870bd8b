import EvoClaw.EventSystem.Runs
import Mathlib.Algebra.Order.Ring.Rat
import Mathlib.Data.List.Nodup

-- The registry of host/identity/bot_registry.py.
namespace EvoClaw.Identity

def NONCE_TTL_SECS : ℚ := 300

structure BotIdentity where
  botId : String
  name : String
  displayName : String
  framework : String
  channel : String
  capabilities : List String := []
  wsEndpoint : Option String := none
  httpEndpoint : Option String := none
  publicKey : Option String := none
  registeredAt : ℚ
  lastSeen : ℚ
  trusted : Bool := false
deriving DecidableEq

-- The rows of a table bots, whose key is the id.
structure BotTable where
  rows : List BotIdentity
  distinct : (rows.map BotIdentity.botId).Nodup

inductive HandshakeStatus where
  | pending
  | completed
  | expired
deriving DecidableEq

-- A row of bot_handshakes.
structure Handshake where
  id : Nat
  initiatorBotId : String
  targetBotId : String
  status : HandshakeStatus := .pending
  initiatedAt : ℚ
  completedAt : Option ℚ := none
  nonce : String
deriving DecidableEq

abbrev Timestamps := List (String × List ℚ)

namespace Timestamps

def get (pending : Timestamps) (targetId : String) : List ℚ :=
  (pending.lookup targetId).getD []

def set (pending : Timestamps) (targetId : String) (times : List ℚ) : Timestamps :=
  match pending with
  | [] => [(targetId, times)]
  | entry :: rest =>
      if entry.1 = targetId then (targetId, times) :: rest
      else entry :: set rest targetId times

end Timestamps

structure BotRegistry where
  bots : List BotIdentity
  handshakes : List Handshake := []
  nextId : Nat := 0
  pendingHandshakes : Timestamps := []
deriving DecidableEq

namespace BotRegistry

-- INSERT ... ON CONFLICT(bot_id) DO UPDATE
def upsert (identity : BotIdentity) : List BotIdentity → List BotIdentity
  | [] => [identity]
  | bot :: rest =>
      if bot.botId = identity.botId then
        { bot with
          displayName := identity.displayName
          wsEndpoint := identity.wsEndpoint
          httpEndpoint := identity.httpEndpoint
          lastSeen := identity.lastSeen
          capabilities := identity.capabilities } :: rest
      else bot :: upsert identity rest

def register (self : BotRegistry) (identity : BotIdentity) : BotRegistry :=
  { self with bots := upsert identity self.bots }

def lookup (self : BotRegistry) (botId : String) : Option BotIdentity :=
  self.bots.find? fun bot => bot.botId = botId

-- UPDATE bots SET trusted=1 WHERE bot_id IN (...)
def setTrusted (botIds : List String) (bots : List BotIdentity) : List BotIdentity :=
  bots.map fun bot => if bot.botId ∈ botIds then { bot with trusted := true } else bot

def trust (self : BotRegistry) (botId : String) : BotRegistry × Bool :=
  ({ self with bots := setTrusted [botId] self.bots },
    self.bots.any fun bot => bot.botId = botId)

def prune (now : ℚ) (times : List ℚ) : List ℚ :=
  times.filter fun t => now - t < NONCE_TTL_SECS

-- None where the rate limit raises. The pruned list stays in any case.
def initiateHandshake (self : BotRegistry) (now : ℚ) (initiatorId targetId nonce : String) :
    BotRegistry × Option String :=
  let times := prune now (self.pendingHandshakes.get targetId)
  if 5 ≤ times.length then
    ({ self with pendingHandshakes := self.pendingHandshakes.set targetId times }, none)
  else
    ({ self with
        pendingHandshakes := self.pendingHandshakes.set targetId (times ++ [now])
        handshakes := self.handshakes ++
          [{ id := self.nextId, initiatorBotId := initiatorId, targetBotId := targetId,
             initiatedAt := now, nonce := nonce }]
        nextId := self.nextId + 1 }, some nonce)

def setStatus (id : Nat) (status : HandshakeStatus) (completedAt : Option ℚ)
    (handshakes : List Handshake) : List Handshake :=
  handshakes.map fun row =>
    if row.id = id then { row with status := status, completedAt := completedAt } else row

def findPending (self : BotRegistry) (initiatorId targetId nonce : String) : Option Handshake :=
  self.handshakes.find? fun row =>
    row.initiatorBotId = initiatorId ∧ row.targetBotId = targetId ∧ row.nonce = nonce ∧
      row.status = .pending

def completeHandshake (self : BotRegistry) (now : ℚ) (initiatorId targetId nonce : String) :
    BotRegistry × Bool :=
  match self.findPending initiatorId targetId nonce with
  | none => (self, false)
  | some row =>
      if row.initiatedAt < now - NONCE_TTL_SECS then
        ({ self with handshakes := setStatus row.id .expired row.completedAt self.handshakes },
          false)
      else
        ({ self with
            handshakes := setStatus row.id .completed (some now) self.handshakes
            bots := setTrusted [initiatorId, targetId] self.bots }, true)

def updateLastSeen (self : BotRegistry) (now : ℚ) (botId : String) : BotRegistry :=
  { self with
    bots := self.bots.map fun bot =>
      if bot.botId = botId then { bot with lastSeen := now } else bot }

def purgeStaleBots (self : BotRegistry) (now maxAgeSecs : ℚ) : BotRegistry × Nat :=
  let stale (bot : BotIdentity) : Bool := ¬ bot.trusted ∧ bot.lastSeen < now - maxAgeSecs
  ({ self with bots := self.bots.filter fun bot => ! stale bot }, self.bots.countP stale)

def purgeStaleHandshakes (self : BotRegistry) (now maxAgeSecs : ℚ) : BotRegistry × Nat :=
  let stale (row : Handshake) : Bool :=
    row.initiatedAt < now - maxAgeSecs ∧ (row.status = .completed ∨ row.status = .expired)
  ({ self with
      handshakes := self.handshakes.filter fun row => ! stale row
      pendingHandshakes := self.pendingHandshakes.filter fun entry => entry.2 ≠ [] },
    self.handshakes.countP stale)

end BotRegistry

-- A handshake that was issued, or a call that completed one.
structure Record where
  nonce : String
  initiatorId : String
  targetId : String
  time : ℚ
deriving DecidableEq

-- The registry and the last time that a call has read. `issued` and `completed` are a record of
-- the calls, in their order.
structure State where
  registry : BotRegistry
  clock : ℚ
  issued : List Record := []
  completed : List Record := []
deriving DecidableEq

inductive Event where
  | register (identity : BotIdentity)
  | trust (botId : String)
  | initiate (now : ℚ) (initiatorId targetId nonce : String)
  | complete (now : ℚ) (initiatorId targetId nonce : String)
  | updateLastSeen (now : ℚ) (botId : String)
  | purgeStaleBots (now maxAgeSecs : ℚ)
  | purgeStaleHandshakes (now maxAgeSecs : ℚ)
deriving DecidableEq

namespace State

def initiate (state : State) (now : ℚ) (initiatorId targetId nonce : String) : State :=
  let (registry, result) := state.registry.initiateHandshake now initiatorId targetId nonce
  { state with
    registry := registry
    clock := now
    issued := state.issued ++ result.toList.map fun nonce => ⟨nonce, initiatorId, targetId, now⟩ }

def complete (state : State) (now : ℚ) (initiatorId targetId nonce : String) : State :=
  let (registry, result) := state.registry.completeHandshake now initiatorId targetId nonce
  { state with
    registry := registry
    clock := now
    completed := if result then state.completed ++ [⟨nonce, initiatorId, targetId, now⟩]
      else state.completed }

end State

-- The clock does not go back, and every nonce is a new one.
def step (state : State) : Event → Option State
  | .register identity => some { state with registry := state.registry.register identity }
  | .trust botId => some { state with registry := (state.registry.trust botId).1 }
  | .initiate now initiatorId targetId nonce =>
      if state.clock ≤ now ∧ nonce ∉ state.issued.map Record.nonce then
        some (state.initiate now initiatorId targetId nonce)
      else none
  | .complete now initiatorId targetId nonce =>
      if state.clock ≤ now then some (state.complete now initiatorId targetId nonce) else none
  | .updateLastSeen now botId =>
      if state.clock ≤ now then
        some { state with registry := state.registry.updateLastSeen now botId, clock := now }
      else none
  | .purgeStaleBots now maxAgeSecs =>
      if state.clock ≤ now then
        some { state with
          registry := (state.registry.purgeStaleBots now maxAgeSecs).1, clock := now }
      else none
  | .purgeStaleHandshakes now maxAgeSecs =>
      if state.clock ≤ now then
        some { state with
          registry := (state.registry.purgeStaleHandshakes now maxAgeSecs).1, clock := now }
      else none

def initial (bots : BotTable) (clock : ℚ) : State where
  registry := { bots := bots.rows }
  clock := clock

end EvoClaw.Identity
