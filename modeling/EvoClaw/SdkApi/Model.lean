import Mathlib.Data.Finset.Card
import Mathlib.Logic.Function.Basic

namespace EvoClaw.SdkApi

-- An empty SDK_API_TOKEN is none.
structure Config where
  token : Option String
  noAuth : Bool

def MAX_CONNECTIONS : Nat := 50

-- Where the _handle_connection of a websocket stands.
inductive Handler
  | new
  -- too many connections: the error is being sent, then the socket is closed
  | rejecting
  | closingRejected
  -- admitted without a token to check: the same, with its slot taken
  | refusing
  | closingRefused
  -- within try/finally
  | serving (authenticated : Bool)
  | unauthorized
  | ended
deriving DecidableEq

-- The state of a broadcast_event. `members` is the set that it began to iterate over, and
-- `visited` has the sockets on which it called send.
inductive Broadcast (ω : Type*)
  | idle
  | sending (members visited dead : Finset ω) (ws : ω)
  -- A socket is added only once. So those that were members at the beginning and are left at
  -- the end, `whole`, were members during the whole call.
  | returned (whole visited : Finset ω)
  -- RuntimeError: Set changed size during iteration
  | raised
deriving DecidableEq

structure Server (ω β : Type*) where
  connections : Finset ω
  handlers : ω → Handler
  broadcasts : β → Broadcast ω

section Frames

variable {ω β : Type*} {server : Server ω β}

def Server.setHandler [DecidableEq ω] (server : Server ω β) (ws : ω) (handler : Handler) :
    Server ω β :=
  { server with handlers := Function.update server.handlers ws handler }

def Server.setBroadcast [DecidableEq β] (server : Server ω β) (b : β) (broadcast : Broadcast ω) :
    Server ω β :=
  { server with broadcasts := Function.update server.broadcasts b broadcast }

section

variable [DecidableEq ω] {ws other : ω} {handler : Handler}

@[simp] theorem setHandler_self : (server.setHandler ws handler).handlers ws = handler :=
  Function.update_self ..

theorem setHandler_of_ne (he : other ≠ ws) :
    (server.setHandler ws handler).handlers other = server.handlers other :=
  Function.update_of_ne he ..

@[simp] theorem setHandler_connections :
    (server.setHandler ws handler).connections = server.connections := rfl

end

section

variable [DecidableEq β] {b c : β} {broadcast : Broadcast ω}

@[simp] theorem setBroadcast_self : (server.setBroadcast b broadcast).broadcasts b = broadcast :=
  Function.update_self ..

theorem setBroadcast_of_ne (he : c ≠ b) :
    (server.setBroadcast b broadcast).broadcasts c = server.broadcasts c :=
  Function.update_of_ne he ..

end

end Frames

variable {ω β : Type*} [DecidableEq ω] [DecidableEq β] (config : Config)

inductive Event (ω β : Type*)
  -- up to the first await
  | connect (ws : ω)
  | rejectSend (ws : ω) (raised : Bool)
  | rejectClose (ws : ω)
  | refuseSend (ws : ω) (raised : Bool)
  | refuseClose (ws : ω) (raised : Bool)
  | message (ws : ω) (token : Option String)
  -- the socket is closed by the other side, an await of the loop raises, or the handler returns
  | leave (ws : ω)
  -- up to the first await; `choice` is what the iteration comes to, none at its end
  | broadcast (b : β) (choice : Option ω)
  | sent (b : β) (raised : Bool) (choice : Option ω)

-- for ws in self._connections: the iterator compares sizes first. While the set is as it was it
-- comes to each member once, and it may come to any member after a change that left the size.
def Server.iterate (server : Server ω β) (b : β) (members visited dead : Finset ω) :
    Option ω → Option (Server ω β)
  | some ws =>
      if server.connections.card ≠ members.card then some (server.setBroadcast b .raised)
      else if ws ∈ server.connections ∧ (server.connections = members → ws ∉ visited) then
        some (server.setBroadcast b (.sending members (insert ws visited) dead ws))
      else none
  | none =>
      if server.connections.card ≠ members.card then some (server.setBroadcast b .raised)
      else if server.connections = members → members ⊆ visited then
        some ({ server with connections := server.connections \ dead }.setBroadcast b
          (.returned (members ∩ server.connections) visited))
      else none

def step (server : Server ω β) : Event ω β → Option (Server ω β)
  | .connect ws =>
      match server.handlers ws with
      | .new =>
          if MAX_CONNECTIONS ≤ server.connections.card then some (server.setHandler ws .rejecting)
          else
            let admitted := { server with connections := insert ws server.connections }
            if config.token = none ∧ config.noAuth = false then
              some (admitted.setHandler ws .refusing)
            else some (admitted.setHandler ws (.serving config.token.isNone))
      | _ => none
  | .rejectSend ws raised =>
      match server.handlers ws with
      | .rejecting => some (server.setHandler ws (if raised then .ended else .closingRejected))
      | _ => none
  | .rejectClose ws =>
      match server.handlers ws with
      | .closingRejected => some (server.setHandler ws .ended)
      | _ => none
  | .refuseSend ws raised =>
      match server.handlers ws with
      | .refusing => some (server.setHandler ws (if raised then .ended else .closingRefused))
      | _ => none
  | .refuseClose ws raised =>
      match server.handlers ws with
      | .closingRefused =>
          if raised then some (server.setHandler ws .ended)
          else
            some ({ server with connections := server.connections.erase ws }.setHandler ws .ended)
      | _ => none
  | .message ws token =>
      match server.handlers ws with
      | .serving false =>
          some (server.setHandler ws (if token = config.token then .serving true else .unauthorized))
      | .serving true => some server
      | _ => none
  | .leave ws =>
      match server.handlers ws with
      | .serving _ | .unauthorized =>
          some ({ server with connections := server.connections.erase ws }.setHandler ws .ended)
      | _ => none
  | .broadcast b choice =>
      match server.broadcasts b with
      | .idle =>
          if server.connections = ∅ then some (server.setBroadcast b (.returned ∅ ∅))
          else server.iterate b server.connections ∅ ∅ choice
      | _ => none
  | .sent b raised choice =>
      match server.broadcasts b with
      | .sending members visited dead ws =>
          server.iterate b members visited (if raised then insert ws dead else dead) choice
      | _ => none

def Server.init : Server ω β where
  connections := ∅
  handlers := fun _ => .new
  broadcasts := fun _ => .idle

end EvoClaw.SdkApi
