import EvoClaw.EventSystem.Runs
import Mathlib.Logic.Function.Basic

-- The routing table of host/ws_bridge.py.
namespace EvoClaw.Bridge

def MAX_CONNECTIONS : Nat := 100

-- What a handler knows of its connection. A connection is open until one side closes it or its
-- handler gives up, and the handler reads messages until it gives up or cleans up.
structure Connection where
  agentId : Option String := none
  authenticated : Bool
  isOpen : Bool := true
  serving : Bool := true
deriving DecidableEq

-- Absent fields are empty. Only the type "heartbeat" has to do with the routing.
structure Message where
  token : String := ""
  type : String
  agentId : String := ""
deriving DecidableEq

-- Websockets by agent, as a dictionary.
abbrev Routes := List (String × Nat)

namespace Routes

def set (routes : Routes) (agentId : String) (websocket : Nat) : Routes :=
  match routes with
  | [] => [(agentId, websocket)]
  | route :: rest =>
      if route.1 = agentId then (agentId, websocket) :: rest
      else route :: set rest agentId websocket

def del (routes : Routes) (agentId : String) : Routes :=
  routes.filter fun route => route.1 ≠ agentId

end Routes

-- `heartbeats` is a record of the heartbeats handled so far, the last one first.
structure State where
  connections : Routes := []
  handlers : Nat → Option Connection := fun _ => none
  nextId : Nat := 0
  heartbeats : List (String × Nat) := []

inductive Event where
  | connects
  | receives (websocket : Nat) (message : Message)
  | closes (websocket : Nat)
  | fails (websocket : Nat)
  | cleans (websocket : Nat)
deriving DecidableEq

namespace Connection

-- The connection after the token and the agent's id of a message were looked at, none where the
-- token is wrong. The id is locked to the first one that is not empty.
def authenticate (token : String) (connection : Connection) (message : Message) : Option Connection :=
  if connection.authenticated ∨ message.token = token then
    some { connection with
      authenticated := true
      agentId :=
        match connection.agentId with
        | some agentId => some agentId
        | none => if message.agentId = "" then none else some message.agentId }
  else none

-- The agent that the message is a heartbeat of.
def beats (token : String) (connection : Connection) (message : Message) : Option String :=
  if message.type = "heartbeat" then (connection.authenticate token message).bind Connection.agentId
  else none

def giveUp (connection : Connection) : Connection :=
  { connection with isOpen := false, serving := false }

end Connection

namespace State

def setHandler (state : State) (websocket : Nat) (connection : Option Connection) : State :=
  { state with handlers := Function.update state.handlers websocket connection }

def isOpen (state : State) (websocket : Nat) : Bool :=
  match state.handlers websocket with
  | none => false
  | some connection => connection.isOpen

def connect (token : String) (state : State) : State :=
  if MAX_CONNECTIONS ≤ state.connections.length then { state with nextId := state.nextId + 1 }
  else
    { state.setHandler state.nextId (some { authenticated := token = "" }) with
      nextId := state.nextId + 1 }

def receive (token : String) (state : State) (websocket : Nat) (connection : Connection)
    (message : Message) : State :=
  match connection.authenticate token message with
  | none => state.setHandler websocket (some connection.giveUp)
  | some admitted =>
      match connection.beats token message with
      | none => state.setHandler websocket (some admitted)
      | some agentId =>
          { state.setHandler websocket (some admitted) with
            connections := state.connections.set agentId websocket
            heartbeats := (agentId, websocket) :: state.heartbeats }

-- The finally block.
def clean (state : State) (websocket : Nat) (connection : Connection) : State :=
  { state.setHandler websocket none with
    connections :=
      match connection.agentId with
      | none => state.connections
      | some agentId => state.connections.del agentId }

-- send_task, with what the websocket says to the payload.
def sendTask (state : State) (agentId : String) (accepts : Nat → Bool) : Bool :=
  match state.connections.lookup agentId with
  | none => false
  | some websocket => accepts websocket

end State

def step (token : String) (state : State) : Event → Option State
  | .connects => some (state.connect token)
  | .receives websocket message =>
      match state.handlers websocket with
      | none => none
      | some connection =>
          if connection.serving then some (state.receive token websocket connection message)
          else none
  | .closes websocket =>
      match state.handlers websocket with
      | none => none
      | some connection =>
          if connection.isOpen then
            some (state.setHandler websocket (some { connection with isOpen := false }))
          else none
  | .fails websocket =>
      match state.handlers websocket with
      | none => none
      | some connection =>
          if connection.serving then some (state.setHandler websocket (some connection.giveUp))
          else none
  | .cleans websocket =>
      match state.handlers websocket with
      | none => none
      | some connection =>
          if connection.isOpen then none else some (state.clean websocket connection)

end EvoClaw.Bridge
