import EvoClaw.Config
import Mathlib.Data.List.Sort
import Mathlib.Logic.Function.Basic

namespace EvoClaw.MessageLoop

structure Message where
  id : String
  chatJid : Jid
  sender : String
  senderName : String
  content : String
  timestamp : Nat
  isFromMe : Bool := false
  isBotMessage : Bool := false
deriving DecidableEq

def textAt (id : String) (jid : Jid) (timestamp : Nat) : Message :=
  { id := id, chatJid := jid, sender := "u", senderName := "U", content := "hi"
    timestamp := timestamp }

-- The rows that get_new_messages can return.
def Message.fromUser (message : Message) : Bool :=
  !message.isFromMe && !message.isBotMessage

structure Group where
  jid : Jid
  folder : Folder
  requiresTrigger : Bool := true
  isMain : Bool := false
deriving DecidableEq

structure Batch where
  jid : Jid
  rows : List Message
deriving DecidableEq

-- max(m["timestamp"] for m in msgs), for a non-empty list.
def maxTimestamp (rows : List Message) : Nat :=
  (rows.map Message.timestamp).foldr max 0

-- A _process_messages_for_jid coroutine. It has no rows while its query is in the
-- worker thread.
structure Run where
  id : Nat
  jid : Jid
  cursor : Nat
  rows : Option (List Message) := none
deriving DecidableEq

-- The tables messages, registered_groups and router_state, the globals of the
-- process, and the coroutines in flight. The last two fields are history that no
-- function reads: what each query returned and the batches with on_success called.
structure Host where
  messages : List Message := []
  dbGroups : List Group := []
  stateLastTimestamp : Option Nat := none
  stateCursorJid : Jid → Option Nat := fun _ => none
  registeredGroups : List Group := []
  lastTimestamp : Nat := 0
  perJidCursors : Jid → Option Nat := fun _ => none
  inFlight : List Run := []
  nextId : Nat := 0
  fetched : List Batch := []
  delivered : List Batch := []

-- set_registered_group on the table. A folder that belongs to another jid violates
-- UNIQUE(folder) and raises, so nothing is written. A new main group demotes the others.
def upsertGroup (groups : List Group) (group : Group) : List Group :=
  let demoted := groups.map fun other =>
    if group.isMain ∧ other.jid ≠ group.jid then { other with isMain := false } else other
  if ∃ other ∈ groups, other.jid ≠ group.jid ∧ other.folder = group.folder then groups
  else if group.jid ∈ groups.map Group.jid then
    demoted.map fun other => if other.jid = group.jid then group else other
  else demoted ++ [group]

-- What /monitor and a configured MONITOR_JID register.
def monitorGroup (jid : Jid) : Group :=
  { jid := jid, folder := "discord_monitor", requiresTrigger := false, isMain := false }

-- The groups that main() loads, after it has registered the monitor group.
def startupGroups (groups : List Group) (monitorJid : Option Jid) : List Group :=
  match monitorJid with
  | none => groups
  | some jid => upsertGroup groups (monitorGroup jid)

namespace Host

-- INSERT OR IGNORE on the primary key.
def storeMessage (host : Host) (message : Message) : Host :=
  if message.id ∈ host.messages.map Message.id then host
  else { host with messages := host.messages ++ [message] }

def getNewMessages (host : Host) (jids : List Jid) (lastTimestamp : Nat) : List Message :=
  (host.messages.filter fun message =>
    message.chatJid ∈ jids ∧ lastTimestamp < message.timestamp ∧ message.fromUser = true).insertionSort
      fun first second => first.timestamp ≤ second.timestamp

def setRegisteredGroup (host : Host) (group : Group) : Host :=
  { host with dbGroups := upsertGroup host.dbGroups group }

-- _registered_groups = db.get_all_registered_groups(), as /monitor ends.
def reloadGroups (host : Host) : Host :=
  { host with registeredGroups := host.dbGroups }

def loadState (host : Host) : Host :=
  let lastTimestamp := host.stateLastTimestamp.getD host.lastTimestamp
  { host with
    lastTimestamp := lastTimestamp
    perJidCursors := fun jid =>
      if jid ∈ host.dbGroups.map Group.jid then
        some ((host.stateCursorJid jid).getD lastTimestamp)
      else host.perJidCursors jid }

-- The part of prune_old_logs that concerns messages.
def pruneOldLogs (host : Host) (cutoff : Nat) : Host :=
  { host with messages := host.messages.filter fun message => cutoff ≤ message.timestamp }

-- A new process on the old database: main() up to the start of its loops.
def restart (host : Host) (monitorJid : Option Jid) (cutoff : Nat) : Host :=
  let fresh : Host := { host with
    lastTimestamp := 0
    perJidCursors := fun _ => none
    inFlight := [] }
  let groups := startupGroups host.dbGroups monitorJid
  { fresh.loadState.pruneOldLogs cutoff with dbGroups := groups, registeredGroups := groups }

-- The refresh_groups.flag branch of _message_loop.
def refreshGroups (host : Host) : Host :=
  { host.reloadGroups with
    perJidCursors := fun jid =>
      if jid ∈ host.dbGroups.map Group.jid then
        some ((host.perJidCursors jid).getD host.lastTimestamp)
      else none }

def getGroupByJid (host : Host) (jid : Jid) : Option Group :=
  host.registeredGroups.find? fun group => group.jid = jid

-- _per_jid_cursors.get(jid, _last_timestamp)
def cursor (host : Host) (jid : Jid) : Nat :=
  (host.perJidCursors jid).getD host.lastTimestamp

def advance (host : Host) (jid : Jid) (ts : Nat) : Host :=
  let cursor := max ((host.perJidCursors jid).getD 0) ts
  let moved : Host := { host with
    perJidCursors := Function.update host.perJidCursors jid (some cursor)
    stateCursorJid := Function.update host.stateCursorJid jid (some cursor) }
  if host.lastTimestamp < ts then
    { moved with lastTimestamp := ts, stateLastTimestamp := some ts }
  else moved

def withoutRun (host : Host) (id : Nat) : Host :=
  { host with inFlight := host.inFlight.filter (·.id ≠ id) }

def run? (host : Host) (jid : Jid) (id : Nat) : Option Run :=
  host.inFlight.find? fun run => run.id = id ∧ run.jid = jid

-- _process_messages_for_jid up to the await of its query.
def startRun (host : Host) (jid : Jid) : Host :=
  { host with
    inFlight := host.inFlight ++ [{ id := host.nextId, jid := jid, cursor := host.cursor jid }]
    nextId := host.nextId + 1 }

-- The query returns. A run without rows returns True.
def fetch (host : Host) (run : Run) : Host :=
  let rows := host.getNewMessages [run.jid] run.cursor
  { host with
    inFlight := if rows = [] then host.inFlight.filter (·.id ≠ run.id)
      else host.inFlight.map fun other =>
        if other.id = run.id then { other with rows := some rows } else other
    fetched := host.fetched ++ [⟨run.jid, rows⟩] }

-- The on_success callback of a batch.
def succeed (host : Host) (run : Run) (rows : List Message) : Host :=
  { (host.withoutRun run.id).advance run.jid (maxTimestamp rows) with
    delivered := host.delivered ++ [⟨run.jid, rows⟩] }

end Host

inductive Traffic where
  | store (message : Message)
  | start (jid : Jid)
  | fetch (jid : Jid) (id : Nat)
  | succeed (jid : Jid) (id : Nat)
  | fail (jid : Jid) (id : Nat)
deriving DecidableEq

inductive Event where
  | traffic (event : Traffic)
  | registerGroup (group : Group)
  | monitorReload
  | refreshGroups
  | restart (monitorJid : Option Jid) (cutoff : Nat)
deriving DecidableEq

namespace Host

def handle (host : Host) : Traffic → Option Host
  | .store message => some (host.storeMessage message)
  | .start jid => (host.getGroupByJid jid).map fun _ => host.startRun jid
  | .fetch jid id => (host.run? jid id).bind fun run =>
      if run.rows.isNone then some (host.fetch run) else none
  | .succeed jid id => (host.run? jid id).bind fun run =>
      run.rows.map fun rows => host.succeed run rows
  | .fail jid id => (host.run? jid id).map fun _ => host.withoutRun id

def step (host : Host) : Event → Option Host
  | .traffic event => host.handle event
  | .registerGroup group => some (host.setRegisteredGroup group)
  | .monitorReload => some host.reloadGroups
  | .refreshGroups => some host.refreshGroups
  | .restart monitorJid cutoff => some (host.restart monitorJid cutoff)

end Host

end EvoClaw.MessageLoop
