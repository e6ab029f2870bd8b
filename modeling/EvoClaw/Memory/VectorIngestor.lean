import EvoClaw.Memory.Tables
import Mathlib.Data.List.Sort

namespace EvoClaw.Memory

open Sqlite

-- The id is that of the warm log. The columns are TEXT and keep its decimal text.
structure VecMemory where
  memoryId : Nat
  agentId : String
  scope : String
  project : String
  content : String
  createdAt : ℚ
deriving DecidableEq

structure VecEmbedding where
  memoryId : Nat
  embedding : List ℚ
deriving DecidableEq

structure VecTables where
  vecMemories : List VecMemory
  vecIndex : List VecEmbedding
deriving DecidableEq

-- An entry of _pending_embed.
structure Item where
  memoryId : Nat
  content : String
  agentId : String
  scope : String
  project : String
deriving DecidableEq

-- A row that get_unvectorized_warm_logs returns.
structure Entry where
  id : Nat
  jid : String
  content : String
  createdAt : ℚ
deriving DecidableEq

-- memory_id is the primary key of vec_memories, and vec_index has none.
def VecTables.insertMemory (tables : VecTables) (item : Item) (now : ℚ) : VecTables :=
  { tables with
    vecMemories := tables.vecMemories.filter (fun row => row.memoryId ≠ item.memoryId) ++
      [{ memoryId := item.memoryId, agentId := item.agentId, scope := item.scope,
         project := item.project, content := item.content, createdAt := now }] }

def VecTables.insertEmbedding (tables : VecTables) (item : Item) (embedding : List ℚ) :
    VecTables :=
  { tables with
    vecIndex := tables.vecIndex ++ [{ memoryId := item.memoryId, embedding := embedding }] }

structure VectorStore where
  db : Connection VecTables
  inTransaction : Bool
  pendingEmbed : List Item
  available : Bool
deriving DecidableEq

-- Which of BEGIN IMMEDIATE, the two INSERTs and the COMMIT raises sqlite3.Error, and whether
-- the rollback raises as well.
structure StoreFault where
  place : Option Nat
  rollbackRaises : Bool
deriving DecidableEq

inductive Outcome
  | committed
  | rolledBack
  | raised
deriving DecidableEq

-- The statements of the transaction that went before the one that raises.
def VecTables.partly (tables : VecTables) (item : Item) (embedding : List ℚ) (now : ℚ) :
    Nat → VecTables
  | 0 | 1 => tables
  | 2 => tables.insertMemory item now
  | _ => (tables.insertMemory item now).insertEmbedding item embedding

-- Which ids and vectors the INSERT into vec_index takes. vec0 refuses an id that is no text in a
-- TEXT column, as the integer id of a warm log, and a vector of another length than declared.
abbrev Vec0 := Nat → List ℚ → Bool

-- BEGIN IMMEDIATE raises within a transaction that a failed rollback has left open.
def StoreFault.strikes (fault : StoreFault) (store : VectorStore) (taken : Bool) : Option Nat :=
  if store.inTransaction then some 0
  else
    match fault.place, taken with
    | some 0, _ => some 0
    | some 1, _ => some 1
    | _, false => some 2
    | some (_ + 4), true => none
    | other, true => other

-- The transaction of store and of retry_pending.
def VectorStore.transact (vec0 : Vec0) (store : VectorStore) (fault : StoreFault) (item : Item)
    (embedding : List ℚ) (now : ℚ) : VectorStore × Outcome :=
  match fault.strikes store (vec0 item.memoryId embedding) with
  | none =>
      ({ store with
          db := opened
            ((store.db.working.insertMemory item now).insertEmbedding item embedding) },
        .committed)
  | some place =>
      if fault.rollbackRaises ∧ (store.inTransaction ∨ 0 < place) then
        ({ store with
            db := { store.db with working := store.db.working.partly item embedding now place }
            inTransaction := true },
          .raised)
      else ({ store with db := store.db.rollback, inTransaction := false }, .rolledBack)

-- self._pending_embed.append
def VectorStore.queue (store : VectorStore) (item : Item) : VectorStore :=
  { store with pendingEmbed := store.pendingEmbed ++ [item] }

-- The answer of embed is none also where embed raises.
def VectorStore.retry (vec0 : Vec0) (store : VectorStore) (item : Item) (fault : StoreFault)
    (now : ℚ) : Option (List ℚ) → VectorStore
  | none => store.queue item
  | some embedding =>
      match store.transact vec0 fault item embedding now with
      | (next, .committed) => next
      | (next, .rolledBack) => next.queue item
      | (next, .raised) => next.queue item

-- store after retry_pending. The result is none where store raises.
def VectorStore.store (vec0 : Vec0) (store : VectorStore) (item : Item) (fault : StoreFault)
    (now : ℚ) : Option (List ℚ) → VectorStore × Option Unit
  | none => (store.queue item, some ())
  | some embedding =>
      match store.transact vec0 fault item embedding now with
      | (next, .committed) => (next, some ())
      | (next, .rolledBack) => (next, some ())
      | (next, .raised) => (next, none)

def BATCH_SIZE : Nat := 10

-- SELECT .. WHERE vectorized=0 ORDER BY created_at ASC LIMIT ?
def get_unvectorized_warm_logs (tables : Tables) (limit : Nat) : List Entry :=
  ((((tables.warmLogs.rows.filter fun row => !row.2.vectorized).map fun row =>
      { id := row.1, jid := row.2.jid, content := row.2.content, createdAt := row.2.createdAt }
        ).insertionSort fun a b : Entry => a.createdAt ≤ b.createdAt).take limit)

def Entry.item (entry : Entry) : Item where
  memoryId := entry.id
  content := entry.content
  agentId := entry.jid
  scope := "private"
  project := ""

-- Where the ingestor's coroutine stands in _ingest_pending.
inductive Phase
  | sleeping
  | loop (entries : List Entry)
  -- in retry_pending, with what is left of its copy of the queue
  | retrying (entry : Entry) (entries : List Entry) (queue : List Item)
  | storing (entry : Entry) (entries : List Entry)
  -- store has returned
  | marking (entry : Entry) (entries : List Entry)
deriving DecidableEq

-- `queued` is the history of the ids that came into _pending_embed since the last restart.
structure Host where
  logs : Connection Tables
  vectors : VectorStore
  phase : Phase
  queued : List Nat

def Phase.afterRetry (entry : Entry) (entries : List Entry) : List Item → Phase
  | [] => .storing entry entries
  | item :: queue => .retrying entry entries (item :: queue)

inductive HostEvent
  | append_warm_log (jid log_date content : String) (importance : ℚ) (memory_type : String)
      (now : ℚ) (fault : Option Nat)
  | wake
  -- the head of the loop, up to the first await of store
  | enter
  | retry (answer : Option (List ℚ)) (fault : StoreFault) (now : ℚ)
  | store (answer : Option (List ℚ)) (fault : StoreFault) (now : ℚ)
  | mark (fault : Option Nat)
  | restart (available : Bool)

def hostStep (vec0 : Vec0) (host : Host) : HostEvent → Option Host
  | .append_warm_log jid log_date content importance memory_type now fault =>
      some { host with
        logs := append_warm_log fault host.logs jid log_date content importance memory_type now }
  | .wake =>
      match host.phase with
      | .sleeping =>
          some { host with
            phase := .loop (get_unvectorized_warm_logs host.logs.working BATCH_SIZE) }
      | _ => none
  | .enter =>
      match host.phase with
      | .loop [] => some { host with phase := .sleeping }
      | .loop (entry :: entries) =>
          if host.vectors.available then
            some { host with
              vectors := { host.vectors with pendingEmbed := [] }
              phase := .afterRetry entry entries host.vectors.pendingEmbed }
          else some { host with phase := .sleeping }
      | _ => none
  | .retry answer fault now =>
      match host.phase with
      | .retrying entry entries (item :: queue) =>
          let vectors := host.vectors.retry vec0 item fault now answer
          some { host with
            vectors := vectors
            phase := .afterRetry entry entries queue
            queued := host.queued ++ vectors.pendingEmbed.map (·.memoryId) }
      | _ => none
  | .store answer fault now =>
      match host.phase with
      | .storing entry entries =>
          let (vectors, returned) := host.vectors.store vec0 entry.item fault now answer
          some { host with
            vectors := vectors
            phase := if returned.isSome then .marking entry entries else .loop entries
            queued := host.queued ++ vectors.pendingEmbed.map (·.memoryId) }
      | _ => none
  | .mark fault =>
      match host.phase with
      | .marking entry entries =>
          some { host with
            logs := mark_warm_log_vectorized fault host.logs entry.id
            phase := .loop entries }
      | _ => none
  | .restart available =>
      some {
        logs := host.logs.rollback
        vectors := {
          db := host.vectors.db.rollback, inTransaction := false, pendingEmbed := []
          available }
        phase := .sleeping
        queued := [] }

def Host.init : Host where
  logs := opened createTables
  vectors := { db := opened { vecMemories := [], vecIndex := [] }, inTransaction := false
               pendingEmbed := [], available := true }
  phase := .sleeping
  queued := []

end EvoClaw.Memory
