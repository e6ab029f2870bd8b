import EvoClaw.Sqlite.FullText
import EvoClaw.Sqlite.Transaction
import Mathlib.Algebra.Order.Ring.Rat
import Mathlib.Data.Rat.Defs

namespace EvoClaw.Memory

open Sqlite FullText

-- group_warm_logs
structure WarmLog where
  jid : String
  logDate : String
  content : String
  createdAt : ℚ
  importance : ℚ
  memoryType : String
  vectorized : Bool
deriving DecidableEq

-- group_cold_memory
structure ColdMemory where
  jid : String
  title : String
  content : String
  tags : String
  createdAt : ℚ
deriving DecidableEq

-- The columns of group_warm_logs_fts.
structure WarmEntry where
  rowid : Nat
  jid : String
  logDate : String
  content : String
deriving DecidableEq

-- The columns of group_cold_memory_fts.
structure ColdEntry where
  rowid : Nat
  jid : String
  title : String
  content : String
  tags : String
deriving DecidableEq

def warmEntry (row : Nat × WarmLog) : WarmEntry where
  rowid := row.1
  jid := row.2.jid
  logDate := row.2.logDate
  content := row.2.content

def coldEntry (row : Nat × ColdMemory) : ColdEntry where
  rowid := row.1
  jid := row.2.jid
  title := row.2.title
  content := row.2.content
  tags := row.2.tags

structure Tables where
  warmLogs : Table WarmLog
  warmLogsFts : Index WarmEntry
  coldMemory : Table ColdMemory
  coldMemoryFts : Index ColdEntry

-- _create_tables on a new database.
def createTables : Tables where
  warmLogs := .empty
  warmLogsFts := .empty
  coldMemory := .empty
  coldMemoryFts := .empty

-- WHERE jid=? AND created_at<?
def WarmLog.before (jid : String) (cutoff_ts : ℚ) (log : WarmLog) : Bool :=
  log.jid = jid ∧ log.createdAt < cutoff_ts

def ColdMemory.before (jid : String) (cutoff_ts : ℚ) (memory : ColdMemory) : Bool :=
  memory.jid = jid ∧ memory.createdAt < cutoff_ts

namespace Tables

-- INSERT INTO group_warm_logs: the table has no trigger for it.
def insertWarmLog (log : WarmLog) : Statement Tables := fun tables =>
  (tables.warmLogs.insert log).map fun warmLogs => { tables with warmLogs := warmLogs }

-- INSERT INTO group_warm_logs_fts(rowid, ..) VALUES(last_insert_rowid(), ..)
def insertWarmLogFts (jid log_date content : String) : Statement Tables := fun tables =>
  some { tables with
    warmLogsFts := tables.warmLogsFts.insert
      { rowid := tables.warmLogs.lastInsertRowid, jid, logDate := log_date, content } }

-- DELETE FROM group_warm_logs_fts WHERE rowid IN (SELECT id ..)
def deleteWarmLogsFts (jid : String) (cutoff_ts : ℚ) : Statement Tables := fun tables =>
  some { tables with
    warmLogsFts := tables.warmLogsFts.deleteRowids Prod.fst warmEntry tables.warmLogs.rows
      ((tables.warmLogs.selected (WarmLog.before jid cutoff_ts)).map Prod.fst) }

-- DELETE FROM group_warm_logs. The trigger warm_logs_ad runs for each of the rows.
def deleteWarmLogs (jid : String) (cutoff_ts : ℚ) : Statement Tables := fun tables =>
  some { tables with
    warmLogs := tables.warmLogs.delete (WarmLog.before jid cutoff_ts)
    warmLogsFts := tables.warmLogsFts.deleteAll
      ((tables.warmLogs.selected (WarmLog.before jid cutoff_ts)).map warmEntry) }

-- UPDATE group_warm_logs SET vectorized=1: the table has no trigger for it either.
def setVectorized (log_id : Nat) : Statement Tables := fun tables =>
  some { tables with
    warmLogs := tables.warmLogs.update log_id fun log => { log with vectorized := true } }

-- INSERT INTO group_cold_memory with the trigger cold_memory_ai.
def insertColdMemory (memory : ColdMemory) : Statement Tables := fun tables =>
  (tables.coldMemory.insert memory).map fun coldMemory =>
    { tables with
      coldMemory := coldMemory
      coldMemoryFts := tables.coldMemoryFts.insert (coldEntry (coldMemory.lastInsertRowid, memory)) }

-- DELETE FROM group_cold_memory with the trigger cold_memory_ad.
def deleteColdMemory (jid : String) (cutoff_ts : ℚ) : Statement Tables := fun tables =>
  some { tables with
    coldMemory := tables.coldMemory.delete (ColdMemory.before jid cutoff_ts)
    coldMemoryFts := tables.coldMemoryFts.deleteAll
      ((tables.coldMemory.selected (ColdMemory.before jid cutoff_ts)).map coldEntry) }

end Tables

section Calls

open Tables

variable (fault : Option Nat) (db : Connection Tables)

def append_warm_log (jid log_date content : String) (importance : ℚ) (memory_type : String)
    (now : ℚ) : Connection Tables :=
  transact
    [insertWarmLog {
        jid, logDate := log_date, content, createdAt := now, importance, memoryType := memory_type
        vectorized := false },
      insertWarmLogFts jid log_date content]
    fault db

-- No try stands around it: what the UPDATE changed stays pending when the commit fails.
def mark_warm_log_vectorized (log_id : Nat) : Connection Tables :=
  match fault with
  | some 0 => db
  | some 1 => { db with working := ((setVectorized log_id) db.working).getD db.working }
  | _ => Connection.commit { db with working := ((setVectorized log_id) db.working).getD db.working }

def delete_warm_logs_before (jid : String) (cutoff_ts : ℚ) : Connection Tables :=
  transact [deleteWarmLogsFts jid cutoff_ts, deleteWarmLogs jid cutoff_ts] fault db

def append_cold_memory (jid title content tags : String) (now : ℚ) : Connection Tables :=
  transact [insertColdMemory { jid, title, content, tags, createdAt := now }] fault db

def delete_cold_memory_before (jid : String) (cutoff_ts : ℚ) : Connection Tables :=
  transact [deleteColdMemory jid cutoff_ts] fault db

end Calls

inductive Call
  | append_warm_log (jid log_date content : String) (importance : ℚ) (memory_type : String)
      (now : ℚ)
  | mark_warm_log_vectorized (log_id : Nat)
  | delete_warm_logs_before (jid : String) (cutoff_ts : ℚ)
  | append_cold_memory (jid title content tags : String) (now : ℚ)
  | delete_cold_memory_before (jid : String) (cutoff_ts : ℚ)
deriving DecidableEq

-- A call and the statement of it that fails. All of them hold _db_lock.
def step (db : Connection Tables) : Call × Option Nat → Option (Connection Tables)
  | (.append_warm_log jid log_date content importance memory_type now, fault) =>
      some (append_warm_log fault db jid log_date content importance memory_type now)
  | (.mark_warm_log_vectorized log_id, fault) => some (mark_warm_log_vectorized fault db log_id)
  | (.delete_warm_logs_before jid cutoff_ts, fault) =>
      some (delete_warm_logs_before fault db jid cutoff_ts)
  | (.append_cold_memory jid title content tags now, fault) =>
      some (append_cold_memory fault db jid title content tags now)
  | (.delete_cold_memory_before jid cutoff_ts, fault) =>
      some (delete_cold_memory_before fault db jid cutoff_ts)

end EvoClaw.Memory
