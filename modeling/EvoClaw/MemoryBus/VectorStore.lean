import EvoClaw.MemoryBus.Model
import EvoClaw.Sqlite.Immediate

namespace EvoClaw.MemoryBus

open Sqlite

structure IndexRow where
  memoryId : String
  embedding : List ℚ
deriving DecidableEq

-- memory_id is the primary key of vec_memories. The virtual table vec_index has none: every
-- INSERT adds a row to it.
structure VecTables where
  memories : List VecRow
  index : List IndexRow
  memory_ids : (memories.map (·.memoryId)).Nodup
deriving DecidableEq

-- The arguments of store, and an entry of _pending_embed.
structure Item where
  memoryId : String
  content : String
  agentId : String
  scope : String := "private"
  project : String := ""
deriving DecidableEq

def Item.row (item : Item) (now : ℚ) : VecRow where
  memoryId := item.memoryId
  agentId := item.agentId
  scope := item.scope
  project := item.project
  content := item.content
  createdAt := now

-- DELETE .. WHERE the id is the given one
theorem filter_ne_eq_self {α : Type*} {rows : List α} {idOf : α → String} {id : String} :
    rows.filter (fun row => idOf row ≠ id) = rows ↔ id ∉ rows.map idOf := by
  simp only [List.filter_eq_self, decide_eq_true_eq, List.mem_map, not_exists, not_and]

namespace VecTables

def memoryIds (tables : VecTables) : List String := tables.memories.map (·.memoryId)

def indexIds (tables : VecTables) : List String := tables.index.map (·.memoryId)

def deleteMemory (tables : VecTables) (memoryId : String) : VecTables where
  memories := tables.memories.filter fun row => row.memoryId ≠ memoryId
  index := tables.index
  memory_ids := (List.filter_sublist.map _).nodup tables.memory_ids

def deleteIndex (tables : VecTables) (memoryId : String) : VecTables :=
  { tables with index := tables.index.filter fun row => row.memoryId ≠ memoryId }

-- INSERT OR REPLACE
def insertMemory (tables : VecTables) (row : VecRow) : VecTables where
  memories := (tables.deleteMemory row.memoryId).memories ++ [row]
  index := tables.index
  memory_ids := by
    have hrest := (tables.deleteMemory row.memoryId).memory_ids
    rw [List.map_append, List.nodup_append]
    refine ⟨hrest, List.nodup_singleton _, fun id hid other hother => ?_⟩
    obtain ⟨kept, hkept, rfl⟩ := List.mem_map.mp hid
    rw [List.mem_singleton.mp hother]
    simpa using (List.mem_filter.mp hkept).2

def insertIndex (tables : VecTables) (row : IndexRow) : VecTables :=
  { tables with index := tables.index ++ [row] }

variable {tables : VecTables}

@[simp] theorem memoryIds_insertMemory {row : VecRow} {id : String} :
    id ∈ (tables.insertMemory row).memoryIds ↔ id ∈ tables.memoryIds ∨ id = row.memoryId := by
  simp only [memoryIds, insertMemory, deleteMemory, List.map_append, List.mem_append,
    List.mem_map, List.mem_filter, decide_eq_true_eq, List.map_cons, List.map_nil,
    List.mem_singleton]
  constructor
  · rintro (⟨other, ⟨hother, -⟩, rfl⟩ | rfl)
    · exact .inl ⟨other, hother, rfl⟩
    · exact .inr rfl
  · rintro (⟨other, hother, rfl⟩ | rfl)
    · by_cases hid : other.memoryId = row.memoryId
      · exact .inr hid
      · exact .inl ⟨other, ⟨hother, hid⟩, rfl⟩
    · exact .inr rfl

@[simp] theorem indexIds_insertMemory {row : VecRow} :
    (tables.insertMemory row).indexIds = tables.indexIds := rfl

@[simp] theorem memoryIds_insertIndex {row : IndexRow} :
    (tables.insertIndex row).memoryIds = tables.memoryIds := rfl

@[simp] theorem indexIds_insertIndex {row : IndexRow} :
    (tables.insertIndex row).indexIds = tables.indexIds ++ [row.memoryId] := by
  simp [indexIds, insertIndex]

theorem deleteMemory_eq_self {memoryId : String} :
    tables.deleteMemory memoryId = tables ↔ memoryId ∉ tables.memoryIds := by
  rw [memoryIds, ← filter_ne_eq_self]
  cases tables
  simp [deleteMemory]

theorem deleteIndex_eq_self {memoryId : String} :
    tables.deleteIndex memoryId = tables ↔ memoryId ∉ tables.indexIds := by
  rw [indexIds, ← filter_ne_eq_self]
  cases tables
  simp [deleteIndex]

end VecTables

def Item.inserts (item : Item) (values : List ℚ) (now : ℚ) : List (Statement VecTables) :=
  [fun tables => some (tables.insertMemory (item.row now)),
    fun tables => some (tables.insertIndex { memoryId := item.memoryId, embedding := values })]

-- What they make of the tables.
def Item.inserted (item : Item) (values : List ℚ) (now : ℚ) (tables : VecTables) : VecTables :=
  (tables.insertMemory (item.row now)).insertIndex { memoryId := item.memoryId, embedding := values }

structure VectorStore where
  session : Session VecTables
  pendingEmbed : List Item
  available : Bool
deriving DecidableEq

-- How an await of embed ends, if it is not cancelled.
inductive Embedding
  | returns (values : Option (List ℚ))
  | raises
deriving DecidableEq

def Embedding.values : Embedding → Option (List ℚ)
  | .returns values => values
  | .raises => none

namespace VectorStore

-- self._pending_embed.append
def queue (store : VectorStore) (item : Item) : VectorStore :=
  { store with pendingEmbed := store.pendingEmbed ++ [item] }

-- The transaction of store and of retry_pending.
def insert (store : VectorStore) (item : Item) (values : List ℚ) (now : ℚ) (fault : Fault) :
    VectorStore × Outcome :=
  let (session, outcome) := store.session.immediate (item.inserts values now) fault
  ({ store with session }, outcome)

-- An item of retry_pending behind its await. What the handler of sqlite3.Error lets through,
-- `except Exception` catches.
def retried (store : VectorStore) (item : Item) (now : ℚ) (fault : Fault) :
    Embedding → VectorStore
  | .raises => store.queue item
  | .returns none => store.queue item
  | .returns (some values) =>
      match store.insert item values now fault with
      | (next, .committed) => next
      | (next, .rolledBack) => next.queue item
      | (next, .raised) => next.queue item

-- store behind the await of its own embedding. Where it raises, the caller gets the exception.
def stored (store : VectorStore) (item : Item) (now : ℚ) (fault : Fault) :
    Embedding → VectorStore
  | .raises => store.queue item
  | .returns none => store.queue item
  | .returns (some values) => (store.insert item values now fault).1

-- delete on the connection of the store. The fault is the place of what raises:
-- the two DELETEs and the commit. Nothing is rolled back.
def delete (db : Connection VecTables) (memoryId : String) (fault : Option Nat) :
    Connection VecTables × Bool :=
  match fault with
  | some 0 => (db, false)
  | some 1 => ({ db with working := db.working.deleteMemory memoryId }, false)
  | some 2 =>
      ({ db with working := (db.working.deleteMemory memoryId).deleteIndex memoryId }, false)
  | _ =>
      ({ db with
          working := (db.working.deleteMemory memoryId).deleteIndex memoryId : Connection _ }.commit,
        true)

variable (store : VectorStore) (item : Item) (values : List ℚ) (now : ℚ) (fault : Fault)

-- Both rows are committed, or neither is. Then the transaction is rolled back, or stays open
-- as it was when a statement raised.
theorem insert_cases :
    (store.session.Unhindered (item.inserts values now) fault ∧
        store.insert item values now fault =
          ({ store with session := .idle (item.inserted values now store.session.committed) },
            .committed)) ∨
      ¬ store.session.Unhindered (item.inserts values now) fault ∧
        (store.insert item values now fault =
            ({ store with session := .idle store.session.committed }, .rolledBack) ∨
          fault.rollbackRaises = true ∧ ∃ left, store.insert item values now fault =
              ({ store with session := { store.session with pending := some left } }, .raised) ∧
            (left = store.session.working ∨
              left = item.inserted values now store.session.committed ∨
              left = store.session.committed.insertMemory (item.row now) ∧
                store.session.pending = none ∧ fault.place = some 2)) := by
  obtain ⟨last, hgo, hlast, heq⟩ | ⟨hnot, heq | ⟨hraises, left, hleft, heq⟩⟩ :=
    store.session.immediate_cases (item.inserts values now) fault
  · refine .inl ⟨hgo, ?_⟩
    cases hlast
    rw [insert, heq]
    rfl
  · exact .inr ⟨fun h => hnot ⟨h, rfl⟩, .inl (by rw [insert, heq])⟩
  · refine .inr ⟨fun h => hnot ⟨h, rfl⟩, .inr ⟨hraises, left, by rw [insert, heq], ?_⟩⟩
    obtain hopen | ⟨hnone, count, hcount, hl, hwhy⟩ := hleft
    · exact .inl (by rw [Session.working, hopen]; rfl)
    · have hcases : count = 0 ∨ count = 1 ∨ count = 2 := by
        simp only [Item.inserts, List.length_cons, List.length_nil] at hcount
        omega
      obtain rfl | rfl | rfl := hcases
      · cases hl
        exact .inl (by rw [Session.working, hnone]; rfl)
      · cases hl
        obtain hplace | hfailed := hwhy
        · exact .inr (.inr ⟨rfl, hnone, hplace⟩)
        · cases hfailed
      · cases hl
        exact .inr (.inl rfl)

end VectorStore

end EvoClaw.MemoryBus
