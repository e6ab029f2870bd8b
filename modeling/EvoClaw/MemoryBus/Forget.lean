import EvoClaw.MemoryBus.VectorStore

namespace EvoClaw.MemoryBus

open Sqlite

structure SharedTable where
  rows : List SharedRow
  ids : (rows.map (·.id)).Nodup
deriving DecidableEq

-- SharedMemoryStore leaves no transaction open, VectorStore may.
structure Bus where
  shared : SharedTable
  vector : Connection VecTables
  vecAvailable : Bool
deriving DecidableEq

-- What the searches of the bus read.
def Bus.stores (bus : Bus) : Stores where
  shared := bus.shared.rows
  vec := bus.vector.working.memories.filter fun row =>
    row.memoryId ∈ bus.vector.working.indexIds
  vecAvailable := bus.vecAvailable
  shared_ids := bus.shared.ids
  vec_ids := (List.filter_sublist.map _).nodup bus.vector.working.memory_ids

def SharedRow.ownedBy (memoryId agentId : String) (row : SharedRow) : Bool :=
  row.id = memoryId ∧ row.agentId = agentId

-- DELETE FROM shared_memories WHERE id = ? AND agent_id = ?
def SharedTable.deleteOwned (table : SharedTable) (memoryId agentId : String) : SharedTable where
  rows := table.rows.filter fun row => !row.ownedBy memoryId agentId
  ids := (List.filter_sublist.map _).nodup table.ids

-- The fault is the place of what raises: the DELETE or the commit.
def SharedMemoryStore.delete (table : SharedTable) (memoryId agentId : String)
    (fault : Option Nat) : SharedTable × Bool :=
  let statements := [fun table : SharedTable => some (table.deleteOwned memoryId agentId)]
  ((transact statements fault (opened table)).committed,
    decide (Undisturbed statements fault) && table.rows.any (SharedRow.ownedBy memoryId agentId))

def forget (bus : Bus) (memoryId agentId : String) (sharedFault vectorFault : Option Nat) :
    Bus × Bool :=
  let (shared, result) := SharedMemoryStore.delete bus.shared memoryId agentId sharedFault
  let (vector, _) := VectorStore.delete bus.vector memoryId vectorFault
  ({ bus with shared, vector }, result)

def Bus.WrittenBy (bus : Bus) (memoryId agentId : String) : Prop :=
  (∃ row ∈ bus.shared.rows, row.id = memoryId ∧ row.agentId = agentId) ∨
    ∃ row ∈ bus.vector.working.memories, row.memoryId = memoryId ∧ row.agentId = agentId

instance (bus : Bus) (memoryId agentId : String) : Decidable (bus.WrittenBy memoryId agentId) :=
  inferInstanceAs (Decidable (_ ∨ _))

-- The call returns False, both stores are as before, and whatever the searches make of the
-- stores, so is the result of every later recall.
structure Refused (bus : Bus) (memoryId agentId : String) (sharedFault vectorFault : Option Nat) :
    Prop where
  result : (forget bus memoryId agentId sharedFault vectorFault).2 = false
  shared : (forget bus memoryId agentId sharedFault vectorFault).1.shared = bus.shared
  vector : (forget bus memoryId agentId sharedFault vectorFault).1.vector = bus.vector
  recalls : ∀ (host : Host) (call : Call) (search : ∀ bus : Bus, Answers bus.stores call),
    let after := (forget bus memoryId agentId sharedFault vectorFault).1
    «recall» host after.stores call (search after) = «recall» host bus.stores call (search bus)

-- The first DELETE raises, or neither DELETE that is carried out finds a row, and the commit,
-- if there is one, has nothing to write.
def Spares (db : Connection VecTables) (memoryId : String) (fault : Option Nat) : Prop :=
  fault = some 0 ∨ memoryId ∉ db.working.memoryIds ∧
    (fault = some 1 ∨ memoryId ∉ db.working.indexIds ∧
      (fault = some 2 ∨ db.committed = db.working))

instance (db : Connection VecTables) (memoryId : String) (fault : Option Nat) :
    Decidable (Spares db memoryId fault) :=
  inferInstanceAs (Decidable (_ ∨ _))

section SharedStore

variable {table : SharedTable} {memoryId agentId : String}

theorem deleteOwned_eq_self
    (hnot : ¬ ∃ row ∈ table.rows, row.id = memoryId ∧ row.agentId = agentId) :
    table.deleteOwned memoryId agentId = table := by
  have hrows : (table.rows.filter fun row => !row.ownedBy memoryId agentId) = table.rows := by
    refine List.filter_eq_self.mpr fun row hrow => ?_
    simp only [SharedRow.ownedBy, Bool.not_eq_true', decide_eq_false_iff_not]
    exact fun h => hnot ⟨row, hrow, h⟩
  cases table
  simp only [SharedTable.deleteOwned, SharedTable.mk.injEq]
  exact hrows

-- The owner check of the shared store.
theorem sharedDelete_eq_self
    (hnot : ¬ ∃ row ∈ table.rows, row.id = memoryId ∧ row.agentId = agentId)
    (fault : Option Nat) :
    SharedMemoryStore.delete table memoryId agentId fault = (table, false) := by
  have hany : table.rows.any (SharedRow.ownedBy memoryId agentId) = false := by
    rw [List.any_eq_false]
    intro row hrow howned
    exact hnot ⟨row, hrow, by simpa [SharedRow.ownedBy] using howned⟩
  have htable : (transact [fun table : SharedTable => some (table.deleteOwned memoryId agentId)]
      fault (opened table)).committed = table := by
    obtain ⟨final, -, hp, ht⟩ | ⟨-, ht⟩ := transact_eq
      [fun table : SharedTable => some (table.deleteOwned memoryId agentId)] fault (opened table)
    · rw [ht]
      exact (Option.some.inj hp).symm.trans (deleteOwned_eq_self hnot)
    · rw [ht]
      rfl
  simp only [SharedMemoryStore.delete, htable, hany, Bool.and_false]

end SharedStore

section BothStores

variable {bus : Bus} {memoryId agentId : String}

theorem deletes_eq_self {tables : VecTables} :
    (tables.deleteMemory memoryId).deleteIndex memoryId = tables ↔
      memoryId ∉ tables.memoryIds ∧ memoryId ∉ tables.indexIds := by
  constructor
  · intro h
    have hmemory : memoryId ∉ tables.memoryIds := by
      rw [← h]
      simp [VecTables.memoryIds, VecTables.deleteIndex, VecTables.deleteMemory]
    rw [VecTables.deleteMemory_eq_self.mpr hmemory] at h
    exact ⟨hmemory, VecTables.deleteIndex_eq_self.mp h⟩
  · rintro ⟨hmemory, hindex⟩
    rw [VecTables.deleteMemory_eq_self.mpr hmemory, VecTables.deleteIndex_eq_self.mpr hindex]

-- The vector store asks nobody who the owner is.
theorem vectorDelete_eq_self {db : Connection VecTables} {fault : Option Nat} :
    (VectorStore.delete db memoryId fault).1 = db ↔ Spares db memoryId fault := by
  obtain ⟨committed, working⟩ := db
  match fault with
  | some 0 => simp [VectorStore.delete, Spares]
  | some 1 => simp [VectorStore.delete, Spares, VecTables.deleteMemory_eq_self]
  | some 2 => simp [VectorStore.delete, Spares, deletes_eq_self]
  | none | some (_ + 3) =>
      simp only [VectorStore.delete, Connection.commit, Connection.mk.injEq, deletes_eq_self,
        Spares, reduceCtorEq, Option.some.injEq, Nat.reduceEqDiff, false_or]
      constructor
      · rintro ⟨hcommitted, hmemory, hindex⟩
        rw [deletes_eq_self.mpr ⟨hmemory, hindex⟩] at hcommitted
        exact ⟨hmemory, hindex, hcommitted.symm⟩
      · rintro ⟨hmemory, hindex, hcommitted⟩
        rw [deletes_eq_self.mpr ⟨hmemory, hindex⟩]
        exact ⟨hcommitted.symm, hmemory, hindex⟩

-- forget of an agent that has not written the memory, for all contents of the stores.
theorem refused_iff (hnot : ¬ bus.WrittenBy memoryId agentId) (sharedFault vectorFault : Option Nat) :
    Refused bus memoryId agentId sharedFault vectorFault ↔
      Spares bus.vector memoryId vectorFault := by
  have hshared := sharedDelete_eq_self (fun h => hnot (.inl h)) sharedFault
  constructor
  · intro h
    exact vectorDelete_eq_self.mp h.vector
  · intro h
    have hforget : forget bus memoryId agentId sharedFault vectorFault = (bus, false) := by
      unfold forget
      dsimp only
      rw [hshared, vectorDelete_eq_self.mpr h]
    constructor
    · rw [hforget]
    · rw [hforget]
    · rw [hforget]
    · intro host call search
      rw [hforget]

end BothStores

-- A private memory of alice's in both stores, and nothing is pending.
def aliceStores : Bus where
  shared := {
    rows := [{ id := "m1", agentId := "alice", project := "", scope := "private",
               content := "the pin is 4711", ns := "", topicTag := "", createdAt := 1 }]
    ids := by decide }
  vector := opened {
    memories := [{ memoryId := "m1", agentId := "alice", scope := "private", project := "",
                   content := "the pin is 4711", createdAt := 1 }]
    index := [{ memoryId := "m1", embedding := [1] }]
    memory_ids := by decide }
  vecAvailable := true

theorem refused_iff_m2 : Refused aliceStores "m2" "mallory" none none :=
  (refused_iff (by decide) none none).mpr (by decide)

-- The vector search finds alice's memory before the call and does not after it.
theorem forgotten_by_mallory :
    ¬ aliceStores.WrittenBy "m1" "mallory" ∧ ¬ Refused aliceStores "m1" "mallory" none none ∧
      aliceStores.stores.vec ≠ [] ∧
      (forget aliceStores "m1" "mallory" none none).1.stores.vec = [] :=
  ⟨by decide, fun h => absurd h.vector (by decide), by decide, by decide⟩

end EvoClaw.MemoryBus
