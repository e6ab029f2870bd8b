import EvoClaw.EventSystem.Runs
import EvoClaw.MemoryBus.VectorStore
import Mathlib.Data.List.Perm.Basic

-- store and retry_pending, interleaved at their awaits.
namespace EvoClaw.MemoryBus

open EventSystem Sqlite

-- A call in the await of an embedding: that of an item of its copy of the queue (`next` is the
-- item of the store call that waits for retry_pending), or that of the item it stores.
inductive Task
  | retrying (item : Item) (queue : List Item) (next : Option Item)
  | storing (item : Item)
deriving DecidableEq

-- `stored` is the history of the ids that store was called for while the store is available.
structure Embedder where
  store : VectorStore
  tasks : List Task
  stored : List String
deriving DecidableEq

inductive Event
  | store (item : Item)
  | retryPending
  | resume (index : Nat) (embedding : Embedding) (now : ℚ) (fault : Fault)
  | cancel (index : Nat)
deriving DecidableEq

-- The await that the loop of retry_pending, and store behind it, come to next.
def goOn : List Item → Option Item → List Task
  | item :: queue, next => [.retrying item queue next]
  | [], some item => [.storing item]
  | [], none => []

-- The call up to its first await, with its copy of the queue. A CancelledError is no Exception.
def step (state : Embedder) : Event → Option Embedder
  | .store item =>
      if state.store.available then
        some {
          store := { state.store with pendingEmbed := [] }
          tasks := state.tasks ++ goOn state.store.pendingEmbed (some item)
          stored := state.stored ++ [item.memoryId] }
      else some state
  | .retryPending =>
      some { state with
        store := { state.store with pendingEmbed := [] }
        tasks := state.tasks ++ goOn state.store.pendingEmbed none }
  | .resume index embedding now fault =>
      match state.tasks[index]? with
      | none => none
      | some (.retrying item queue next) =>
          some { state with
            store := state.store.retried item now fault embedding
            tasks := state.tasks.eraseIdx index ++ goOn queue next }
      | some (.storing item) =>
          some { state with
            store := state.store.stored item now fault embedding
            tasks := state.tasks.eraseIdx index }
  | .cancel index =>
      match state.tasks[index]? with
      | none => none
      | some _ => some { state with tasks := state.tasks.eraseIdx index }

-- The store as it is opened on tables that an earlier run has left.
def Embedder.start (tables : VecTables) (available : Bool) : Embedder where
  store := { session := .idle tables, pendingEmbed := [], available }
  tasks := []
  stored := []

def VectorStore.pendingIds (store : VectorStore) : List String :=
  store.pendingEmbed.map (·.memoryId)

def VecTables.Holds (tables : VecTables) (id : String) : Prop :=
  id ∈ tables.memoryIds ∧ id ∈ tables.indexIds

-- On disk, and as the connection of the store sees them.
def Embedder.views (state : Embedder) : List VecTables :=
  [state.store.session.committed, state.store.session.working]

-- Every memory is in both tables or in the queue, and never in one of the tables only.
def NoneLost (state : Embedder) : Prop :=
  ∀ id ∈ state.stored, ∀ tables ∈ state.views,
    (tables.Holds id ∨ id ∈ state.store.pendingIds) ∧
      (id ∈ tables.memoryIds ↔ id ∈ tables.indexIds)

def NoneLostAtRest (state : Embedder) : Prop := state.tasks = [] → NoneLost state

-- The ids that the call is going to store.
def Task.ids : Task → List String
  | .retrying item queue next => (item :: queue ++ next.toList).map (·.memoryId)
  | .storing item => [item.memoryId]

-- The id is stored, or queued, or another call is going to store it.
def Embedder.Elsewhere (state : Embedder) (index : Nat) (id : String) : Prop :=
  state.store.session.committed.Holds id ∨ id ∈ state.store.pendingIds ∨
    id ∈ (state.tasks.eraseIdx index).flatMap Task.ids

-- The second INSERT raises behind a first one that has added a row, and so does the rollback.
def VectorStore.Torn (store : VectorStore) (item : Item) (fault : Fault) : Prop :=
  fault.rollbackRaises = true ∧ fault.place = some 2 ∧ store.session.pending = none ∧
    item.memoryId ∉ store.session.committed.indexIds

-- The transaction of the call leaves no half of itself. The one of store succeeds, or the
-- memory is elsewhere.
def Embedder.StoresWell (state : Embedder) (index : Nat) (values : List ℚ) (now : ℚ)
    (fault : Fault) : Task → Prop
  | .retrying item _ _ => ¬ state.store.Torn item fault
  | .storing item => ¬ state.store.Torn item fault ∧
      (state.store.session.Unhindered (item.inserts values now) fault ∨
        state.Elsewhere index item.memoryId)

def Careful (state : Embedder) : Event → Prop
  | .store _ | .retryPending => True
  | .resume index embedding now fault => ∀ task ∈ state.tasks[index]?,
      ∀ values ∈ embedding.values, state.StoresWell index values now fault task
  | .cancel index => ∀ task ∈ state.tasks[index]?, ∀ id ∈ task.ids, state.Elsewhere index id

section Decidability

instance (tables : VecTables) (id : String) : Decidable (tables.Holds id) :=
  inferInstanceAs (Decidable (_ ∧ _))

instance (state : Embedder) : Decidable (NoneLost state) :=
  inferInstanceAs (Decidable (∀ id ∈ state.stored, ∀ tables ∈ state.views, _))

instance (state : Embedder) : Decidable (NoneLostAtRest state) :=
  inferInstanceAs (Decidable (_ → _))

instance (state : Embedder) (index : Nat) (id : String) : Decidable (state.Elsewhere index id) :=
  inferInstanceAs (Decidable (_ ∨ _))

instance (store : VectorStore) (item : Item) (fault : Fault) : Decidable (store.Torn item fault) :=
  inferInstanceAs (Decidable (_ ∧ _))

instance (state : Embedder) (index : Nat) (values : List ℚ) (now : ℚ) (fault : Fault) :
    ∀ task, Decidable (state.StoresWell index values now fault task)
  | .retrying .. => inferInstanceAs (Decidable (¬ _))
  | .storing _ => inferInstanceAs (Decidable (_ ∧ _))

instance (state : Embedder) : ∀ event, Decidable (Careful state event)
  | .store _ | .retryPending => isTrue trivial
  | .resume .. => inferInstanceAs (Decidable (∀ task ∈ (_ : Option Task), ∀ values ∈ (_ : Option (List ℚ)), _))
  | .cancel _ => inferInstanceAs (Decidable (∀ task ∈ (_ : Option Task), ∀ id ∈ task.ids, _))

end Decidability

def VecTables.Agrees (tables : VecTables) : Prop :=
  ∀ id, id ∈ tables.memoryIds ↔ id ∈ tables.indexIds

-- No view has half of a transaction, and what is committed is in view.
structure Consistent (session : Session VecTables) : Prop where
  committed : session.committed.Agrees
  working : session.working.Agrees
  inView : ∀ id, session.committed.Holds id → session.working.Holds id

section Transactions

variable {tables : VecTables} {store : VectorStore} {item : Item} {values : List ℚ} {now : ℚ}
  {fault : Fault} {id : String}

theorem holds_inserted :
    (item.inserted values now tables).Holds id ↔ tables.Holds id ∨ id = item.memoryId := by
  simp [VecTables.Holds, Item.inserted, Item.row, and_or_right]

theorem agrees_inserted (h : tables.Agrees) : (item.inserted values now tables).Agrees := by
  intro id
  simp [Item.inserted, Item.row, h id]

theorem holds_insertMemory (h : tables.Holds id) :
    (tables.insertMemory (item.row now)).Holds id :=
  ⟨VecTables.memoryIds_insertMemory.mpr (.inl h.1), h.2⟩

-- The row that is replaced has its row in the index.
theorem agrees_insertMemory (h : tables.Agrees) (hid : item.memoryId ∈ tables.indexIds) :
    (tables.insertMemory (item.row now)).Agrees := by
  intro id
  rw [VecTables.memoryIds_insertMemory, VecTables.indexIds_insertMemory, h id]
  refine ⟨fun hor => ?_, .inl⟩
  obtain hold | hnew := hor
  · exact hold
  · rw [hnew]
    exact hid

theorem consistent_idle (h : tables.Agrees) : Consistent (.idle tables) where
  committed := h
  working := h
  inView := fun _ hid => hid

-- What the three ways out of the transaction keep.
theorem consistent_insert (h : Consistent store.session) (hwhole : ¬ store.Torn item fault) :
    Consistent (store.insert item values now fault).1.session := by
  obtain ⟨-, heq⟩ | ⟨-, heq | ⟨hraises, left, heq, hleft⟩⟩ :=
    store.insert_cases item values now fault
  · rw [heq]
    exact consistent_idle (agrees_inserted h.committed)
  · rw [heq]
    exact consistent_idle h.committed
  · rw [heq]
    obtain rfl | rfl | ⟨rfl, hnone, hplace⟩ := hleft
    · exact ⟨h.committed, h.working, h.inView⟩
    · exact ⟨h.committed, agrees_inserted h.committed, fun _ hid => holds_inserted.mpr (.inl hid)⟩
    · have hid : item.memoryId ∈ store.session.committed.indexIds := by
        by_contra hnot
        exact hwhole ⟨hraises, hplace, hnone, hnot⟩
      exact ⟨h.committed, agrees_insertMemory h.committed hid, fun _ => holds_insertMemory⟩

theorem holds_insert (hid : store.session.committed.Holds id) :
    (store.insert item values now fault).1.session.committed.Holds id := by
  obtain ⟨-, heq⟩ | ⟨-, heq | ⟨-, left, heq, -⟩⟩ := store.insert_cases item values now fault
  · rw [heq]
    exact holds_inserted.mpr (.inl hid)
  · rw [heq]
    exact hid
  · rw [heq]
    exact hid

theorem holds_insert_self (hgo : store.session.Unhindered (item.inserts values now) fault) :
    (store.insert item values now fault).1.session.committed.Holds item.memoryId := by
  obtain ⟨-, heq⟩ | ⟨hnot, -⟩ := store.insert_cases item values now fault
  · rw [heq]
    exact holds_inserted.mpr (.inr rfl)
  · exact absurd hgo hnot

theorem unhindered_of_committed (ho : (store.insert item values now fault).2 = .committed) :
    store.session.Unhindered (item.inserts values now) fault := by
  obtain ⟨hgo, -⟩ | ⟨-, heq | ⟨-, left, heq, -⟩⟩ := store.insert_cases item values now fault
  · exact hgo
  · rw [heq] at ho
    cases ho
  · rw [heq] at ho
    cases ho

@[simp] theorem pendingIds_queue :
    (store.queue item).pendingIds = store.pendingIds ++ [item.memoryId] := by
  simp [VectorStore.pendingIds, VectorStore.queue]

end Transactions

-- What becomes of the ids when one call goes on: none is taken from the tables or the queue.
structure Grows (store after : VectorStore) : Prop where
  tables : ∀ id, store.session.committed.Holds id → after.session.committed.Holds id
  queue : ∀ id ∈ store.pendingIds, id ∈ after.pendingIds

theorem Grows.trans {store middle after : VectorStore} (h : Grows store middle)
    (hrest : Grows middle after) : Grows store after where
  tables := fun id hid => hrest.tables id (h.tables id hid)
  queue := fun id hid => hrest.queue id (h.queue id hid)

section Calls

variable {store : VectorStore} {item : Item} {now : ℚ} {fault : Fault} {embedding : Embedding}

theorem grows_queue : Grows store (store.queue item) where
  tables := fun _ hid => hid
  queue := fun id hid => by simp [hid]

theorem grows_insert {values : List ℚ} : Grows store (store.insert item values now fault).1 where
  tables := fun _ => holds_insert
  queue := fun _ hid => hid

theorem retried_values (values : List ℚ) :
    store.retried item now fault (.returns (some values)) =
      if (store.insert item values now fault).2 = .committed then
        (store.insert item values now fault).1
      else (store.insert item values now fault).1.queue item := by
  unfold VectorStore.retried
  dsimp only
  split
  · rename_i heq
    simp [heq]
  · rename_i heq
    simp [heq]
  · rename_i heq
    simp [heq]

-- The handlers of retry_pending put back every item that they do not commit.
theorem retried_spec (h : Consistent store.session) (now : ℚ)
    (hwhole : ∀ values ∈ embedding.values, ¬ store.Torn item fault) :
    Consistent (store.retried item now fault embedding).session ∧
      Grows store (store.retried item now fault embedding) ∧
      ((store.retried item now fault embedding).session.committed.Holds item.memoryId ∨
        item.memoryId ∈ (store.retried item now fault embedding).pendingIds) := by
  cases embedding with
  | raises => exact ⟨h, grows_queue, .inr (by simp [VectorStore.retried])⟩
  | returns values =>
      cases values with
      | none => exact ⟨h, grows_queue, .inr (by simp [VectorStore.retried])⟩
      | some values =>
          have hcons : Consistent (store.insert item values now fault).1.session :=
            consistent_insert h (hwhole values rfl)
          have hgrows : Grows store (store.insert item values now fault).1 := grows_insert
          rw [retried_values]
          split
          · rename_i ho
            exact ⟨hcons, hgrows, .inl (holds_insert_self (unhindered_of_committed ho))⟩
          · exact ⟨hcons, hgrows.trans grows_queue, .inr (by simp)⟩

-- The handler of store does not: what it fails to commit has to be elsewhere.
theorem stored_spec (h : Consistent store.session) (now : ℚ)
    (hwhole : ∀ values ∈ embedding.values, ¬ store.Torn item fault) :
    Consistent (store.stored item now fault embedding).session ∧
      Grows store (store.stored item now fault embedding) ∧
      ((store.stored item now fault embedding).session.committed.Holds item.memoryId ∨
        item.memoryId ∈ (store.stored item now fault embedding).pendingIds ∨
        ∃ values ∈ embedding.values,
          ¬ store.session.Unhindered (item.inserts values now) fault) := by
  cases embedding with
  | raises => exact ⟨h, grows_queue, .inr (.inl (by simp [VectorStore.stored]))⟩
  | returns values =>
      cases values with
      | none => exact ⟨h, grows_queue, .inr (.inl (by simp [VectorStore.stored]))⟩
      | some values =>
          refine ⟨consistent_insert h (hwhole values rfl), grows_insert, ?_⟩
          by_cases hgo : store.session.Unhindered (item.inserts values now) fault
          · exact .inl (holds_insert_self hgo)
          · exact .inr (.inr ⟨values, rfl, hgo⟩)

end Calls

-- Every memory is stored, queued, or on its way.
structure Inv (state : Embedder) : Prop where
  consistent : Consistent state.store.session
  accounted : ∀ id ∈ state.stored, state.store.session.committed.Holds id ∨
    id ∈ state.store.pendingIds ∨ id ∈ state.tasks.flatMap Task.ids

section Steps

variable {state next : Embedder} {index : Nat} {task : Task}

theorem mem_ids_goOn {queue : List Item} {next : Option Item} {id : String} :
    id ∈ (goOn queue next).flatMap Task.ids ↔ id ∈ (queue ++ next.toList).map (·.memoryId) := by
  cases queue with
  | nil => cases next <;> simp [goOn, Task.ids]
  | cons item queue => simp [goOn, Task.ids]

theorem mem_ids_iff {tasks : List Task} (htask : tasks[index]? = some task) {id : String} :
    id ∈ tasks.flatMap Task.ids ↔ id ∈ task.ids ∨ id ∈ (tasks.eraseIdx index).flatMap Task.ids := by
  obtain ⟨hlt, rfl⟩ := List.getElem?_eq_some_iff.mp htask
  have hperm := (List.getElem_cons_eraseIdx_perm hlt).flatMap_right Task.ids
  rw [← hperm.mem_iff, List.flatMap_cons, List.mem_append]

-- One call goes on, and the others wait: `rest` is what it is still going to store.
theorem Inv.advance (h : Inv state) (htask : state.tasks[index]? = some task) {store : VectorStore}
    (after : List Task) (hcons : Consistent store.session) (hgrows : Grows state.store store)
    (hids : ∀ id ∈ task.ids, store.session.committed.Holds id ∨ id ∈ store.pendingIds ∨
      id ∈ after.flatMap Task.ids ∨ id ∈ (state.tasks.eraseIdx index).flatMap Task.ids) :
    Inv { state with store, tasks := state.tasks.eraseIdx index ++ after } where
  consistent := hcons
  accounted := by
    intro id hid
    rw [List.flatMap_append, List.mem_append]
    obtain hstored | hqueued | hheld := h.accounted id hid
    · exact .inl (hgrows.tables id hstored)
    · exact .inr (.inl (hgrows.queue id hqueued))
    · obtain hself | hother := (mem_ids_iff htask).mp hheld
      · obtain hs | hq | ha | ho := hids id hself
        · exact .inl hs
        · exact .inr (.inl hq)
        · exact .inr (.inr (.inr ha))
        · exact .inr (.inr (.inl ho))
      · exact .inr (.inr (.inl hother))

-- A call empties the queue and takes it over.
theorem Inv.enter (h : Inv state) (next : Option Item) :
    Inv { store := { state.store with pendingEmbed := [] }
          tasks := state.tasks ++ goOn state.store.pendingEmbed next
          stored := state.stored ++ next.toList.map (·.memoryId) } where
  consistent := h.consistent
  accounted := by
    intro id hid
    rw [List.flatMap_append, List.mem_append, mem_ids_goOn, List.map_append, List.mem_append]
    obtain hold | hnew := List.mem_append.mp hid
    · obtain hstored | hqueued | hheld := h.accounted id hold
      · exact .inl hstored
      · exact .inr (.inr (.inr (.inl hqueued)))
      · exact .inr (.inr (.inl hheld))
    · exact .inr (.inr (.inr (.inr hnew)))

theorem Inv.resume_retrying (h : Inv state) {item : Item} {queue : List Item} {after : Option Item}
    (htask : state.tasks[index]? = some (.retrying item queue after)) {embedding : Embedding}
    {now : ℚ} {fault : Fault}
    (hwhole : ∀ values ∈ embedding.values, ¬ state.store.Torn item fault) :
    Inv { state with
      store := state.store.retried item now fault embedding
      tasks := state.tasks.eraseIdx index ++ goOn queue after } := by
  obtain ⟨hcons, hgrows, hself⟩ := retried_spec h.consistent now hwhole
  refine h.advance htask _ hcons hgrows fun id hid => ?_
  rw [mem_ids_goOn]
  obtain rfl | hrest := List.mem_cons.mp hid
  · exact hself.imp_right .inl
  · exact .inr (.inr (.inl hrest))

theorem Inv.resume_storing (h : Inv state) {item : Item}
    (htask : state.tasks[index]? = some (.storing item)) {embedding : Embedding} {now : ℚ}
    {fault : Fault}
    (hwell : ∀ values ∈ embedding.values,
      state.StoresWell index values now fault (.storing item)) :
    Inv { state with
      store := state.store.stored item now fault embedding
      tasks := state.tasks.eraseIdx index } := by
  obtain ⟨hcons, hgrows, hself⟩ :=
    stored_spec h.consistent now fun values hvalues => (hwell values hvalues).1
  have hnext := h.advance htask [] hcons hgrows fun id hid => ?_
  · rwa [List.append_nil] at hnext
  · obtain rfl := List.mem_singleton.mp hid
    obtain hstored | hqueued | ⟨values, hvalues, hnot⟩ := hself
    · exact .inl hstored
    · exact .inr (.inl hqueued)
    · obtain hgo | hs | hq | ho := (hwell values hvalues).2
      · exact absurd hgo hnot
      · exact .inl (hgrows.tables _ hs)
      · exact .inr (.inl (hgrows.queue _ hq))
      · exact .inr (.inr (.inr ho))

theorem Inv.cancel (h : Inv state) (htask : state.tasks[index]? = some task)
    (helse : ∀ id ∈ task.ids, state.Elsewhere index id) :
    Inv { state with tasks := state.tasks.eraseIdx index } := by
  have hgrows : Grows state.store state.store := ⟨fun _ hid => hid, fun _ hid => hid⟩
  have hnext := h.advance htask [] h.consistent hgrows fun id hid =>
    (helse id hid).imp_right fun hrest => hrest.imp_right .inr
  rwa [List.append_nil] at hnext

theorem Inv.step (h : Inv state) (event : Event) (hsafe : Careful state event)
    (hstep : step state event = some next) : Inv next := by
  cases event with
  | store item =>
      simp only [MemoryBus.step] at hstep
      split at hstep
      · cases hstep
        exact h.enter (some item)
      · cases hstep
        exact h
  | retryPending =>
      cases hstep
      have hnext := h.enter none
      rwa [Option.toList_none, List.map_nil, List.append_nil] at hnext
  | resume index embedding now fault =>
      simp only [MemoryBus.step] at hstep
      split at hstep
      · cases hstep
      · rename_i item queue after htask
        cases hstep
        exact h.resume_retrying htask (hsafe _ htask)
      · rename_i item htask
        cases hstep
        exact h.resume_storing htask (hsafe _ htask)
  | cancel index =>
      simp only [MemoryBus.step] at hstep
      split at hstep
      · cases hstep
      · rename_i task htask
        cases hstep
        exact h.cancel htask (hsafe task htask)

theorem Inv.noneLostAtRest (h : Inv state) : NoneLostAtRest state := by
  intro hrest id hid tables htables
  have hviews : (state.store.session.committed.Holds id → tables.Holds id) ∧ tables.Agrees := by
    rcases List.mem_pair.mp htables with rfl | rfl
    · exact ⟨fun h => h, h.consistent.committed⟩
    · exact ⟨h.consistent.inView id, h.consistent.working⟩
  refine ⟨?_, hviews.2 id⟩
  obtain hstored | hqueued | hheld := h.accounted id hid
  · exact .inl (hviews.1 hstored)
  · exact .inr hqueued
  · simp [hrest] at hheld

end Steps

-- Every run that keeps to the guard, from tables that agree.
theorem noneLost_always {tables : VecTables} (hagree : tables.Agrees) (available : Bool)
    {events : List Event} (hcareful : Along step Careful (.start tables available) events) :
    Always step NoneLostAtRest (.start tables available) events := by
  have hstart : Inv (.start tables available) := ⟨consistent_idle hagree, fun id hid => by cases hid⟩
  exact hcareful.always Inv (fun state event next h hsafe hstep => h.step event hsafe hstep)
    (fun state h => h.noneLostAtRest) hstart

def VecTables.empty : VecTables := ⟨[], [], List.nodup_nil⟩

def memo (memoryId : String) : Item := { memoryId, content := "tea", agentId := "main" }

-- An embedding that fails, and succeeds when the next call retries it.
theorem noneLost_always_retry :
    Always step NoneLostAtRest (.start .empty true)
      [.store (memo "m1"), .resume 0 (.returns none) 1 ⟨none, false⟩, .store (memo "m2"),
        .resume 0 (.returns (some [1])) 2 ⟨none, false⟩, .resume 0 .raises 2 ⟨none, false⟩] :=
  noneLost_always (by simp [VecTables.Agrees, VecTables.empty, VecTables.memoryIds, VecTables.indexIds])
    true (by decide)

-- A call is cancelled with the queue in its hands; a call of store does not get its lock.
theorem memories_lost :
    ¬ Always step NoneLostAtRest (.start .empty true)
        [.store (memo "m1"), .resume 0 (.returns none) 1 ⟨none, false⟩, .retryPending, .cancel 0] ∧
      ¬ Always step NoneLostAtRest (.start .empty true)
        [.store (memo "m1"), .resume 0 (.returns (some [1])) 1 ⟨some 0, false⟩] := by
  decide

end EvoClaw.MemoryBus
