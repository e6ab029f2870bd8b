import EvoClaw.EventSystem.Runs
import EvoClaw.Memory.VectorIngestor

namespace EvoClaw.Memory

open EventSystem Sqlite

variable {vec0 : Vec0} {host next : Host} {store : VectorStore} {item : Item} {fault : StoreFault}

-- The row of the memory in vec_memories and its vector in vec_index.
def VecTables.Has (tables : VecTables) (id : Nat) : Prop :=
  (∃ row ∈ tables.vecMemories, row.memoryId = id) ∧ ∃ row ∈ tables.vecIndex, row.memoryId = id

def Tables.Marked (tables : Tables) (kept : Nat → Prop) : Prop :=
  ∀ row ∈ tables.warmLogs.rows, row.2.vectorized = true → kept row.1

instance (tables : VecTables) (id : Nat) : Decidable (tables.Has id) :=
  inferInstanceAs (Decidable (_ ∧ _))

instance (tables : Tables) (kept : Nat → Prop) [DecidablePred kept] :
    Decidable (tables.Marked kept) :=
  inferInstanceAs (Decidable (∀ row ∈ _, _))

-- Stored, or queued since the last restart.
def Host.Kept (host : Host) (id : Nat) : Prop :=
  host.vectors.db.committed.Has id ∨ id ∈ host.queued

def Host.Lossless (host : Host) : Prop := host.logs.Both (Tables.Marked · host.Kept)

-- sqlite3.Error is raised in the transaction and the rollback goes through.
def StoreFault.Swallowed (fault : StoreFault) (store : VectorStore) (taken : Bool) : Prop :=
  ∃ place ∈ fault.strikes store taken,
    ¬ (fault.rollbackRaises ∧ (store.inTransaction ∨ 0 < place))

instance (fault : StoreFault) (store : VectorStore) (taken : Bool) :
    Decidable (fault.Swallowed store taken) :=
  inferInstanceAs (Decidable (∃ _ ∈ _, _))

def Phase.stored : Phase → Option Entry
  | .storing entry _ => some entry
  | .sleeping | .loop _ | .retrying _ _ _ | .marking _ _ => none

-- store swallows no error, and nothing that is marked is only queued when the process ends.
def Guarded (vec0 : Vec0) (host : Host) : HostEvent → Prop
  | .store (some embedding) fault _ => ∀ entry ∈ host.phase.stored,
      ¬ fault.Swallowed host.vectors (vec0 entry.id embedding)
  | .restart _ => host.logs.committed.Marked host.vectors.db.committed.Has
  | _ => True

instance (vec0 : Vec0) (host : Host) : ∀ event, Decidable (Guarded vec0 host event)
  | .store (some embedding) fault _ => inferInstanceAs (Decidable (∀ entry ∈ host.phase.stored,
      ¬ fault.Swallowed host.vectors (vec0 entry.id embedding)))
  | .restart _ =>
      inferInstanceAs (Decidable (host.logs.committed.Marked host.vectors.db.committed.Has))
  | .append_warm_log _ _ _ _ _ _ _ | .wake | .enter | .retry _ _ _ | .store none _ _ | .mark _ =>
      isTrue trivial

section Transactions

variable {embedding : List ℚ} {now : ℚ}

theorem VecTables.Has.insert {tables : VecTables} {id : Nat} (h : tables.Has id) :
    ((tables.insertMemory item now).insertEmbedding item embedding).Has id := by
  obtain ⟨⟨row, hrow, hid⟩, vector, hvector, hvid⟩ := h
  refine ⟨?_, vector, List.mem_append_left _ hvector, hvid⟩
  by_cases he : id = item.memoryId
  · exact ⟨_, List.mem_append_right _ (List.mem_singleton_self _), he.symm⟩
  · refine ⟨row, List.mem_append_left _ (List.mem_filter.mpr ⟨hrow, ?_⟩), hid⟩
    simpa [hid] using he

theorem VecTables.has_inserted (tables : VecTables) :
    ((tables.insertMemory item now).insertEmbedding item embedding).Has item.memoryId :=
  ⟨⟨_, List.mem_append_right _ (List.mem_singleton_self _), rfl⟩,
    _, List.mem_append_right _ (List.mem_singleton_self _), rfl⟩

-- Outside of a transaction nothing is pending.
def VectorStore.Settled (store : VectorStore) : Prop :=
  store.inTransaction = false → store.db.working = store.db.committed

theorem transact_cases (vec0 : Vec0) (fault : StoreFault) (item : Item) (embedding : List ℚ)
    (now : ℚ) (hsettled : store.Settled) :
    (∃ next, store.transact vec0 fault item embedding now = (next, .committed) ∧
        next.db =
          opened ((store.db.committed.insertMemory item now).insertEmbedding item embedding) ∧
        next.pendingEmbed = store.pendingEmbed ∧ next.Settled) ∨
      (∃ next, store.transact vec0 fault item embedding now = (next, .rolledBack) ∧
        fault.Swallowed store (vec0 item.memoryId embedding) ∧ next.db.committed = store.db.committed ∧
        next.pendingEmbed = store.pendingEmbed ∧ next.Settled) ∨
      ∃ next, store.transact vec0 fault item embedding now = (next, .raised) ∧
        next.db.committed = store.db.committed ∧ next.pendingEmbed = store.pendingEmbed ∧
        next.Settled := by
  cases hstrikes : fault.strikes store (vec0 item.memoryId embedding) with
  | none =>
      have hworking : store.db.working = store.db.committed := by
        refine hsettled ?_
        cases hin : store.inTransaction with
        | false => rfl
        | true => simp [StoreFault.strikes, hin] at hstrikes
      let tables := (store.db.committed.insertMemory item now).insertEmbedding item embedding
      refine .inl ⟨{ store with db := opened tables }, ?_, rfl, rfl, fun _ => rfl⟩
      simp only [VectorStore.transact, hstrikes, hworking, tables]
  | some place =>
      by_cases hraises : fault.rollbackRaises ∧ (store.inTransaction ∨ 0 < place)
      · let db := { store.db with working := store.db.working.partly item embedding now place }
        refine .inr (.inr ⟨{ store with db := db, inTransaction := true }, ?_, rfl, rfl,
          fun hin => ?_⟩)
        · simp only [VectorStore.transact, hstrikes, if_pos hraises, db]
        · cases hin
      · refine .inr (.inl ⟨{ store with db := store.db.rollback, inTransaction := false }, ?_,
          ⟨place, hstrikes, hraises⟩, rfl, rfl, fun _ => rfl⟩)
        simp only [VectorStore.transact, hstrikes, if_neg hraises]

variable {answer : Option (List ℚ)}

-- What is in both tables stays there.
structure Keeps (store next : VectorStore) : Prop where
  settled : next.Settled
  has : ∀ id, store.db.committed.Has id → next.db.committed.Has id

theorem Keeps.queue {next : VectorStore} (h : Keeps store next) : Keeps store (next.queue item) :=
  ⟨h.settled, h.has⟩

theorem transact_keeps (hsettled : store.Settled) :
    Keeps store (store.transact vec0 fault item embedding now).1 := by
  obtain ⟨next, he, hdb, -, hn⟩ | ⟨next, he, -, hdb, -, hn⟩ | ⟨next, he, hdb, -, hn⟩ :=
    transact_cases vec0 fault item embedding now hsettled
  · rw [he]
    refine ⟨hn, fun _ h => ?_⟩
    rw [hdb]
    exact h.insert
  · rw [he]
    exact ⟨hn, fun _ h => by rw [hdb]; exact h⟩
  · rw [he]
    exact ⟨hn, fun _ h => by rw [hdb]; exact h⟩

theorem keeps_of_transact (hsettled : store.Settled) {next : VectorStore} {outcome : Outcome}
    (he : store.transact vec0 fault item embedding now = (next, outcome)) : Keeps store next := by
  have hkeeps : Keeps store (store.transact vec0 fault item embedding now).1 :=
    transact_keeps hsettled
  rwa [he] at hkeeps

theorem retry_keeps (hsettled : store.Settled) :
    Keeps store (store.retry vec0 item fault now answer) := by
  cases answer with
  | none => exact ⟨hsettled, fun _ h => h⟩
  | some embedding =>
      cases he : store.transact vec0 fault item embedding now with
      | mk next outcome =>
          have hkeeps := keeps_of_transact hsettled he
          simp only [VectorStore.retry, he]
          cases outcome with
          | committed => exact hkeeps
          | rolledBack => exact hkeeps.queue
          | raised => exact hkeeps.queue

theorem store_keeps (hsettled : store.Settled) :
    Keeps store (store.store vec0 item fault now answer).1 := by
  cases answer with
  | none => exact ⟨hsettled, fun _ h => h⟩
  | some embedding =>
      cases he : store.transact vec0 fault item embedding now with
      | mk next outcome =>
          have hkeeps := keeps_of_transact hsettled he
          simp only [VectorStore.store, he]
          cases outcome with
          | committed => exact hkeeps
          | rolledBack => exact hkeeps
          | raised => exact hkeeps

-- Where store returns it has stored the memory or queued it.
theorem store_returned (hsettled : store.Settled)
    (hguard : ∀ embedding ∈ answer, ¬ fault.Swallowed store (vec0 item.memoryId embedding))
    (hreturned : (store.store vec0 item fault now answer).2.isSome) :
    (store.store vec0 item fault now answer).1.db.committed.Has item.memoryId ∨
      item.memoryId ∈ (store.store vec0 item fault now answer).1.pendingEmbed.map (·.memoryId) := by
  cases answer with
  | none =>
      refine .inr (List.mem_map.mpr ⟨item, ?_, rfl⟩)
      exact List.mem_append_right _ (List.mem_singleton_self _)
  | some embedding =>
      obtain ⟨next, he, hdb, -, -⟩ | ⟨next, he, hswallowed, -⟩ | ⟨next, he, -⟩ :=
        transact_cases vec0 fault item embedding now hsettled
      · refine .inl ?_
        simp only [VectorStore.store, he, hdb]
        exact VecTables.has_inserted _
      · exact absurd hswallowed (hguard embedding rfl)
      · simp only [VectorStore.store, he] at hreturned
        cases hreturned

end Transactions

section Logs

variable {tables after : Tables} {kept weaker : Nat → Prop}

theorem Tables.Marked.imp (h : tables.Marked kept) (himp : ∀ id, kept id → weaker id) :
    tables.Marked weaker := fun row hrow hv => himp row.1 (h row hrow hv)

theorem Tables.Marked.append {log : WarmLog} {jid log_date content : String}
    (h : tables.Marked kept) (hnew : log.vectorized = false)
    (hp : perform [Tables.insertWarmLog log, Tables.insertWarmLogFts jid log_date content] tables =
      some after) : after.Marked kept := by
  simp only [perform, Tables.insertWarmLog, Tables.insertWarmLogFts, Option.bind_eq_some_iff,
    Option.map_eq_some_iff, Option.some.injEq] at hp
  obtain ⟨_, ⟨warmLogs, hinsert, rfl⟩, _, rfl, rfl⟩ := hp
  intro row hrow hv
  rw [(Table.insert_eq_some hinsert).1] at hrow
  cases List.mem_append.mp hrow with
  | inl hold => exact h row hold hv
  | inr hlast =>
      rw [List.mem_singleton.mp hlast, hnew] at hv
      cases hv

theorem Tables.Marked.setVectorized {log_id : Nat} (h : tables.Marked kept) (hid : kept log_id)
    (hs : Tables.setVectorized log_id tables = some after) : after.Marked kept := by
  cases hs
  intro row hrow hv
  obtain ⟨old, hold, rfl⟩ := List.mem_map.mp hrow
  by_cases he : old.1 = log_id
  · simpa [he] using hid
  · simp only [if_neg he] at hv ⊢
    exact h old hold hv

theorem marked_mark {logs : Connection Tables} {fault : Option Nat} {log_id : Nat}
    (h : logs.Both (Tables.Marked · kept)) (hid : kept log_id) :
    (mark_warm_log_vectorized fault logs log_id).Both (Tables.Marked · kept) := by
  have hset : Tables.Marked ((Tables.setVectorized log_id logs.working).getD logs.working) kept :=
    Tables.Marked.setVectorized h.2 hid rfl
  match fault with
  | none => exact ⟨hset, hset⟩
  | some 0 => exact h
  | some 1 => exact ⟨h.1, hset⟩
  | some (_ + 2) => exact ⟨hset, hset⟩

end Logs

structure Host.Inv (host : Host) : Prop where
  lossless : host.Lossless
  settled : host.vectors.Settled
  returned : ∀ entry entries, host.phase = .marking entry entries → host.Kept entry.id

theorem Host.Lossless.imp (h : host.Lossless) (hlogs : next.logs = host.logs)
    (hkept : ∀ id, host.Kept id → next.Kept id) : next.Lossless := by
  unfold Host.Lossless
  rw [hlogs]
  exact ⟨h.1.imp hkept, h.2.imp hkept⟩

theorem afterRetry_ne_marking {entry other : Entry} {entries others : List Entry}
    {queue : List Item} : Phase.afterRetry entry entries queue ≠ .marking other others := by
  cases queue with
  | nil => exact fun h => nomatch h
  | cons item queue => exact fun h => nomatch h

theorem Host.Inv.step {event : HostEvent} (h : host.Inv) (hguard : Guarded vec0 host event)
    (hstep : hostStep vec0 host event = some next) : next.Inv := by
  cases event with
  | append_warm_log jid log_date content importance memory_type now fault =>
      cases hstep
      refine ⟨transact_both h.lossless fun _ _ hp => ?_, h.settled, h.returned⟩
      exact Tables.Marked.append h.lossless.2 rfl hp
  | wake =>
      simp only [hostStep] at hstep
      split at hstep
      · cases hstep
        exact ⟨h.lossless, h.settled, fun _ _ he => nomatch he⟩
      · cases hstep
  | enter =>
      simp only [hostStep] at hstep
      split at hstep
      · cases hstep
        exact ⟨h.lossless, h.settled, fun _ _ he => nomatch he⟩
      · split at hstep
        · cases hstep
          exact ⟨h.lossless, h.settled, fun _ _ he => absurd he afterRetry_ne_marking⟩
        · cases hstep
          exact ⟨h.lossless, h.settled, fun _ _ he => nomatch he⟩
      · cases hstep
  | retry answer fault now =>
      simp only [hostStep] at hstep
      split at hstep
      · cases hstep
        refine ⟨h.lossless.imp rfl fun id hid => ?_, (retry_keeps h.settled).settled,
          fun _ _ he => absurd he afterRetry_ne_marking⟩
        exact hid.imp ((retry_keeps h.settled).has id) (List.mem_append_left _)
      · cases hstep
  | store answer fault now =>
      simp only [hostStep] at hstep
      split at hstep
      case h_2 => cases hstep
      case h_1 entry entries hphase =>
        cases hstep
        refine ⟨h.lossless.imp rfl fun id hid => ?_, (store_keeps h.settled).settled,
          fun other others he => ?_⟩
        · exact hid.imp ((store_keeps h.settled).has id) (List.mem_append_left _)
        · have hsome : (host.vectors.store vec0 entry.item fault now answer).2.isSome := by
            by_contra hnone
            rw [if_neg hnone] at he
            cases he
          rw [if_pos hsome] at he
          cases he
          refine (store_returned h.settled (fun embedding hanswer => ?_) hsome).imp id
            (List.mem_append_right _)
          obtain rfl := Option.mem_def.mp hanswer
          exact hguard entry (by rw [hphase]; rfl)
  | mark fault =>
      simp only [hostStep] at hstep
      split at hstep
      case h_2 => cases hstep
      case h_1 entry entries hphase =>
        cases hstep
        exact ⟨marked_mark h.lossless (h.returned entry entries hphase), h.settled,
          fun _ _ he => nomatch he⟩
  | restart available =>
      cases hstep
      have hkept : host.logs.committed.Marked
          fun id => host.vectors.db.committed.Has id ∨ id ∈ ([] : List Nat) :=
        Tables.Marked.imp hguard fun _ hid => .inl hid
      exact ⟨⟨hkept, hkept⟩, fun _ => rfl, fun _ _ he => nomatch he⟩

theorem inv_init : Host.init.Inv where
  lossless := ⟨fun _ h => absurd h List.not_mem_nil, fun _ h => absurd h List.not_mem_nil⟩
  settled _ := rfl
  returned _ _ h := nomatch h

-- What is marked as vectorized is stored, or queued since the last restart.
theorem lossless_of_guarded (vec0 : Vec0) (events : List HostEvent)
    (hguard : Along (hostStep vec0) (Guarded vec0) Host.init events) :
    Always (hostStep vec0) Host.Lossless Host.init events :=
  hguard.always Host.Inv (fun _ _ _ h hg hstep => h.step hg hstep) (fun _ h => h.lossless) inv_init

-- vec0 takes none of the rows of the ingestor, whose ids are integers.
def integerIds : Vec0 := fun _ _ => false

-- A log that is still unmarked at a restart waits in the queue for its embedding, also when the
-- next one comes.
theorem lossless_across_restart :
    Always (hostStep integerIds) Host.Lossless Host.init
      [.append_warm_log "a" "2024-01-01" "x" 0 "general" 1 none, .restart true, .wake, .enter,
        .store none ⟨none, false⟩ 2, .mark none, .enter,
        .append_warm_log "a" "2024-01-01" "y" 0 "general" 3 none, .wake, .enter,
        .retry none ⟨none, false⟩ 4, .store none ⟨none, false⟩ 5, .mark none] :=
  lossless_of_guarded integerIds _ (by decide +kernel)

-- The second INSERT is refused: the row is marked and its vector is nowhere.
theorem swallowed_error_loses :
    ¬ Always (hostStep integerIds) Host.Lossless Host.init
      [.append_warm_log "a" "2024-01-01" "x" 0 "general" 1 none, .wake, .enter,
        .store (some (List.replicate 3072 0)) ⟨none, false⟩ 2, .mark none] := by
  intro h
  have hkept := h.2.2.2.2.2.1 (1, ⟨"a", "2024-01-01", "x", 1, 0, "general", true⟩)
    (by decide +kernel) rfl
  revert hkept
  simp only [Host.Kept]
  decide +kernel

end EvoClaw.Memory
