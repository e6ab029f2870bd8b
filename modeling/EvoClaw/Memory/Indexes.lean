import EvoClaw.EventSystem.Runs
import EvoClaw.Memory.Tables

namespace EvoClaw.Memory

open EventSystem Sqlite FullText

variable {tables next : Tables} {db : Connection Tables} {fault : Option Nat}

-- Each index has one entry for each row of its table, and no other.
def Tables.Indexed (tables : Tables) : Prop :=
  Mirrors tables.warmLogsFts (tables.warmLogs.rows.map warmEntry) ∧
    Mirrors tables.coldMemoryFts (tables.coldMemory.rows.map coldEntry)

theorem nodup_warmEntries (tables : Tables) : (tables.warmLogs.rows.map warmEntry).Nodup := by
  refine List.Nodup.of_map WarmEntry.rowid ?_
  rw [List.map_map]
  exact tables.warmLogs.ids

theorem nodup_coldEntries (tables : Tables) : (tables.coldMemory.rows.map coldEntry).Nodup := by
  refine List.Nodup.of_map ColdEntry.rowid ?_
  rw [List.map_map]
  exact tables.coldMemory.ids

theorem fresh_warmEntry {entry : WarmEntry} (he : entry.rowid = tables.warmLogs.sequence + 1) :
    entry ∉ tables.warmLogs.rows.map warmEntry := by
  intro hmem
  obtain ⟨row, hrow, rfl⟩ := List.mem_map.mp hmem
  exact tables.warmLogs.fresh (he ▸ List.mem_map_of_mem (f := Prod.fst) hrow)

theorem fresh_coldEntry {entry : ColdEntry} (he : entry.rowid = tables.coldMemory.sequence + 1) :
    entry ∉ tables.coldMemory.rows.map coldEntry := by
  intro hmem
  obtain ⟨row, hrow, rfl⟩ := List.mem_map.mp hmem
  exact tables.coldMemory.fresh (he ▸ List.mem_map_of_mem (f := Prod.fst) hrow)

theorem indexed_createTables : createTables.Indexed := ⟨mirrors_empty, mirrors_empty⟩

section Statements

-- The row and then its entry.
theorem indexed_appendWarm {log : WarmLog} (h : tables.Indexed)
    (hp : perform [Tables.insertWarmLog log,
      Tables.insertWarmLogFts log.jid log.logDate log.content] tables = some next) :
    next.Indexed := by
  simp only [perform, Tables.insertWarmLog, Tables.insertWarmLogFts, Option.bind_eq_some_iff,
    Option.map_eq_some_iff, Option.some.injEq] at hp
  obtain ⟨_, ⟨warmLogs, hinsert, rfl⟩, _, rfl, rfl⟩ := hp
  obtain ⟨hrows, hsequence⟩ := Table.insert_eq_some hinsert
  refine ⟨?_, h.2⟩
  have hentry : WarmEntry.mk warmLogs.lastInsertRowid log.jid log.logDate log.content =
      warmEntry (tables.warmLogs.sequence + 1, log) := by
    simp only [warmEntry, Table.lastInsertRowid, hsequence]
  rw [hrows, List.map_append, hentry]
  exact h.1.insert (fresh_warmEntry rfl)

theorem indexed_insertColdMemory {memory : ColdMemory} (h : tables.Indexed)
    (hp : perform [Tables.insertColdMemory memory] tables = some next) : next.Indexed := by
  simp only [perform, Tables.insertColdMemory, Option.bind_eq_some_iff, Option.map_eq_some_iff,
    Option.some.injEq] at hp
  obtain ⟨_, ⟨coldMemory, hinsert, rfl⟩, rfl⟩ := hp
  obtain ⟨hrows, hsequence⟩ := Table.insert_eq_some hinsert
  refine ⟨h.1, ?_⟩
  rw [hrows, List.map_append, Table.lastInsertRowid, hsequence]
  exact h.2.insert (fresh_coldEntry rfl)

theorem indexed_deleteColdMemory {jid : String} {cutoff_ts : ℚ} (h : tables.Indexed)
    (hp : perform [Tables.deleteColdMemory jid cutoff_ts] tables = some next) :
    next.Indexed := by
  simp only [perform, Tables.deleteColdMemory, Option.bind_some, Option.some.injEq] at hp
  subst hp
  exact ⟨h.1, h.2.deleteAll (nodup_coldEntries tables) fun row =>
    ColdMemory.before jid cutoff_ts row.2⟩

theorem indexed_setVectorized {log_id : Nat} (h : tables.Indexed)
    (hs : Tables.setVectorized log_id tables = some next) : next.Indexed := by
  cases hs
  refine ⟨?_, h.2⟩
  have hentries : (tables.warmLogs.update log_id fun log =>
      { log with vectorized := true }).rows.map warmEntry = tables.warmLogs.rows.map warmEntry := by
    rw [Table.update_rows, List.map_map]
    refine List.map_congr_left fun row _ => ?_
    by_cases hid : row.1 = log_id <;> simp [hid, warmEntry]
  rw [hentries]
  exact h.1

-- Both statements take the entries of the rows away.
theorem deleteWarm_fts {jid : String} {cutoff_ts : ℚ}
    (hp : perform [Tables.deleteWarmLogsFts jid cutoff_ts, Tables.deleteWarmLogs jid cutoff_ts]
      tables = some next) :
    next = { tables with
      warmLogs := tables.warmLogs.delete (WarmLog.before jid cutoff_ts)
      warmLogsFts := (tables.warmLogsFts.deleteAll
        ((tables.warmLogs.selected (WarmLog.before jid cutoff_ts)).map warmEntry)).deleteAll
        ((tables.warmLogs.selected (WarmLog.before jid cutoff_ts)).map warmEntry) } := by
  simp only [perform, Tables.deleteWarmLogsFts, Tables.deleteWarmLogs, Option.bind_some,
    Option.some.injEq] at hp
  rw [← hp, Index.deleteRowids_eq tables.warmLogs.ids fun row hrow =>
    (Table.mem_selected.mp hrow).1]

theorem indexed_deleteWarm {jid : String} {cutoff_ts : ℚ} (h : tables.Indexed)
    (hnone : tables.warmLogs.selected (WarmLog.before jid cutoff_ts) = [])
    (hp : perform [Tables.deleteWarmLogsFts jid cutoff_ts, Tables.deleteWarmLogs jid cutoff_ts]
      tables = some next) : next.Indexed := by
  rw [deleteWarm_fts hp, hnone]
  refine ⟨?_, h.2⟩
  have hkept : (tables.warmLogs.delete (WarmLog.before jid cutoff_ts)).rows =
      tables.warmLogs.rows := by
    refine List.filter_eq_self.mpr fun row hrow => ?_
    have hnot := List.filter_eq_nil_iff.mp hnone row hrow
    simpa using hnot
  rw [hkept]
  exact h.1

-- The entry of a deleted row is counted -1.
theorem not_indexed_deleteWarm {jid : String} {cutoff_ts : ℚ} {row : Nat × WarmLog}
    (h : tables.Indexed) (hrow : row ∈ tables.warmLogs.selected (WarmLog.before jid cutoff_ts))
    (hp : perform [Tables.deleteWarmLogsFts jid cutoff_ts, Tables.deleteWarmLogs jid cutoff_ts]
      tables = some next) : ¬ next.Indexed := by
  intro hnext
  rw [deleteWarm_fts hp] at hnext
  have hmem : row ∈ tables.warmLogs.rows := (Table.mem_selected.mp hrow).1
  have hone : tables.warmLogsFts (warmEntry row) = 1 :=
    h.1.1 _ (List.mem_map_of_mem hmem)
  have hselected : ((tables.warmLogs.selected (WarmLog.before jid cutoff_ts)).map
      warmEntry).count (warmEntry row) = 1 :=
    List.count_eq_one_of_mem ((nodup_warmEntries tables).sublist (List.filter_sublist.map _))
      (List.mem_map_of_mem hrow)
  have hgone : warmEntry row ∉
      (tables.warmLogs.delete (WarmLog.before jid cutoff_ts)).rows.map warmEntry := by
    intro hkept
    obtain ⟨other, hother, he⟩ := List.mem_map.mp hkept
    have hid : other.1 = row.1 := congrArg WarmEntry.rowid he
    rw [Table.delete_rows, List.mem_filter] at hother
    have heq := List.inj_on_of_nodup_map tables.warmLogs.ids hother.1 hmem hid
    rw [heq, (Table.mem_selected.mp hrow).2] at hother
    exact absurd hother.2 (by simp)
  have hzero : ((tables.warmLogsFts.deleteAll
      ((tables.warmLogs.selected (WarmLog.before jid cutoff_ts)).map warmEntry)).deleteAll
      ((tables.warmLogs.selected (WarmLog.before jid cutoff_ts)).map warmEntry))
      (warmEntry row) = 0 := hnext.1.2 _ hgone
  rw [Index.deleteAll_apply, Index.deleteAll_apply, hone, hselected] at hzero
  exact absurd hzero (by decide)

end Statements

-- The call does not commit the deletion of a warm log.
def KeepsWarmLogs (db : Connection Tables) : Call × Option Nat → Prop
  | (.delete_warm_logs_before jid cutoff_ts, fault) =>
      Undisturbed [Tables.deleteWarmLogsFts jid cutoff_ts, Tables.deleteWarmLogs jid cutoff_ts]
        fault → db.working.warmLogs.selected (WarmLog.before jid cutoff_ts) = []
  | _ => True

theorem indexed_step {event : Call × Option Nat} {after : Connection Tables}
    (h : db.Both Tables.Indexed) (hguard : KeepsWarmLogs db event)
    (hstep : step db event = some after) : after.Both Tables.Indexed := by
  obtain ⟨call, fault⟩ := event
  cases call with
  | append_warm_log jid log_date content importance memory_type now =>
      cases hstep
      exact transact_both h fun _ _ hp => indexed_appendWarm h.2 hp
  | mark_warm_log_vectorized log_id =>
      cases hstep
      have hset : Tables.Indexed ((Tables.setVectorized log_id db.working).getD db.working) :=
        indexed_setVectorized h.2 rfl
      match fault with
      | none => exact ⟨hset, hset⟩
      | some 0 => exact h
      | some 1 => exact ⟨h.1, hset⟩
      | some (_ + 2) => exact ⟨hset, hset⟩
  | delete_warm_logs_before jid cutoff_ts =>
      cases hstep
      exact transact_both h fun _ hu hp => indexed_deleteWarm h.2 (hguard hu) hp
  | append_cold_memory jid title content tags now =>
      cases hstep
      exact transact_both h fun _ _ hp => indexed_insertColdMemory h.2 hp
  | delete_cold_memory_before jid cutoff_ts =>
      cases hstep
      exact transact_both h fun _ _ hp => indexed_deleteColdMemory h.2 hp

theorem keepsWarmLogs_of_indexed {event : Call × Option Nat} {after : Connection Tables}
    (h : db.Both Tables.Indexed) (hstep : step db event = some after)
    (hafter : after.Both Tables.Indexed) : KeepsWarmLogs db event := by
  obtain ⟨call, fault⟩ := event
  cases call with
  | delete_warm_logs_before jid cutoff_ts =>
      intro hu
      cases hstep
      by_contra hsome
      obtain ⟨row, hrow⟩ := List.exists_mem_of_ne_nil _ hsome
      have hp := rfl (a := perform [Tables.deleteWarmLogsFts jid cutoff_ts,
        Tables.deleteWarmLogs jid cutoff_ts] db.working)
      have hafter' := hafter.1
      rw [delete_warm_logs_before, transact_of_perform hu hp] at hafter'
      exact not_indexed_deleteWarm h.2 hrow hp hafter'
  | append_warm_log => trivial
  | mark_warm_log_vectorized => trivial
  | append_cold_memory => trivial
  | delete_cold_memory_before => trivial

-- The indexes mirror their tables for as long as no warm log is deleted.
theorem indexed_iff_keepsWarmLogs (calls : List (Call × Option Nat)) :
    Always step (Connection.Both Tables.Indexed) (opened createTables) calls ↔
      Along step KeepsWarmLogs (opened createTables) calls :=
  always_iff_along (Connection.Both Tables.Indexed)
    (fun _ _ _ h hguard hstep => indexed_step h hguard hstep) (fun _ h => h)
    (fun _ _ _ h hstep hafter => keepsWarmLogs_of_indexed h hstep hafter)
    (both_opened.mpr indexed_createTables)

-- A log is appended and pruned: its entry is taken from the index twice.
theorem pruned_twice :
    ¬ Always step (Connection.Both Tables.Indexed) (opened createTables)
      [(.append_warm_log "a" "2024-01-01" "x" 0 "general" 1, none),
        (.delete_warm_logs_before "a" 2, none)] := by
  intro h
  have hzero := h.2.2.1.1.2 { rowid := 1, jid := "a", logDate := "2024-01-01", content := "x" }
    (by decide +kernel)
  revert hzero
  decide +kernel

end EvoClaw.Memory
