import EvoClaw.EventSystem.Runs
import EvoClaw.Keyed
import EvoClaw.MessageLoop.Model

namespace EvoClaw.MessageLoop

open EventSystem

variable {host next : Host} {jid : Jid} {message : Message}

namespace Host

theorem mem_getNewMessages {jids : List Jid} {last : Nat} :
    message ∈ host.getNewMessages jids last ↔ message ∈ host.messages ∧
      message.chatJid ∈ jids ∧ last < message.timestamp ∧ message.fromUser = true := by
  simp only [getNewMessages, List.mem_insertionSort, List.mem_filter, decide_eq_true_eq]

theorem run?_eq_some {id : Nat} {run : Run} (h : host.run? jid id = some run) :
    run ∈ host.inFlight ∧ run.id = id ∧ run.jid = jid :=
  Keyed.find?_spec h

-- on_success moves the cursor of its own group up to the largest timestamp of the batch.
theorem advance_cursor_self (ts : Nat) :
    (host.advance jid ts).perJidCursors jid =
      some (max ((host.perJidCursors jid).getD 0) ts) := by
  simp only [advance]
  split_ifs <;> exact Function.update_self ..

theorem advance_cursor_of_ne {other : Jid} (h : other ≠ jid) (ts : Nat) :
    (host.advance jid ts).perJidCursors other = host.perJidCursors other := by
  simp only [advance]
  split_ifs <;> exact Function.update_of_ne h ..

theorem advance_state_self (ts : Nat) :
    (host.advance jid ts).stateCursorJid jid =
      some (max ((host.perJidCursors jid).getD 0) ts) := by
  simp only [advance]
  split_ifs <;> exact Function.update_self ..

theorem advance_lastTimestamp (ts : Nat) :
    (host.advance jid ts).lastTimestamp = max host.lastTimestamp ts := by
  simp only [advance]
  split_ifs with h
  · exact (max_eq_right h.le).symm
  · exact (max_eq_left (Nat.le_of_not_lt h)).symm

theorem advance_frame (host : Host) (jid : Jid) (ts : Nat) :
    (host.advance jid ts).messages = host.messages ∧
      (host.advance jid ts).inFlight = host.inFlight ∧
      (host.advance jid ts).dbGroups = host.dbGroups ∧
      (host.advance jid ts).registeredGroups = host.registeredGroups ∧
      (host.advance jid ts).nextId = host.nextId ∧
      (host.advance jid ts).fetched = host.fetched ∧
      (host.advance jid ts).delivered = host.delivered := by
  simp only [advance]
  split_ifs <;> exact ⟨rfl, rfl, rfl, rfl, rfl, rfl, rfl⟩

end Host

-- The traffic of one process, with the coroutine each event resumes.
inductive Handled (host : Host) : Traffic → Host → Prop where
  | store (message : Message) : Handled host (.store message) (host.storeMessage message)
  | start (jid : Jid) (group : Group) (hg : host.getGroupByJid jid = some group) :
      Handled host (.start jid) (host.startRun jid)
  | fetch (run : Run) (hr : run ∈ host.inFlight) (hrows : run.rows = none) :
      Handled host (.fetch run.jid run.id) (host.fetch run)
  | succeed (run : Run) (rows : List Message) (hr : run ∈ host.inFlight)
      (hrows : run.rows = some rows) :
      Handled host (.succeed run.jid run.id) (host.succeed run rows)
  | fail (run : Run) (hr : run ∈ host.inFlight) :
      Handled host (.fail run.jid run.id) (host.withoutRun run.id)

theorem handle_cases {event : Traffic} (h : host.handle event = some next) :
    Handled host event next := by
  cases event with
  | store message => cases h; exact .store message
  | start jid =>
      obtain ⟨group, hg, rfl⟩ := Option.map_eq_some_iff.mp h
      exact .start jid group hg
  | fetch jid id =>
      obtain ⟨run, hrun, hfetch⟩ := Option.bind_eq_some_iff.mp h
      obtain ⟨hr, rfl, rfl⟩ := Host.run?_eq_some hrun
      split_ifs at hfetch with hrows
      cases hfetch
      exact .fetch run hr (by simpa using hrows)
  | succeed jid id =>
      obtain ⟨run, hrun, hsucceed⟩ := Option.bind_eq_some_iff.mp h
      obtain ⟨rows, hrows, rfl⟩ := Option.map_eq_some_iff.mp hsucceed
      obtain ⟨hr, rfl, rfl⟩ := Host.run?_eq_some hrun
      exact .succeed run rows hr hrows
  | fail jid id =>
      obtain ⟨run, hrun, rfl⟩ := Option.map_eq_some_iff.mp h
      obtain ⟨hr, rfl, rfl⟩ := Host.run?_eq_some hrun
      exact .fail run hr

-- The identity of the coroutines.
structure WellFormed (host : Host) : Prop where
  ids_nodup : (host.inFlight.map Run.id).Nodup
  ids_lt : ∀ run ∈ host.inFlight, run.id < host.nextId

namespace WellFormed

theorem empty : WellFormed {} where
  ids_nodup := List.nodup_nil
  ids_lt := by simp

theorem eq_of_id (h : WellFormed host) {run other : Run} (hr : run ∈ host.inFlight)
    (ho : other ∈ host.inFlight) (hid : run.id = other.id) : run = other :=
  List.inj_on_of_nodup_map h.ids_nodup hr ho hid

theorem run?_of_mem (h : WellFormed host) {run : Run} (hr : run ∈ host.inFlight) :
    host.run? run.jid run.id = some run :=
  Keyed.find?_of_unique hr ⟨rfl, rfl⟩ fun _ ho hother => h.eq_of_id ho hr hother.1

theorem withoutRun (h : WellFormed host) (id : Nat) : WellFormed (host.withoutRun id) where
  ids_nodup := h.ids_nodup.sublist (List.filter_sublist.map _)
  ids_lt := fun run hr => h.ids_lt run (List.mem_of_mem_filter hr)

theorem frame (h : WellFormed host) (hr : next.inFlight = host.inFlight)
    (hn : next.nextId = host.nextId) : WellFormed next := by
  constructor
  · rw [hr]
    exact h.ids_nodup
  · rw [hr, hn]
    exact h.ids_lt

theorem startRun (h : WellFormed host) : WellFormed (host.startRun jid) where
  ids_nodup := by
    simp only [Host.startRun, List.map_append, List.map_cons, List.map_nil]
    refine List.nodup_append.mpr ⟨h.ids_nodup, List.nodup_singleton _, ?_⟩
    intro a ha b hb
    obtain ⟨run, hr, rfl⟩ := List.mem_map.mp ha
    rw [List.mem_singleton.mp hb]
    exact (h.ids_lt run hr).ne
  ids_lt := by
    intro run hr
    rcases List.mem_append.mp hr with hr | hr
    · exact (h.ids_lt run hr).trans (Nat.lt_succ_self _)
    · rw [List.mem_singleton.mp hr]
      exact Nat.lt_succ_self _

theorem fetch (h : WellFormed host) (run : Run) : WellFormed (host.fetch run) := by
  simp only [Host.fetch]
  split_ifs
  · exact (h.withoutRun run.id).frame rfl rfl
  · constructor
    · have hids : (host.inFlight.map fun other => if other.id = run.id then
          { other with rows := some (host.getNewMessages [run.jid] run.cursor) }
          else other).map Run.id = host.inFlight.map Run.id := by
        rw [List.map_map]
        refine List.map_congr_left fun other _ => ?_
        simp only [Function.comp_apply]
        split_ifs <;> rfl
      rw [hids]
      exact h.ids_nodup
    · intro other ho
      obtain ⟨before, hb, rfl⟩ := List.mem_map.mp ho
      have hlt := h.ids_lt before hb
      split_ifs <;> exact hlt

theorem succeed (h : WellFormed host) (run : Run) (rows : List Message) :
    WellFormed (host.succeed run rows) := by
  obtain ⟨_, hf, _, _, hn, _, _⟩ :=
    Host.advance_frame (host.withoutRun run.id) run.jid (maxTimestamp rows)
  exact (h.withoutRun run.id).frame hf hn

theorem handle (h : WellFormed host) {event : Traffic} (hstep : host.handle event = some next) :
    WellFormed next := by
  cases handle_cases hstep with
  | store message =>
      unfold Host.storeMessage
      split_ifs
      · exact h
      · exact h.frame rfl rfl
  | start jid => exact h.startRun
  | fetch run => exact h.fetch run
  | succeed run rows => exact h.succeed run rows
  | fail run => exact h.withoutRun run.id

theorem step (h : WellFormed host) {event : Event} (hstep : host.step event = some next) :
    WellFormed next := by
  cases event with
  | traffic event => exact h.handle hstep
  | registerGroup | monitorReload | refreshGroups =>
      cases hstep
      exact h.frame rfl rfl
  | restart monitorJid cutoff =>
      cases hstep
      exact ⟨List.nodup_nil, by simp [Host.restart, Host.pruneOldLogs, Host.loadState]⟩

theorem of_run {events : List Event} (hrun : run Host.step {} events = some host) :
    WellFormed host :=
  run_invariant WellFormed (fun _ _ _ h hstep => h.step hstep) empty hrun

end WellFormed

end EvoClaw.MessageLoop
