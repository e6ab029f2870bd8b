import EvoClaw.EventSystem.Runs
import EvoClaw.MessageLoop.Lemmas

namespace EvoClaw.MessageLoop

open EventSystem

variable {jid : Jid}

-- The same event with the batches of other groups failing instead of succeeding.
def mute (jid : Jid) : Event → Event
  | .traffic (.succeed other id) =>
      if other = jid then .traffic (.succeed other id) else .traffic (.fail other id)
  | event => event

-- A run of the host beside the run in which no batch of another group succeeds.
def mutedStep (jid : Jid) : Host × Host → Event → Option (Host × Host) :=
  shadowStep Host.step (mute jid)

def Host.registered (host : Host) (jid : Jid) : Prop :=
  jid ∈ host.registeredGroups.map Group.jid

instance (host : Host) (jid : Jid) : Decidable (host.registered jid) :=
  inferInstanceAs (Decidable (jid ∈ host.registeredGroups.map Group.jid))

def SameFetches (jid : Jid) (pair : Host × Host) : Prop :=
  pair.1.fetched.filter (·.jid = jid) = pair.2.fetched.filter (·.jid = jid)

instance (jid : Jid) : DecidablePred (SameFetches jid) :=
  fun pair => inferInstanceAs (Decidable (pair.1.fetched.filter _ = pair.2.fetched.filter _))

def SameCursor (jid : Jid) (pair : Host × Host) : Prop :=
  pair.1.registered jid → pair.1.cursor jid = pair.2.cursor jid

-- The group fetches the same rows, with the same cursor, as if no other group's batch
-- had succeeded.
def Independent (jid : Jid) (pair : Host × Host) : Prop :=
  SameFetches jid pair ∧ SameCursor jid pair

-- Whenever the cursor of the group comes from the global timestamp, that timestamp is
-- where the group's own batches have left it.
def unmoved (jid : Jid) (pair : Host × Host) : Event → Prop
  | .traffic (.succeed other id) => other ≠ jid → pair.1.registered jid →
      pair.1.perJidCursors jid = none → ∀ run ∈ pair.1.inFlight, run.id = id → run.jid = other →
        ∀ rows, run.rows = some rows → maxTimestamp rows ≤ pair.1.lastTimestamp
  | .monitorReload | .refreshGroups => jid ∈ pair.1.dbGroups.map Group.jid →
      pair.1.perJidCursors jid = none → pair.1.lastTimestamp = pair.2.lastTimestamp
  | .restart monitorJid _ => jid ∈ (startupGroups pair.1.dbGroups monitorJid).map Group.jid →
      (jid ∈ pair.1.dbGroups.map Group.jid → pair.1.stateCursorJid jid = none) →
        pair.1.stateLastTimestamp.getD 0 = pair.2.stateLastTimestamp.getD 0
  | _ => True

-- The two runs agree on everything that the group's batches depend on.
structure Low (jid : Jid) (real shadow : Host) : Prop where
  messages : real.messages = shadow.messages
  dbGroups : real.dbGroups = shadow.dbGroups
  registeredGroups : real.registeredGroups = shadow.registeredGroups
  nextId : real.nextId = shadow.nextId
  entry : real.perJidCursors jid = shadow.perJidCursors jid
  stateEntry : real.stateCursorJid jid = shadow.stateCursorJid jid
  inFlight : real.inFlight.filter (·.jid = jid) = shadow.inFlight.filter (·.jid = jid)
  fetched : real.fetched.filter (·.jid = jid) = shadow.fetched.filter (·.jid = jid)
  fallback : real.registered jid → real.perJidCursors jid = none →
    real.lastTimestamp = shadow.lastTimestamp

section OtherGroups

variable {host next : Host} {run : Run}

-- What a batch of another group leaves alone.
structure OtherGroup (jid : Jid) (host next : Host) : Prop where
  messages : next.messages = host.messages
  dbGroups : next.dbGroups = host.dbGroups
  registeredGroups : next.registeredGroups = host.registeredGroups
  nextId : next.nextId = host.nextId
  entry : next.perJidCursors jid = host.perJidCursors jid
  stateEntry : next.stateCursorJid jid = host.stateCursorJid jid
  inFlight : next.inFlight.filter (·.jid = jid) = host.inFlight.filter (·.jid = jid)
  fetched : next.fetched.filter (·.jid = jid) = host.fetched.filter (·.jid = jid)

theorem id_ne_of_jid (hw : WellFormed host) (hr : run ∈ host.inFlight) (hne : run.jid ≠ jid)
    {other : Run} (ho : other ∈ host.inFlight) (hj : other.jid = jid) : other.id ≠ run.id := by
  intro hid
  rw [hw.eq_of_id ho hr hid] at hj
  exact hne hj

theorem withoutRun_filter (hw : WellFormed host) (hr : run ∈ host.inFlight)
    (hne : run.jid ≠ jid) :
    (host.withoutRun run.id).inFlight.filter (·.jid = jid) =
      host.inFlight.filter (·.jid = jid) := by
  simp only [Host.withoutRun, List.filter_filter]
  refine List.filter_congr fun other ho => ?_
  by_cases hj : other.jid = jid
  · simp [hj, id_ne_of_jid hw hr hne ho hj]
  · simp [hj]

theorem markFetched_filter (hw : WellFormed host) (hr : run ∈ host.inFlight)
    (hne : run.jid ≠ jid) (rows : List Message) :
    (host.inFlight.map fun other => if other.id = run.id then
      { other with rows := some rows } else other).filter (·.jid = jid) =
      host.inFlight.filter (·.jid = jid) := by
  rw [List.filter_map]
  have hjid : (fun other : Run => decide (other.jid = jid)) ∘ (fun other =>
      if other.id = run.id then { other with rows := some rows } else other) =
      fun other => decide (other.jid = jid) := by
    funext other
    simp only [Function.comp_apply]
    split_ifs <;> rfl
  rw [hjid]
  refine (List.map_congr_left fun other ho => ?_).trans (List.map_id _)
  obtain ⟨ho, hj⟩ := List.mem_filter.mp ho
  exact if_neg (id_ne_of_jid hw hr hne ho (by simpa using hj))

namespace OtherGroup

theorem refl (host : Host) : OtherGroup jid host host :=
  ⟨rfl, rfl, rfl, rfl, rfl, rfl, rfl, rfl⟩

theorem withoutRun (hw : WellFormed host) (hr : run ∈ host.inFlight) (hne : run.jid ≠ jid) :
    OtherGroup jid host (host.withoutRun run.id) :=
  { refl host with inFlight := withoutRun_filter hw hr hne }

theorem fetch (hw : WellFormed host) (hr : run ∈ host.inFlight) (hne : run.jid ≠ jid) :
    OtherGroup jid host (host.fetch run) := by
  refine { refl host with inFlight := ?_, fetched := ?_ }
  · simp only [Host.fetch]
    split_ifs
    · exact withoutRun_filter hw hr hne
    · exact markFetched_filter hw hr hne _
  · simp [Host.fetch, List.filter_append, hne]

theorem advance {other : Jid} (hne : other ≠ jid) (ts : Nat) :
    OtherGroup jid host (host.advance other ts) := by
  have hne := Ne.symm hne
  simp only [Host.advance]
  split_ifs
  · exact { refl host with
      entry := Function.update_of_ne hne ..
      stateEntry := Function.update_of_ne hne .. }
  · exact { refl host with
      entry := Function.update_of_ne hne ..
      stateEntry := Function.update_of_ne hne .. }

theorem succeed (hw : WellFormed host) (hr : run ∈ host.inFlight) (hne : run.jid ≠ jid)
    (rows : List Message) : OtherGroup jid host (host.succeed run rows) := by
  have hout := withoutRun hw hr hne
  have hadv : OtherGroup jid (host.withoutRun run.id) _ := advance hne (maxTimestamp rows)
  exact {
    messages := hadv.messages.trans hout.messages
    dbGroups := hadv.dbGroups.trans hout.dbGroups
    registeredGroups := hadv.registeredGroups.trans hout.registeredGroups
    nextId := hadv.nextId.trans hout.nextId
    entry := hadv.entry.trans hout.entry
    stateEntry := hadv.stateEntry.trans hout.stateEntry
    inFlight := hadv.inFlight.trans hout.inFlight
    fetched := hadv.fetched.trans hout.fetched }

end OtherGroup

-- A fetch or a failure of another group, enabled or not.
theorem OtherGroup.tryHandle (hw : WellFormed host) {other : Jid} (hne : other ≠ jid) (id : Nat)
    {event : Traffic} (he : event = .fetch other id ∨ event = .fail other id) :
    OtherGroup jid host (tryStep Host.step host (.traffic event)) ∧
      (tryStep Host.step host (.traffic event)).lastTimestamp = host.lastTimestamp := by
  unfold tryStep
  cases hstep : host.step (.traffic event) with
  | none => exact ⟨refl host, rfl⟩
  | some next =>
      simp only [Option.getD_some]
      cases handle_cases hstep with
      | fetch run hr =>
          have hjid : run.jid = other := by
            rcases he with he | he
            · cases he; rfl
            · cases he
          exact ⟨fetch hw hr (hjid ▸ hne), rfl⟩
      | fail run hr =>
          have hjid : run.jid = other := by
            rcases he with he | he
            · cases he
            · cases he; rfl
          exact ⟨withoutRun hw hr (hjid ▸ hne), rfl⟩
      | store | start | succeed => simp at he

end OtherGroups

section OwnGroup

variable {real shadow : Host} {run : Run}

namespace Low

theorem of_others {next next' : Host} (h : Low jid real shadow) (hr : OtherGroup jid real next)
    (hs : OtherGroup jid shadow next')
    (hl : real.registered jid → real.perJidCursors jid = none →
      next.lastTimestamp = next'.lastTimestamp) : Low jid next next' where
  messages := hr.messages.trans (h.messages.trans hs.messages.symm)
  dbGroups := hr.dbGroups.trans (h.dbGroups.trans hs.dbGroups.symm)
  registeredGroups :=
    hr.registeredGroups.trans (h.registeredGroups.trans hs.registeredGroups.symm)
  nextId := hr.nextId.trans (h.nextId.trans hs.nextId.symm)
  entry := hr.entry.trans (h.entry.trans hs.entry.symm)
  stateEntry := hr.stateEntry.trans (h.stateEntry.trans hs.stateEntry.symm)
  inFlight := hr.inFlight.trans (h.inFlight.trans hs.inFlight.symm)
  fetched := hr.fetched.trans (h.fetched.trans hs.fetched.symm)
  fallback := by
    rw [hr.entry, Host.registered, hr.registeredGroups]
    exact hl

theorem mem_inFlight (h : Low jid real shadow) (hr : run ∈ real.inFlight)
    (hj : run.jid = jid) : run ∈ shadow.inFlight := by
  have hm : run ∈ real.inFlight.filter (·.jid = jid) := List.mem_filter.mpr ⟨hr, by simpa⟩
  rw [h.inFlight] at hm
  exact List.mem_of_mem_filter hm

theorem cursor (h : Low jid real shadow) (hg : real.registered jid) :
    real.cursor jid = shadow.cursor jid := by
  unfold Host.cursor
  rw [← h.entry]
  cases he : real.perJidCursors jid with
  | none => exact h.fallback hg he
  | some cursor => rfl

theorem storeMessage (h : Low jid real shadow) (message : Message) :
    Low jid (real.storeMessage message) (shadow.storeMessage message) := by
  unfold Host.storeMessage
  rw [h.messages]
  split_ifs
  · exact h
  · exact { h with messages := rfl }

theorem startRun (h : Low jid real shadow) {other : Jid} (hg : real.registered other) :
    Low jid (real.startRun other) (shadow.startRun other) := by
  refine { h with nextId := congrArg (· + 1) h.nextId, inFlight := ?_ }
  simp only [Host.startRun, List.filter_append, h.inFlight]
  by_cases hj : other = jid
  · subst hj
    rw [h.nextId, h.cursor hg]
  · simp [hj]

theorem filter_withoutRun (host : Host) (jid : Jid) (id : Nat) :
    (host.withoutRun id).inFlight.filter (·.jid = jid) =
      (host.inFlight.filter (·.jid = jid)).filter (·.id ≠ id) := by
  simp only [Host.withoutRun, List.filter_filter]
  exact List.filter_congr fun _ _ => Bool.and_comm ..

theorem withoutRun (h : Low jid real shadow) (id : Nat) :
    Low jid (real.withoutRun id) (shadow.withoutRun id) :=
  { h with inFlight := by rw [filter_withoutRun, filter_withoutRun, h.inFlight] }

theorem filter_markFetched (host : Host) (jid : Jid) (id : Nat) (rows : List Message) :
    (host.inFlight.map fun other => if other.id = id then
      { other with rows := some rows } else other).filter (·.jid = jid) =
      (host.inFlight.filter (·.jid = jid)).map fun other => if other.id = id then
        { other with rows := some rows } else other := by
  rw [List.filter_map]
  congr 2
  funext other
  simp only [Function.comp_apply]
  split_ifs <;> rfl

theorem fetch (h : Low jid real shadow) : Low jid (real.fetch run) (shadow.fetch run) := by
  have hrows : real.getNewMessages [run.jid] run.cursor =
      shadow.getNewMessages [run.jid] run.cursor := by
    simp only [Host.getNewMessages, h.messages]
  simp only [Host.fetch, hrows]
  split_ifs
  · refine { (h.withoutRun run.id) with fetched := ?_ }
    rw [List.filter_append, List.filter_append, h.fetched]
  · refine { h with inFlight := ?_, fetched := ?_ }
    · exact (filter_markFetched real jid run.id _).trans
        ((congrArg _ h.inFlight).trans (filter_markFetched shadow jid run.id _).symm)
    · simp only [List.filter_append, h.fetched]

theorem advance (h : Low jid real shadow) (ts : Nat) :
    Low jid (real.advance jid ts) (shadow.advance jid ts) := by
  obtain ⟨hm, hf, hd, hr, hn, hq, _⟩ := Host.advance_frame real jid ts
  obtain ⟨hm', hf', hd', hr', hn', hq', _⟩ := Host.advance_frame shadow jid ts
  have hentry : (real.advance jid ts).perJidCursors jid =
      (shadow.advance jid ts).perJidCursors jid := by
    rw [Host.advance_cursor_self, Host.advance_cursor_self, h.entry]
  exact {
    messages := hm.trans (h.messages.trans hm'.symm)
    dbGroups := hd.trans (h.dbGroups.trans hd'.symm)
    registeredGroups := hr.trans (h.registeredGroups.trans hr'.symm)
    nextId := hn.trans (h.nextId.trans hn'.symm)
    entry := hentry
    stateEntry := by rw [Host.advance_state_self, Host.advance_state_self, h.entry]
    inFlight := by rw [hf, hf', h.inFlight]
    fetched := by rw [hq, hq', h.fetched]
    fallback := fun _ hnone => by
      rw [Host.advance_cursor_self] at hnone
      cases hnone }

theorem succeed (h : Low jid real shadow) (hj : run.jid = jid) (rows : List Message) :
    Low jid (real.succeed run rows) (shadow.succeed run rows) := by
  subst hj
  exact { (h.withoutRun run.id).advance (maxTimestamp rows) with }

end Low

theorem registered_of_getGroupByJid {host : Host} {group : Group}
    (h : host.getGroupByJid jid = some group) : host.registered jid := by
  exact List.mem_map.mpr ⟨group, Keyed.find?_spec h⟩

theorem mem_startupGroups {groups : List Group} (monitorJid : Option Jid)
    (h : jid ∈ groups.map Group.jid) :
    jid ∈ (startupGroups groups monitorJid).map Group.jid := by
  cases monitorJid with
  | none => exact h
  | some monitor =>
      obtain ⟨group, hg, rfl⟩ := List.mem_map.mp h
      have hkept : ∀ other : Group, (if (monitorGroup monitor).isMain ∧ other.jid ≠ monitor then
          { other with isMain := false } else other) = other := by
        intro other
        exact if_neg fun hc => by simp [monitorGroup] at hc
      simp only [startupGroups, upsertGroup]
      split_ifs
      · exact List.mem_map_of_mem hg
      · rw [List.map_map, List.map_map]
        refine List.mem_map.mpr ⟨group, hg, ?_⟩
        simp only [Function.comp_apply]
        by_cases hj : group.jid = monitor
        · simp [monitorGroup, hj]
        · simp [monitorGroup, hj]
      · rw [List.map_append, List.map_map]
        refine List.mem_append_left _ (List.mem_map.mpr ⟨group, hg, ?_⟩)
        simp only [Function.comp_apply]
        split_ifs <;> rfl

namespace Low

theorem handle (h : Low jid real shadow) (hw : WellFormed real) (hw' : WellFormed shadow)
    {event : Traffic} {next : Host} (hsafe : unmoved jid (real, shadow) (.traffic event))
    (hstep : real.handle event = some next) :
    Low jid next (tryStep Host.step shadow (mute jid (.traffic event))) := by
  cases handle_cases hstep with
  | store message => exact h.storeMessage message
  | start other group hg =>
      have henabled : tryStep Host.step shadow (mute jid (.traffic (.start other))) =
          shadow.startRun other := by
        have hg' : shadow.getGroupByJid other = some group := by
          rw [← hg, Host.getGroupByJid, Host.getGroupByJid, h.registeredGroups]
        simp [tryStep, mute, Host.step, Host.handle, hg']
      rw [henabled]
      exact h.startRun (registered_of_getGroupByJid hg)
  | fetch run hr hrows =>
      by_cases hj : run.jid = jid
      · have henabled : tryStep Host.step shadow (mute jid (.traffic (.fetch run.jid run.id))) =
            shadow.fetch run := by
          have hrun := hw'.run?_of_mem (h.mem_inFlight hr hj)
          simp [tryStep, mute, Host.step, Host.handle, hrun, hrows]
        rw [henabled]
        exact h.fetch
      · have hs := OtherGroup.tryHandle hw' hj run.id (Or.inl rfl)
        exact h.of_others (.fetch hw hr hj) hs.1 fun hg he => (h.fallback hg he).trans hs.2.symm
  | succeed run rows hr hrows =>
      by_cases hj : run.jid = jid
      · have henabled : tryStep Host.step shadow (mute jid (.traffic (.succeed run.jid run.id))) =
            shadow.succeed run rows := by
          have hrun := hw'.run?_of_mem (h.mem_inFlight hr hj)
          rw [mute, if_pos hj]
          simp [tryStep, Host.step, Host.handle, hrun, hrows]
        rw [henabled]
        exact h.succeed hj rows
      · rw [mute, if_neg hj]
        have hs := OtherGroup.tryHandle hw' hj run.id (Or.inr rfl)
        refine h.of_others (.succeed hw hr hj rows) hs.1 fun hg he => ?_
        have hts := hsafe hj hg he run hr rfl rfl rows hrows
        change Host.lastTimestamp (Host.advance _ _ _) = _
        rw [Host.advance_lastTimestamp, hs.2, ← h.fallback hg he]
        exact max_eq_left hts
  | fail run hr =>
      by_cases hj : run.jid = jid
      · have henabled : tryStep Host.step shadow (mute jid (.traffic (.fail run.jid run.id))) =
            shadow.withoutRun run.id := by
          have hrun := hw'.run?_of_mem (h.mem_inFlight hr hj)
          simp [tryStep, mute, Host.step, Host.handle, hrun]
        rw [henabled]
        exact h.withoutRun run.id
      · have hs := OtherGroup.tryHandle hw' hj run.id (Or.inr rfl)
        exact h.of_others (.withoutRun hw hr hj) hs.1
          fun hg he => (h.fallback hg he).trans hs.2.symm

theorem reloadGroups (h : Low jid real shadow)
    (hsafe : unmoved jid (real, shadow) .monitorReload) :
    Low jid real.reloadGroups shadow.reloadGroups :=
  { h with registeredGroups := h.dbGroups, fallback := fun hg he => hsafe hg he }

theorem refreshGroups (h : Low jid real shadow)
    (hsafe : unmoved jid (real, shadow) .refreshGroups) :
    Low jid real.refreshGroups shadow.refreshGroups := by
  refine { h with registeredGroups := h.dbGroups, entry := ?_, fallback := fun hg he => ?_ }
  · simp only [Host.refreshGroups, ← h.dbGroups, ← h.entry]
    split_ifs with hdb
    · cases hc : real.perJidCursors jid with
      | none =>
          have hl : real.lastTimestamp = shadow.lastTimestamp := hsafe hdb hc
          simp [hl]
      | some cursor => rfl
    · rfl
  · have hdb : jid ∈ real.dbGroups.map Group.jid := hg
    simp only [Host.refreshGroups, if_pos hdb] at he
    cases he

theorem restart (h : Low jid real shadow) {monitorJid : Option Jid} {cutoff : Nat}
    (hsafe : unmoved jid (real, shadow) (.restart monitorJid cutoff)) :
    Low jid (real.restart monitorJid cutoff) (shadow.restart monitorJid cutoff) where
  messages := by simp only [Host.restart, Host.pruneOldLogs, Host.loadState, h.messages]
  dbGroups := by simp only [Host.restart, h.dbGroups]
  registeredGroups := by simp only [Host.restart, h.dbGroups]
  nextId := h.nextId
  entry := by
    simp only [Host.restart, Host.pruneOldLogs, Host.loadState, ← h.dbGroups, ← h.stateEntry]
    split_ifs with hdb
    · cases hc : real.stateCursorJid jid with
      | none => simp [hsafe (mem_startupGroups monitorJid hdb) fun _ => hc]
      | some cursor => rfl
    · rfl
  stateEntry := h.stateEntry
  inFlight := rfl
  fetched := h.fetched
  fallback := by
    intro hg he
    refine hsafe hg fun hdb => ?_
    simp only [Host.restart, Host.pruneOldLogs, Host.loadState, if_pos hdb] at he
    cases he

theorem step (h : Low jid real shadow) (hw : WellFormed real) (hw' : WellFormed shadow)
    {event : Event} {next : Host} (hsafe : unmoved jid (real, shadow) event)
    (hstep : real.step event = some next) :
    Low jid next (tryStep Host.step shadow (mute jid event)) := by
  cases event with
  | traffic event => exact h.handle hw hw' hsafe hstep
  | registerGroup group =>
      cases hstep
      exact { h with dbGroups := congrArg (upsertGroup · group) h.dbGroups }
  | monitorReload => cases hstep; exact h.reloadGroups hsafe
  | refreshGroups => cases hstep; exact h.refreshGroups hsafe
  | restart monitorJid cutoff => cases hstep; exact h.restart hsafe

theorem independent (h : Low jid real shadow) : Independent jid (real, shadow) :=
  ⟨h.fetched, fun hg => h.cursor hg⟩

end Low

theorem Host.cursor_of_none {host : Host} (h : host.perJidCursors jid = none) :
    host.cursor jid = host.lastTimestamp := by
  rw [cursor, h]
  rfl

-- A global timestamp that another group has moved becomes the group's cursor at once.
theorem unmoved_of_step (h : Low jid real shadow) (hw : WellFormed real) (hw' : WellFormed shadow)
    {event : Event} {next : Host} (hstep : real.step event = some next)
    (hnext : SameCursor jid (next, tryStep Host.step shadow (mute jid event))) :
    unmoved jid (real, shadow) event := by
  cases event with
  | registerGroup => trivial
  | traffic event =>
      cases handle_cases hstep with
      | store | start | fetch | fail => trivial
      | succeed run rows hr hrows =>
          intro hne hg he other ho hid _ rows' hrows'
          have hsame : other = run := hw.eq_of_id ho hr hid
          subst hsame
          rw [hrows] at hrows'
          cases hrows'
          have hreal := OtherGroup.succeed hw hr hne rows
          rw [mute, if_neg hne] at hnext
          have hs := OtherGroup.tryHandle hw' hne other.id (Or.inr rfl)
          have hcursor := hnext (by rw [Host.registered, hreal.registeredGroups]; exact hg)
          rw [Host.cursor_of_none (hreal.entry.trans he),
            Host.cursor_of_none (hs.1.entry.trans (h.entry ▸ he)), hs.2, ← h.fallback hg he] at hcursor
          change Host.lastTimestamp (Host.advance _ _ _) = _ at hcursor
          rw [Host.advance_lastTimestamp] at hcursor
          exact hcursor ▸ le_max_right _ _
  | monitorReload =>
      cases hstep
      intro hdb he
      have hcursor := hnext hdb
      have he : real.perJidCursors jid = none := he
      have he' : shadow.perJidCursors jid = none := h.entry ▸ he
      change real.cursor jid = shadow.cursor jid at hcursor
      rwa [Host.cursor_of_none he, Host.cursor_of_none he'] at hcursor
  | refreshGroups =>
      cases hstep
      intro hdb he
      have hcursor := hnext hdb
      have he : real.perJidCursors jid = none := he
      have he' : shadow.perJidCursors jid = none := h.entry ▸ he
      change real.refreshGroups.cursor jid = shadow.refreshGroups.cursor jid at hcursor
      simpa only [Host.cursor, Host.refreshGroups, ← h.dbGroups, if_pos hdb, he, he',
        Option.getD_some, Option.getD_none] using hcursor
  | restart monitorJid cutoff =>
      cases hstep
      intro hg hentry
      have hcursor := hnext hg
      change (real.restart monitorJid cutoff).cursor jid =
        (shadow.restart monitorJid cutoff).cursor jid at hcursor
      simp only [Host.cursor, Host.restart, Host.pruneOldLogs, Host.loadState,
        ← h.dbGroups] at hcursor
      by_cases hdb : jid ∈ real.dbGroups.map Group.jid
      · have he : real.stateCursorJid jid = none := hentry hdb
        have he' : shadow.stateCursorJid jid = none := h.stateEntry ▸ he
        simpa only [if_pos hdb, he, he', Option.getD_some, Option.getD_none] using hcursor
      · simpa only [if_neg hdb, Option.getD_none] using hcursor

end OwnGroup

-- In every run, the group fetches the rows it would fetch, with the cursor it would use,
-- if no other group's batch had succeeded, exactly when no cursor of the group comes
-- from a global timestamp that another group's batch has moved.
theorem independent_iff_unmoved (events : List Event) :
    Always (mutedStep jid) (Independent jid) ({}, {}) events ↔
      Along (mutedStep jid) (unmoved jid) ({}, {}) events := by
  refine always_iff_along
    (fun pair : Host × Host => Low jid pair.1 pair.2 ∧ WellFormed pair.1 ∧ WellFormed pair.2)
    ?_ (fun _ h => h.1.independent) ?_ ⟨?_, .empty, .empty⟩
  · rintro ⟨real, shadow⟩ event next ⟨hlow, hw, hw'⟩ hsafe hstep
    obtain ⟨hreal, hshadow⟩ := shadowStep_eq_some.mp hstep
    rw [hshadow]
    exact ⟨hlow.step hw hw' hsafe hreal, hw.step hreal,
      tryStep_invariant (fun _ _ _ h hs => h.step hs) hw'⟩
  · rintro ⟨real, shadow⟩ event ⟨next, next'⟩ ⟨hlow, hw, hw'⟩ hstep hnext
    obtain ⟨hreal, hshadow⟩ := shadowStep_eq_some.mp hstep
    dsimp only at hreal hshadow
    subst hshadow
    exact unmoved_of_step hlow hw hw' hreal hnext.2
  · exact ⟨rfl, rfl, rfl, rfl, rfl, rfl, rfl, rfl, fun _ _ => rfl⟩

-- The muted component is itself a run of the host, of the same events muted.
theorem muted_run {host muted : Host} {events : List Event}
    (hrun : run (mutedStep jid) ({}, {}) events = some (host, muted)) :
    run Host.step {} events = some host ∧
      muted = (events.map (mute jid)).foldl (tryStep Host.step) {} :=
  run_shadowStep hrun

set_option maxRecDepth 4000 in
-- "m" is registered through /monitor, so it has no cursor entry when the batch of "a"
-- moves the global timestamp past its pending message.
theorem monitor_group_misses_message :
    ¬ Always (mutedStep "m") (SameFetches "m") ({}, {})
      [.registerGroup { jid := "a", folder := "a" }, .refreshGroups,
        .registerGroup (monitorGroup "m"), .monitorReload,
        .traffic (.store (textAt "1" "m" 5)), .traffic (.store (textAt "2" "a" 10)),
        .traffic (.start "a"), .traffic (.fetch "a" 0), .traffic (.succeed "a" 0),
        .traffic (.start "m"), .traffic (.fetch "m" 1)] := by
  decide

end EvoClaw.MessageLoop
