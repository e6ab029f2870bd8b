import EvoClaw.MessageLoop.Lemmas

namespace EvoClaw.MessageLoop

open EventSystem

variable {host next : Host} {jid : Jid} {old : List Message} {message : Message}

-- The message was in a batch of the group whose on_success was called.
def Delivered (host : Host) (jid : Jid) (message : Message) : Prop :=
  ∃ batch ∈ host.delivered, batch.jid = jid ∧ message ∈ batch.rows

instance (host : Host) (jid : Jid) : DecidablePred (Delivered host jid) :=
  fun message => inferInstanceAs (Decidable (∃ batch ∈ host.delivered, _ ∧ message ∈ _))

-- A user message of the group that is not one of the rows of `old`.
def Owed (jid : Jid) (old : List Message) (message : Message) : Prop :=
  message ∉ old ∧ message.chatJid = jid ∧ message.fromUser = true

instance (jid : Jid) (old : List Message) : DecidablePred (Owed jid old) :=
  fun message => inferInstanceAs (Decidable (message ∉ old ∧ _ ∧ _))

def AtLeastOnce (jid : Jid) (old : List Message) (host : Host) : Prop :=
  ∀ message ∈ host.messages, Owed jid old message →
    Delivered host jid message ∨ host.cursor jid < message.timestamp

instance (jid : Jid) (old : List Message) : DecidablePred (AtLeastOnce jid old) :=
  fun host => inferInstanceAs (Decidable (∀ message ∈ host.messages, _ → _ ∨ _))

-- No message is stored at or below the cursor, and no batch succeeds after a message
-- that it missed was stored at or below its largest timestamp.
def arrivesAbove (jid : Jid) (old : List Message) (host : Host) : Traffic → Prop
  | .store message => message.id ∉ host.messages.map Message.id → message.chatJid = jid →
      message.fromUser = true → host.cursor jid < message.timestamp
  | .succeed target id => target = jid → ∀ run ∈ host.inFlight, run.id = id → run.jid = jid →
      ∀ rows ∈ run.rows, ∀ message ∈ host.messages, Owed jid old message →
        run.cursor < message.timestamp → message.timestamp ≤ maxTimestamp rows →
          message ∈ rows ∨ Delivered host jid message
  | _ => True

instance (jid : Jid) (old : List Message) (host : Host) : DecidablePred (arrivesAbove jid old host)
  | .store message => inferInstanceAs (Decidable (message.id ∉ host.messages.map Message.id → _))
  | .succeed target _ => inferInstanceAs (Decidable (target = jid → _))
  | .start _ | .fetch _ _ | .fail _ _ => isTrue trivial

-- From here on the messages and the batches of the group are watched.
def Host.watched (host : Host) : Host :=
  { host with delivered := [] }

structure Tracked (jid : Jid) (old : List Message) (host : Host) : Prop where
  wellFormed : WellFormed host
  entry : (host.perJidCursors jid).isSome
  old_stored : ∀ message ∈ old, message ∈ host.messages
  run_cursor_le : ∀ run ∈ host.inFlight, run.jid = jid → run.cursor ≤ host.cursor jid
  rows_stored : ∀ run ∈ host.inFlight, run.jid = jid → ∀ rows, run.rows = some rows →
    ∀ message ∈ rows, message ∈ host.messages
  delivered_stored : ∀ message, Delivered host jid message → message ∈ host.messages
  atLeastOnce : AtLeastOnce jid old host

theorem cursor_eq_of_entry (h : (host.perJidCursors jid).isSome) :
    host.cursor jid = (host.perJidCursors jid).getD 0 := by
  obtain ⟨cursor, hc⟩ := Option.isSome_iff_exists.mp h
  simp [Host.cursor, hc]

section Succeed

variable {run : Run} {rows : List Message}

theorem delivered_succeed : Delivered (host.succeed run rows) jid message ↔
    Delivered host jid message ∨ run.jid = jid ∧ message ∈ rows := by
  simp only [Delivered, Host.succeed, List.mem_append, List.mem_singleton, or_and_right,
    exists_or, exists_eq_left]

theorem succeed_cursor_self (h : (host.perJidCursors run.jid).isSome) :
    (host.succeed run rows).cursor run.jid =
      max (host.cursor run.jid) (maxTimestamp rows) := by
  rw [cursor_eq_of_entry h]
  change Option.getD (Host.perJidCursors (Host.advance _ _ _) _) _ = _
  rw [Host.advance_cursor_self]
  rfl

theorem succeed_cursor_of_ne (hne : jid ≠ run.jid) (h : (host.perJidCursors jid).isSome) :
    (host.succeed run rows).cursor jid = host.cursor jid := by
  have hsame : (host.succeed run rows).perJidCursors jid = host.perJidCursors jid := by
    change Host.perJidCursors (Host.advance _ _ _) _ = _
    rw [Host.advance_cursor_of_ne hne]
    rfl
  rw [cursor_eq_of_entry h, cursor_eq_of_entry (hsame ▸ h), hsame]

theorem succeed_entry (h : (host.perJidCursors jid).isSome) :
    ((host.succeed run rows).perJidCursors jid).isSome := by
  change (Host.perJidCursors (Host.advance _ _ _) _).isSome
  by_cases hj : jid = run.jid
  · subst hj
    rw [Host.advance_cursor_self]
    rfl
  · rw [Host.advance_cursor_of_ne hj]
    exact h

theorem succeed_messages : (host.succeed run rows).messages = host.messages :=
  (Host.advance_frame (host.withoutRun run.id) run.jid (maxTimestamp rows)).1

theorem mem_succeed_inFlight {other : Run} (h : other ∈ (host.succeed run rows).inFlight) :
    other ∈ host.inFlight := by
  have hf := (Host.advance_frame (host.withoutRun run.id) run.jid (maxTimestamp rows)).2.1
  have h : other ∈ ((host.withoutRun run.id).advance run.jid (maxTimestamp rows)).inFlight := h
  rw [hf] at h
  exact List.mem_of_mem_filter h

end Succeed

namespace Tracked

-- A step that moves neither the cursor nor the messages keeps the invariant when its
-- runs are runs of before.
theorem frame (h : Tracked jid old host) (hw : WellFormed next)
    (hm : next.messages = host.messages) (hc : next.perJidCursors = host.perJidCursors)
    (hl : next.lastTimestamp = host.lastTimestamp) (hd : next.delivered = host.delivered)
    (hr : ∀ run ∈ next.inFlight, run ∈ host.inFlight) : Tracked jid old next where
  wellFormed := hw
  entry := by
    rw [hc]
    exact h.entry
  old_stored := by
    rw [hm]
    exact h.old_stored
  run_cursor_le := by
    have hcursor : next.cursor jid = host.cursor jid := by rw [Host.cursor, hc, hl, Host.cursor]
    rw [hcursor]
    exact fun run hrun => h.run_cursor_le run (hr run hrun)
  rows_stored := by
    rw [hm]
    exact fun run hrun => h.rows_stored run (hr run hrun)
  delivered_stored := by
    simp only [Delivered, hd, hm]
    exact h.delivered_stored
  atLeastOnce := by
    have hcursor : next.cursor jid = host.cursor jid := by rw [Host.cursor, hc, hl, Host.cursor]
    simp only [AtLeastOnce, Delivered, hd, hm, hcursor]
    exact h.atLeastOnce

theorem store (h : Tracked jid old host)
    (hsafe : arrivesAbove jid old host (.store message)) :
    Tracked jid old (host.storeMessage message) := by
  unfold Host.storeMessage
  split_ifs with hid
  · exact h
  · refine
      { h with
        wellFormed := h.wellFormed.frame rfl rfl
        old_stored := fun m hm => List.mem_append_left _ (h.old_stored m hm)
        rows_stored := fun run hr hj rows hrows m hm =>
          List.mem_append_left _ (h.rows_stored run hr hj rows hrows m hm)
        delivered_stored := fun m hm => List.mem_append_left _ (h.delivered_stored m hm)
        atLeastOnce := ?_ }
    intro m hm howed
    rcases List.mem_append.mp hm with hm | hm
    · exact h.atLeastOnce m hm howed
    · obtain rfl := List.mem_singleton.mp hm
      exact Or.inr (hsafe hid howed.2.1 howed.2.2)

theorem startRun (h : Tracked jid old host) (target : Jid) :
    Tracked jid old (host.startRun target) := by
  refine
    { h with
      wellFormed := h.wellFormed.startRun
      run_cursor_le := ?_
      rows_stored := ?_ }
  · intro run hr hj
    rcases List.mem_append.mp hr with hr | hr
    · exact h.run_cursor_le run hr hj
    · obtain rfl := List.mem_singleton.mp hr
      subst hj
      exact le_rfl
  · intro run hr hj rows hrows
    rcases List.mem_append.mp hr with hr | hr
    · exact h.rows_stored run hr hj rows hrows
    · obtain rfl := List.mem_singleton.mp hr
      cases hrows

theorem fetch (h : Tracked jid old host) {run : Run} (hr : run ∈ host.inFlight) :
    Tracked jid old (host.fetch run) := by
  have hw := h.wellFormed.fetch run
  simp only [Host.fetch] at hw ⊢
  split_ifs at hw ⊢ with hempty
  · exact h.frame hw rfl rfl rfl rfl fun other ho => List.mem_of_mem_filter ho
  · have hbefore : ∀ other ∈ (host.inFlight.map fun other => if other.id = run.id then
        { other with rows := some (host.getNewMessages [run.jid] run.cursor) } else other),
        ∃ before ∈ host.inFlight, other.jid = before.jid ∧ other.cursor = before.cursor ∧
          (other.rows = before.rows ∨
            before = run ∧ other.rows = some (host.getNewMessages [run.jid] run.cursor)) := by
      intro other ho
      obtain ⟨before, hb, rfl⟩ := List.mem_map.mp ho
      by_cases hid : before.id = run.id
      · rw [if_pos hid]
        exact ⟨before, hb, rfl, rfl, Or.inr ⟨h.wellFormed.eq_of_id hb hr hid, rfl⟩⟩
      · rw [if_neg hid]
        exact ⟨before, hb, rfl, rfl, Or.inl rfl⟩
    refine { h with wellFormed := hw, run_cursor_le := ?_, rows_stored := ?_ }
    · intro other ho hj
      obtain ⟨before, hb, hjid, hcursor, _⟩ := hbefore other ho
      rw [hcursor]
      exact h.run_cursor_le before hb (hjid ▸ hj)
    · intro other ho hj rows hrows m hm
      obtain ⟨before, hb, hjid, _, hsame | ⟨_, hfetched⟩⟩ := hbefore other ho
      · exact h.rows_stored before hb (hjid ▸ hj) rows (hsame ▸ hrows) m hm
      · rw [hfetched] at hrows
        cases hrows
        exact (Host.mem_getNewMessages.mp hm).1

-- The batch holds every message between the cursor of its query and its largest
-- timestamp, and no cursor of a query is ahead of the cursor of the group.
theorem succeed (h : Tracked jid old host) {run : Run} {rows : List Message}
    (hr : run ∈ host.inFlight) (hrows : run.rows = some rows)
    (hsafe : arrivesAbove jid old host (.succeed run.jid run.id)) :
    Tracked jid old (host.succeed run rows) := by
  have hle : host.cursor jid ≤ (host.succeed run rows).cursor jid := by
    by_cases hj : jid = run.jid
    · subst hj
      rw [succeed_cursor_self h.entry]
      exact le_max_left _ _
    · exact (succeed_cursor_of_ne hj h.entry).ge
  constructor
  · exact h.wellFormed.succeed run rows
  · exact succeed_entry h.entry
  · rw [succeed_messages]
    exact h.old_stored
  · intro other ho hj
    exact (h.run_cursor_le other (mem_succeed_inFlight ho) hj).trans hle
  · rw [succeed_messages]
    exact fun other ho => h.rows_stored other (mem_succeed_inFlight ho)
  · intro m hm
    rw [succeed_messages]
    rcases delivered_succeed.mp hm with hm | ⟨hj, hm⟩
    · exact h.delivered_stored m hm
    · exact h.rows_stored run hr hj rows hrows m hm
  · intro m hm howed
    rw [succeed_messages] at hm
    rw [delivered_succeed]
    rcases h.atLeastOnce m hm howed with hd | hc
    · exact Or.inl (Or.inl hd)
    · by_cases hj : jid = run.jid
      · subst hj
        rw [succeed_cursor_self h.entry]
        by_cases hts : m.timestamp ≤ maxTimestamp rows
        · have hcursor := (h.run_cursor_le run hr rfl).trans_lt hc
          rcases hsafe rfl run hr rfl rfl rows hrows m hm howed hcursor hts with hin | hd
          · exact Or.inl (Or.inr ⟨rfl, hin⟩)
          · exact Or.inl (Or.inl hd)
        · exact Or.inr (max_lt hc (Nat.lt_of_not_le hts))
      · rw [succeed_cursor_of_ne hj h.entry]
        exact Or.inr hc

theorem handle (h : Tracked jid old host) {event : Traffic}
    (hsafe : arrivesAbove jid old host event) (hstep : host.handle event = some next) :
    Tracked jid old next := by
  cases handle_cases hstep with
  | store message => exact h.store hsafe
  | start target => exact h.startRun target
  | fetch run hr => exact h.fetch hr
  | succeed run rows hr hrows => exact h.succeed hr hrows hsafe
  | fail run =>
      exact h.frame (h.wellFormed.withoutRun run.id) rfl rfl rfl rfl
        fun other ho => List.mem_of_mem_filter ho

end Tracked

-- A message that arrives at or below the cursor, or below a batch that then succeeds
-- without it, is lost in that step.
theorem arrivesAbove_of_handle (h : Tracked jid old host) {event : Traffic}
    (hstep : host.handle event = some next) (hnext : AtLeastOnce jid old next) :
    arrivesAbove jid old host event := by
  cases handle_cases hstep with
  | store message =>
      intro hid hj huser
      have hnew : message ∉ host.messages := fun hm => hid (List.mem_map_of_mem hm)
      rw [Host.storeMessage, if_neg hid] at hnext
      have howed : Owed jid old message := ⟨fun hm => hnew (h.old_stored _ hm), hj, huser⟩
      have hlast := hnext message (List.mem_append_right _ (List.mem_singleton_self _)) howed
      exact hlast.resolve_left fun hd => hnew (h.delivered_stored _ hd)
  | succeed run rows hr hrows =>
      rintro hj other ho hid - rows' hrows' m hm howed - hts
      have he : other = run := h.wellFormed.eq_of_id ho hr hid
      subst he hj
      rw [hrows] at hrows'
      cases hrows'
      have hm' : m ∈ (host.succeed other rows).messages := by rwa [succeed_messages]
      rcases hnext m hm' howed with hd | hc
      · rcases delivered_succeed.mp hd with hd | ⟨_, hin⟩
        · exact Or.inr hd
        · exact Or.inl hin
      · rw [succeed_cursor_self h.entry] at hc
        have hmax := le_max_right (host.cursor other.jid) (maxTimestamp rows)
        omega
  | start | fetch | fail => trivial

-- From any reachable state in which the group has its cursor entry and no batch in
-- flight, a message stored from then on is lost in some state of the traffic exactly
-- when one arrives at or below the cursor or below a batch that succeeds without it.
theorem atLeastOnce_iff_arrivesAbove {setup : List Event}
    (hrun : run Host.step {} setup = some host) (hentry : (host.perJidCursors jid).isSome)
    (hidle : ∀ run ∈ host.inFlight, run.jid ≠ jid) (events : List Traffic) :
    Always Host.handle (AtLeastOnce jid host.messages) host.watched events ↔
      Along Host.handle (arrivesAbove jid host.messages) host.watched events := by
  refine always_iff_along (Tracked jid host.messages)
    (fun _ _ _ h hg hstep => h.handle hg hstep) (fun _ h => h.atLeastOnce)
    (fun _ _ _ h hstep hnext => arrivesAbove_of_handle h hstep hnext) ?_
  exact {
    wellFormed := (WellFormed.of_run hrun).frame rfl rfl
    entry := hentry
    old_stored := fun _ hm => hm
    run_cursor_le := fun other ho hj => absurd hj (hidle other ho)
    rows_stored := fun other ho hj => absurd hj (hidle other ho)
    delivered_stored := by simp [Delivered, Host.watched]
    atLeastOnce := fun message hm howed => absurd hm howed.1 }

section OneGroup

def groupA : Group := { jid := "a", folder := "a" }

def registeredA : Host :=
  (({} : Host).setRegisteredGroup groupA).refreshGroups

set_option maxRecDepth 4000 in
theorem later_message_survives :
    Always Host.handle (AtLeastOnce "a" []) registeredA.watched
      [.store (textAt "m" "a" 10), .start "a", .fetch "a" 0, .store (textAt "n" "a" 11),
        .succeed "a" 0, .start "a", .fetch "a" 1, .fail "a" 1] :=
  (atLeastOnce_iff_arrivesAbove
    (show run Host.step {} [.registerGroup groupA, .refreshGroups] = some registeredA from rfl)
    (by decide) (by decide) _).mpr (by decide)

set_option maxRecDepth 4000 in
-- The second message is stored in the millisecond of the first, after its query.
theorem same_millisecond_message_lost :
    ¬ Always Host.handle (AtLeastOnce "a" []) registeredA.watched
      [.store (textAt "m" "a" 10), .start "a", .fetch "a" 0, .store (textAt "n" "a" 10),
        .succeed "a" 0] := by
  decide

end OneGroup

end EvoClaw.MessageLoop
