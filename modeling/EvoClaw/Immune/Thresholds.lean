import EvoClaw.Immune.Model

namespace EvoClaw.Immune

open EventSystem

variable {config : Config} {state next : State} {call : Call}

section Counts

-- How often the sender has called.
def messages (log : List Entry) (senderJid : String) : Nat :=
  log.countP fun entry => entry.senderJid = senderJid

-- How often with something that is stored under this hash.
def sent (config : Config) (log : List Entry) (senderJid patternHash : String) : Nat :=
  log.countP fun entry => entry.senderJid = senderJid ∧ config.hash entry.content = patternHash

-- How often the answer was that the call is a threat.
def threats (log : List Entry) (senderJid : String) : Nat :=
  log.countP fun entry =>
    entry.senderJid = senderJid ∧ (entry.verdict = .injection ∨ entry.verdict = .spam)

-- How often with this content within the hour before `now`.
def sentWithinHour (log : List Entry) (senderJid content : String) (now : Int) : Nat :=
  log.countP fun entry =>
    entry.senderJid = senderJid ∧ entry.content = content ∧ now - 3600 < entry.now

-- The table has counted all the calls of a sender that is not blocked.
def Counted (config : Config) (state : State) : Prop :=
  ∀ senderJid, senderJid ≠ "" → state.table.isSenderBlocked senderJid = false →
    state.table.total senderJid = messages state.log senderJid ∧
      ∀ patternHash, state.table.countAt senderJid patternHash =
        sent config state.log senderJid patternHash

-- What a call does.
inductive Checked (config : Config) (state : State) (call : Call) : Table → Verdict → Prop where
  | emptySender (h : call.senderJid = "") : Checked config state call state.table .emptySender
  | blocked (h : call.senderJid ≠ "")
      (hblocked : state.table.isSenderBlocked call.senderJid = true) :
      Checked config state call state.table .blocked
  | injection (h : call.senderJid ≠ "")
      (hfree : state.table.isSenderBlocked call.senderJid = false)
      (hinjection : config.isInjection call.content = true) :
      Checked config state call
        (recordThreat config state.table call.senderJid call.content "injection" call.now) .injection
  | spam (h : call.senderJid ≠ "")
      (hfree : state.table.isSenderBlocked call.senderJid = false)
      (hinjection : config.isInjection call.content = false)
      (hspam : SPAM_THRESHOLD ≤
        state.table.countAt call.senderJid (config.hash call.content) + 1) :
      Checked config state call
        (recordThreat config (trackMessage state.table call.senderJid (config.hash call.content)
          call.now) call.senderJid call.content "spam" call.now) .spam
  | safe (h : call.senderJid ≠ "")
      (hfree : state.table.isSenderBlocked call.senderJid = false)
      (hinjection : config.isInjection call.content = false)
      (hspam : ¬ SPAM_THRESHOLD ≤
        state.table.countAt call.senderJid (config.hash call.content) + 1) :
      Checked config state call
        (trackMessage state.table call.senderJid (config.hash call.content) call.now) .safe

theorem step_cases (he : step config state call = some next) :
    ∃ table verdict, Checked config state call table verdict ∧
      next = ⟨table, ⟨call, state.table.isSenderBlocked call.senderJid, verdict⟩ :: state.log⟩ := by
  refine ⟨(checkMessage config state.table call.content call.senderJid call.now).1,
    (checkMessage config state.table call.content call.senderJid call.now).2, ?_,
    (Option.some.inj he).symm⟩
  have hrecent : (trackMessage state.table call.senderJid (config.hash call.content)
      call.now).getRecentThreatCount call.senderJid (config.hash call.content) 1 call.now =
      state.table.countAt call.senderJid (config.hash call.content) + 1 :=
    Table.getRecentThreatCount_upsert (by decide)
  unfold checkMessage
  split
  · rename_i h
    exact .emptySender h
  · rename_i h
    split
    · rename_i hblocked
      exact .blocked h hblocked
    · rename_i hfree
      rw [Bool.not_eq_true] at hfree
      split
      · rename_i hinjection
        exact .injection h hfree hinjection
      · rename_i hinjection
        rw [Bool.not_eq_true] at hinjection
        simp only [isSpam, hrecent]
        split
        · rename_i hspam
          exact .spam h hfree hinjection (of_decide_eq_true hspam)
        · rename_i hspam
          exact .safe h hfree hinjection (by simpa using hspam)

section Threat

variable {table : Table} {sender other content kind hash : String} {now : Int}

-- The record is written in any case.
theorem recordThreat_eq : recordThreat config table sender content kind now =
    if THREAT_BLOCK_THRESHOLD ≤ table.total sender + 1 then
      (table.upsert sender (config.hash content) kind now).blockSender sender
    else table.upsert sender (config.hash content) kind now := by
  simp only [recordThreat, Table.recordImmuneThreat, Table.total_upsert, if_true]

theorem isSenderBlocked_recordThreat_of_ne (h : other ≠ sender) :
    (recordThreat config table sender content kind now).isSenderBlocked other =
      table.isSenderBlocked other := by
  rw [recordThreat_eq]
  split
  · rw [Table.isSenderBlocked_blockSender_of_ne h, Table.isSenderBlocked_upsert]
  · exact Table.isSenderBlocked_upsert

-- The sender is blocked when its total reaches the threshold.
theorem isSenderBlocked_recordThreat_self (hfree : table.isSenderBlocked sender = false) :
    (recordThreat config table sender content kind now).isSenderBlocked sender = true ↔
      THREAT_BLOCK_THRESHOLD ≤ table.total sender + 1 := by
  have htotal : (table.upsert sender (config.hash content) kind now).total sender =
      table.total sender + 1 := by rw [Table.total_upsert, if_pos rfl]
  rw [recordThreat_eq]
  split
  · rename_i hreached
    refine iff_of_true (Table.isSenderBlocked_blockSender_self ?_) hreached
    omega
  · rename_i hreached
    rw [Table.isSenderBlocked_upsert, hfree]
    exact iff_of_false (by decide) hreached

theorem total_recordThreat : (recordThreat config table sender content kind now).total other =
    table.total other + if other = sender then 1 else 0 := by
  rw [recordThreat_eq]
  split
  · rw [Table.total_blockSender, Table.total_upsert]
  · exact Table.total_upsert

theorem countAt_recordThreat_of_ne (h : ¬ (other = sender ∧ hash = config.hash content)) :
    (recordThreat config table sender content kind now).countAt other hash =
      table.countAt other hash := by
  rw [recordThreat_eq]
  split
  · rw [Table.countAt_blockSender, Table.countAt_upsert_of_ne h]
  · exact Table.countAt_upsert_of_ne h

theorem countAt_recordThreat_self :
    (recordThreat config table sender content kind now).countAt sender (config.hash content) =
      table.countAt sender (config.hash content) + 1 := by
  rw [recordThreat_eq]
  split
  · rw [Table.countAt_blockSender, Table.countAt_upsert_self]
  · exact Table.countAt_upsert_self

end Threat

-- A table that has one more in the row of the call, and is the same for all other senders.
theorem Counted.extend (h : Counted config state) {table : Table} {entry : Entry}
    (hfree : state.table.isSenderBlocked entry.senderJid = false)
    (hblocked : ∀ other, other ≠ entry.senderJid →
      table.isSenderBlocked other = state.table.isSenderBlocked other)
    (htotal : ∀ other, table.total other =
      state.table.total other + if other = entry.senderJid then 1 else 0)
    (hself : table.countAt entry.senderJid (config.hash entry.content) =
      state.table.countAt entry.senderJid (config.hash entry.content) + 1)
    (hother : ∀ other hash, ¬ (other = entry.senderJid ∧ hash = config.hash entry.content) →
      table.countAt other hash = state.table.countAt other hash) :
    Counted config ⟨table, entry :: state.log⟩ := by
  intro sender hsender hunblocked
  have hbefore : state.table.isSenderBlocked sender = false := by
    by_cases heq : sender = entry.senderJid
    · rw [heq, hfree]
    · rw [← hblocked sender heq]
      exact hunblocked
  obtain ⟨hmessages, hsent⟩ := h sender hsender hbefore
  refine ⟨?_, fun hash => ?_⟩
  · simp only [htotal, hmessages, messages, List.countP_cons, decide_eq_true_eq,
      eq_comm (a := entry.senderJid)]
  · simp only [sent, List.countP_cons, decide_eq_true_eq]
    by_cases hkey : sender = entry.senderJid ∧ hash = config.hash entry.content
    · obtain ⟨rfl, rfl⟩ := hkey
      rw [hself, hsent, sent, if_pos ⟨rfl, rfl⟩]
    · rw [hother sender hash hkey, hsent, sent,
        if_neg fun heq => hkey ⟨heq.1.symm, heq.2.symm⟩, Nat.add_zero]

theorem spam_blocks {table : Table} {sender content : String} {now : Int}
    (hfree : table.isSenderBlocked sender = false)
    (hspam : SPAM_THRESHOLD ≤ table.countAt sender (config.hash content) + 1) :
    (recordThreat config (trackMessage table sender (config.hash content) now) sender content
      "spam" now).isSenderBlocked sender = true := by
  rw [isSenderBlocked_recordThreat_self (by
    rw [trackMessage, Table.recordImmuneThreat, Table.isSenderBlocked_upsert, hfree])]
  have hle : table.countAt sender (config.hash content) ≤ table.total sender :=
    Table.countAt_le_total
  simp only [trackMessage, Table.recordImmuneThreat, Table.total_upsert, if_pos,
    SPAM_THRESHOLD, THREAT_BLOCK_THRESHOLD] at hspam ⊢
  omega

theorem Counted.step (h : Counted config state) (he : step config state call = some next) :
    Counted config next := by
  obtain ⟨table, verdict, hchecked, rfl⟩ := step_cases he
  cases hchecked with
  | emptySender hempty =>
      intro sender hsender hfree
      obtain ⟨hmessages, hsent⟩ := h sender hsender hfree
      have hne : ¬ call.senderJid = sender := fun heq => hsender (heq ▸ hempty)
      simp only [hmessages, hsent, messages, sent, List.countP_cons, hne, false_and, decide_false,
        Bool.false_eq_true, if_false, Nat.add_zero, implies_true, and_self]
  | blocked hnonempty hblocked =>
      intro sender hsender hfree
      obtain ⟨hmessages, hsent⟩ := h sender hsender hfree
      have hne : ¬ call.senderJid = sender := by
        rintro rfl
        rw [hblocked] at hfree
        cases hfree
      simp only [hmessages, hsent, messages, sent, List.countP_cons, hne, false_and, decide_false,
        Bool.false_eq_true, if_false, Nat.add_zero, implies_true, and_self]
  | injection hnonempty hfree hinjection =>
      exact h.extend hfree (fun other hne => isSenderBlocked_recordThreat_of_ne hne)
        (fun other => total_recordThreat) countAt_recordThreat_self
        (fun other hash hkey => countAt_recordThreat_of_ne hkey)
  | spam hnonempty hfree hinjection hspam =>
      -- the row has two more, but the sender is blocked
      intro sender hsender hunblocked
      have hne : sender ≠ call.senderJid := by
        rintro rfl
        rw [spam_blocks hfree hspam] at hunblocked
        cases hunblocked
      rw [isSenderBlocked_recordThreat_of_ne hne, trackMessage, Table.recordImmuneThreat,
        Table.isSenderBlocked_upsert] at hunblocked
      obtain ⟨hmessages, hsent⟩ := h sender hsender hunblocked
      refine ⟨?_, fun hash => ?_⟩
      · simp only [total_recordThreat, trackMessage, Table.recordImmuneThreat, Table.total_upsert,
          if_neg hne, hmessages, messages, List.countP_cons, Ne.symm hne, decide_false,
          Bool.false_eq_true, if_false, Nat.add_zero]
      · rw [countAt_recordThreat_of_ne fun heq => hne heq.1, trackMessage,
          Table.recordImmuneThreat, Table.countAt_upsert_of_ne fun heq => hne heq.1, hsent]
        simp only [sent, List.countP_cons, Ne.symm hne, false_and, decide_false,
          Bool.false_eq_true, if_false, Nat.add_zero]
  | safe hnonempty hfree hinjection hspam =>
      exact h.extend hfree (fun other _ => Table.isSenderBlocked_upsert)
        (fun other => Table.total_upsert) Table.countAt_upsert_self
        (fun other hash hkey => Table.countAt_upsert_of_ne hkey)

theorem counted_initial : Counted config {} := by
  intro sender _ _
  exact ⟨rfl, fun _ => rfl⟩

end Counts

section Blocking

-- Whoever is blocked has been told often enough that a message is a threat.
def BlockedForThreats (state : State) : Prop :=
  ∀ senderJid, state.table.isSenderBlocked senderJid = true →
    THREAT_BLOCK_THRESHOLD ≤ threats state.log senderJid

-- Where the calls of a sender make the call block it, the threats among them are enough.
def ThreatsSuffice (config : Config) (state : State) (call : Call) : Prop :=
  call.senderJid ≠ "" → state.table.isSenderBlocked call.senderJid = false →
    (config.isInjection call.content = true →
      THREAT_BLOCK_THRESHOLD ≤ messages state.log call.senderJid + 1 →
      THREAT_BLOCK_THRESHOLD ≤ threats state.log call.senderJid + 1) ∧
    (config.isInjection call.content = false →
      SPAM_THRESHOLD ≤ sent config state.log call.senderJid (config.hash call.content) + 1 →
      THREAT_BLOCK_THRESHOLD ≤ threats state.log call.senderJid + 1)

theorem threats_le_cons {entry : Entry} {log : List Entry} {sender : String} :
    threats log sender ≤ threats (entry :: log) sender := by
  simp only [threats, List.countP_cons]
  omega

theorem threats_cons_self {entry : Entry} {log : List Entry}
    (h : entry.verdict = .injection ∨ entry.verdict = .spam) :
    threats (entry :: log) entry.senderJid = threats log entry.senderJid + 1 := by
  simp [threats, h]

-- A call that blocks is a threat itself.
theorem blocked_iff_reached (h : Counted config state) {table : Table} {verdict : Verdict}
    (hchecked : Checked config state call table verdict)
    (hfree : state.table.isSenderBlocked call.senderJid = false) :
    table.isSenderBlocked call.senderJid = true ↔ call.senderJid ≠ "" ∧
      ((config.isInjection call.content = true ∧
        THREAT_BLOCK_THRESHOLD ≤ messages state.log call.senderJid + 1) ∨
      (config.isInjection call.content = false ∧ SPAM_THRESHOLD ≤
        sent config state.log call.senderJid (config.hash call.content) + 1)) := by
  cases hchecked with
  | emptySender hempty => simp [hempty ▸ hfree, hempty]
  | blocked hnonempty hblocked => simp [hblocked] at hfree
  | injection hnonempty hfree hinjection =>
      rw [isSenderBlocked_recordThreat_self hfree, (h call.senderJid hnonempty hfree).1]
      simp [hnonempty, hinjection]
  | spam hnonempty hfree hinjection hspam =>
      rw [(h call.senderJid hnonempty hfree).2] at hspam
      rw [spam_blocks hfree (by rw [(h call.senderJid hnonempty hfree).2]; exact hspam)]
      simp [hnonempty, hinjection, hspam]
  | safe hnonempty hfree hinjection hspam =>
      rw [(h call.senderJid hnonempty hfree).2] at hspam
      rw [trackMessage, Table.recordImmuneThreat, Table.isSenderBlocked_upsert]
      simp [hfree, hinjection, hspam]

theorem isSenderBlocked_of_ne {table : Table} {verdict : Verdict}
    (hchecked : Checked config state call table verdict) {sender : String}
    (hne : sender ≠ call.senderJid) :
    table.isSenderBlocked sender = state.table.isSenderBlocked sender := by
  cases hchecked with
  | emptySender => rfl
  | blocked => rfl
  | injection => exact isSenderBlocked_recordThreat_of_ne hne
  | spam =>
      rw [isSenderBlocked_recordThreat_of_ne hne, trackMessage, Table.recordImmuneThreat,
        Table.isSenderBlocked_upsert]
  | safe => exact Table.isSenderBlocked_upsert

theorem threat_of_blocked {table : Table} {verdict : Verdict}
    (hchecked : Checked config state call table verdict)
    (hfree : state.table.isSenderBlocked call.senderJid = false)
    (hblocked : table.isSenderBlocked call.senderJid = true) :
    verdict = .injection ∨ verdict = .spam := by
  cases hchecked with
  | emptySender =>
      rw [hfree] at hblocked
      cases hblocked
  | blocked _ hbefore =>
      rw [hfree] at hbefore
      cases hbefore
  | injection => exact .inl rfl
  | spam => exact .inr rfl
  | safe =>
      rw [trackMessage, Table.recordImmuneThreat, Table.isSenderBlocked_upsert, hfree] at hblocked
      cases hblocked

theorem BlockedForThreats.step (h : Counted config state) (hright : BlockedForThreats state)
    (hguard : ThreatsSuffice config state call)
    (he : Immune.step config state call = some next) : BlockedForThreats next := by
  obtain ⟨table, verdict, hchecked, rfl⟩ := step_cases he
  intro sender hblocked
  by_cases hne : sender = call.senderJid
  · subst hne
    cases hbefore : state.table.isSenderBlocked call.senderJid with
    | true => exact Nat.le_trans (hright _ hbefore) threats_le_cons
    | false =>
        obtain ⟨hnonempty, hreached⟩ := (blocked_iff_reached h hchecked hbefore).mp hblocked
        have hthreat := threat_of_blocked hchecked hbefore hblocked
        rw [@threats_cons_self ⟨call, _, verdict⟩ _ hthreat]
        rcases hreached with ⟨hinjection, hreached⟩ | ⟨hinjection, hreached⟩
        · exact (hguard hnonempty hbefore).1 hinjection hreached
        · exact (hguard hnonempty hbefore).2 hinjection hreached
  · rw [isSenderBlocked_of_ne hchecked hne] at hblocked
    exact Nat.le_trans (hright sender hblocked) threats_le_cons

theorem threatsSuffice_of_step (h : Counted config state)
    (he : Immune.step config state call = some next) (hnext : BlockedForThreats next) :
    ThreatsSuffice config state call := by
  obtain ⟨table, verdict, hchecked, rfl⟩ := step_cases he
  intro hnonempty hfree
  have hsuffice (hreached : table.isSenderBlocked call.senderJid = true) :
      THREAT_BLOCK_THRESHOLD ≤ threats state.log call.senderJid + 1 := by
    have hthreat := threat_of_blocked hchecked hfree hreached
    have henough := hnext call.senderJid hreached
    rwa [@threats_cons_self ⟨call, _, verdict⟩ _ hthreat] at henough
  have hblocks := blocked_iff_reached h hchecked hfree
  exact ⟨fun hinjection hreached => hsuffice (hblocks.mpr ⟨hnonempty, .inl ⟨hinjection, hreached⟩⟩),
    fun hinjection hreached => hsuffice (hblocks.mpr ⟨hnonempty, .inr ⟨hinjection, hreached⟩⟩)⟩

-- Only threats lead to a block exactly when no call reaches a threshold with the help of
-- ordinary ones.
theorem blockedForThreats_iff (config : Config) (calls : List Call) :
    Always (step config) BlockedForThreats {} calls ↔
      Along (step config) (ThreatsSuffice config) {} calls :=
  always_iff_along (fun state => Counted config state ∧ BlockedForThreats state)
    (fun _ _ _ h hguard he => ⟨h.1.step he, h.2.step h.1 hguard he⟩) (fun _ h => h.2)
    (fun _ _ _ h he hnext => threatsSuffice_of_step h.1 he hnext)
    ⟨counted_initial, fun _ h => by cases h⟩

-- A single pattern, and texts as their own hashes.
def onePattern : Config where
  matchesPattern := fun text => text = "jailbreak".toList
  hash := id

def chat : List Call :=
  [⟨"hello", "bob", 0⟩, ⟨"how are you", "bob", 60⟩, ⟨"what is new", "bob", 120⟩,
    ⟨"thank you", "bob", 180⟩, ⟨"jailbreak", "bob", 240⟩]

-- Four ordinary messages and one threat.
theorem chat_blocked :
    ∃ final, run (step onePattern) {} chat = some final ∧
      final.table.isSenderBlocked "bob" = true ∧ threats final.log "bob" = 1 := by
  refine ⟨_, rfl, ?_⟩
  decide +kernel

end Blocking

section Spam

-- A call is answered as spam if and only if it is neither an injection nor by a blocked sender,
-- and the sender has called with its content often enough within the hour.
def SpamSlides (config : Config) : List Entry → Prop
  | [] => True
  | entry :: earlier =>
      (entry.verdict = .spam ↔ config.isInjection entry.content = false ∧
        entry.wasBlocked = false ∧
        SPAM_THRESHOLD ≤ sentWithinHour (entry :: earlier) entry.senderJid entry.content entry.now) ∧
      SpamSlides config earlier

-- Content that has been sent often enough at all has been sent so within the hour. Nobody
-- without a name sends it so often.
def OftenWithinHour (config : Config) (state : State) (call : Call) : Prop :=
  config.isInjection call.content = false →
    state.table.isSenderBlocked call.senderJid = false →
    if call.senderJid = "" then
      ¬ SPAM_THRESHOLD ≤ sentWithinHour state.log call.senderJid call.content call.now + 1
    else SPAM_THRESHOLD ≤ sent config state.log call.senderJid (config.hash call.content) + 1 →
      SPAM_THRESHOLD ≤ sentWithinHour state.log call.senderJid call.content call.now + 1

theorem sentWithinHour_cons {entry : Entry} {log : List Entry} :
    sentWithinHour (entry :: log) entry.senderJid entry.content entry.now =
      sentWithinHour log entry.senderJid entry.content entry.now + 1 := by
  have hnow : entry.now - 3600 < entry.now := by omega
  simp [sentWithinHour, hnow]

theorem sentWithinHour_le {log : List Entry} {sender content : String} {now : Int} :
    sentWithinHour log sender content now ≤ sent config log sender (config.hash content) := by
  apply List.countP_mono_left
  intro entry _ h
  simp only [decide_eq_true_eq] at h ⊢
  exact ⟨h.1, by rw [h.2.1]⟩

theorem spamSlides_step_iff (h : Counted config state) (hright : SpamSlides config state.log)
    (he : Immune.step config state call = some next) :
    SpamSlides config next.log ↔ OftenWithinHour config state call := by
  obtain ⟨table, verdict, hchecked, rfl⟩ := step_cases he
  have hwithin := @sentWithinHour_cons
    ⟨call, state.table.isSenderBlocked call.senderJid, verdict⟩ state.log
  have hle : sentWithinHour state.log call.senderJid call.content call.now ≤
      sent config state.log call.senderJid (config.hash call.content) := sentWithinHour_le
  simp only [SpamSlides, hright, and_true, OftenWithinHour]
  rw [hwithin]
  cases hchecked with
  | emptySender hempty => simp [hempty]
  | blocked hnonempty hblocked => simp [hblocked]
  | injection hnonempty hfree hinjection => simp [hinjection]
  | spam hnonempty hfree hinjection hspam =>
      rw [(h call.senderJid hnonempty hfree).2] at hspam
      simp [hnonempty, hfree, hinjection, hspam]
  | safe hnonempty hfree hinjection hspam =>
      rw [(h call.senderJid hnonempty hfree).2] at hspam
      have hnot : ¬ SPAM_THRESHOLD ≤
          sentWithinHour state.log call.senderJid call.content call.now + 1 := by omega
      simp [hnonempty, hfree, hinjection, hspam, hnot]

-- The window slides exactly as long as nothing is sent often enough with a pause.
theorem spamSlides_iff (config : Config) (calls : List Call) :
    Always (step config) (fun state => SpamSlides config state.log) {} calls ↔
      Along (step config) (OftenWithinHour config) {} calls :=
  always_iff_along (fun state => Counted config state ∧ SpamSlides config state.log)
    (fun _ _ _ h hguard he => ⟨h.1.step he, (spamSlides_step_iff h.1 h.2 he).mpr hguard⟩)
    (fun _ h => h.2) (fun _ _ _ h he hnext => (spamSlides_step_iff h.1 h.2 he).mp hnext)
    ⟨counted_initial, trivial⟩

-- The same greeting once in thirty days.
def greetings : List Call :=
  (List.range 10).map fun month : Nat => ⟨"good morning", "bob", month * 2592000⟩

theorem greetings_spam :
    ∃ final, run (step onePattern) {} greetings = some final ∧
      final.log.head?.map Entry.verdict = some .spam ∧
      final.log.all (fun entry => ! entry.wasBlocked) = true ∧
      sentWithinHour final.log "bob" "good morning" 23328000 = 1 := by
  refine ⟨_, rfl, ?_⟩
  decide +kernel

end Spam

end EvoClaw.Immune
