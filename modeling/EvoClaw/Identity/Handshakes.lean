import EvoClaw.Identity.Registry
import EvoClaw.Keyed
import Mathlib.Tactic.Linarith
import Mathlib.Tactic.Tauto

namespace EvoClaw.Identity

open EventSystem

variable {state next : State} {event : Event} {target : String} {now : ℚ}

-- Every completion is of a handshake that was issued with its nonce for its pair, in time.
def CompletedInTime (state : State) : Prop :=
  ∀ completion ∈ state.completed, ∃ issue ∈ state.issued, issue.nonce = completion.nonce ∧
    issue.initiatorId = completion.initiatorId ∧ issue.targetId = completion.targetId ∧
    issue.time ≤ completion.time ∧ completion.time ≤ issue.time + NONCE_TTL_SECS

-- No window of less than the lifetime of a nonce has more than five handshakes of a target.
def RateLimited (state : State) : Prop :=
  ∀ target (window : ℚ → Bool),
    (∀ s t, window s = true → window t = true → t - s < NONCE_TTL_SECS) →
    (state.issued.countP fun issue => issue.targetId = target ∧ window issue.time) ≤ 5

-- At most five handshakes of a target are issued in a window that is open at one end.
def HalfOpenLimited (state : State) : Prop :=
  ∀ target start,
    (state.issued.countP fun issue => issue.targetId = target ∧
      start ≤ issue.time ∧ issue.time < start + NONCE_TTL_SECS) ≤ 5 ∧
    (state.issued.countP fun issue => issue.targetId = target ∧
      start < issue.time ∧ issue.time ≤ start + NONCE_TTL_SECS) ≤ 5

structure HandshakesSafe (state : State) : Prop where
  once : (state.completed.map Record.nonce).Nodup
  issuedOnce : (state.issued.map Record.nonce).Nodup
  inTime : CompletedInTime state
  limited : HalfOpenLimited state

-- The event makes the bot trusted.
def Promotes (state : State) (botId : String) : Event → Prop
  | .trust other => botId = other
  | .complete now initiatorId targetId nonce =>
      (state.registry.completeHandshake now initiatorId targetId nonce).2 = true ∧
        (botId = initiatorId ∨ botId = targetId)
  | .register _ | .initiate _ _ _ _ | .updateLastSeen _ _ => False
  | .purgeStaleBots _ _ | .purgeStaleHandshakes _ _ => False

-- A stored bot that is trusted after the event and was not before is one that it promotes.
def PromotesOnly (state : State) (event : Event) : Prop :=
  ∀ next botId before after, step state event = some next →
    state.registry.lookup botId = some before → next.registry.lookup botId = some after →
    before.trusted = false → after.trusted = true → Promotes state botId event

-- The times at which handshakes of the target were issued.
def times (issued : List Record) (target : String) : List ℚ :=
  (issued.filter fun issue => issue.targetId = target).map Record.time

structure Tracked (state : State) : Prop where
  past : ∀ issue ∈ state.issued, issue.time ≤ state.clock
  issuedOnce : (state.issued.map Record.nonce).Nodup
  rows : ∀ row ∈ state.registry.handshakes,
    ⟨row.nonce, row.initiatorBotId, row.targetBotId, row.initiatedAt⟩ ∈ state.issued
  rowsOnce : (state.registry.handshakes.map Handshake.nonce).Nodup
  spent : ∀ completion ∈ state.completed, ∀ row ∈ state.registry.handshakes,
    row.nonce = completion.nonce → row.status ≠ .pending
  once : (state.completed.map Record.nonce).Nodup
  inTime : CompletedInTime state
  recent : ∀ target, BotRegistry.prune state.clock (times state.issued target) =
    BotRegistry.prune state.clock (state.registry.pendingHandshakes.get target)
  limited : RateLimited state
  keys : (state.registry.pendingHandshakes.map Prod.fst).Nodup
  distinct : (state.registry.bots.map BotIdentity.botId).Nodup

section Timestamps

variable {pending : Timestamps} {other : String} {list : List ℚ} {clock : ℚ}

theorem get_set_self : (pending.set target list).get target = list := by
  induction pending with
  | nil => simp [Timestamps.set, Timestamps.get]
  | cons entry pending ih =>
      obtain ⟨key, value⟩ := entry
      simp only [Timestamps.set]
      split
      · simp [Timestamps.get]
      · rename_i hkey
        rw [Timestamps.get, List.lookup_cons, beq_false_of_ne (Ne.symm hkey)]
        exact ih

theorem get_set_of_ne (h : other ≠ target) :
    (pending.set target list).get other = pending.get other := by
  induction pending with
  | nil => simp [Timestamps.set, Timestamps.get, List.lookup_cons, beq_false_of_ne h]
  | cons entry pending ih =>
      obtain ⟨key, value⟩ := entry
      simp only [Timestamps.set]
      split
      · rename_i hkey
        simp only [Timestamps.get, List.lookup_cons, beq_false_of_ne h,
          show (other == key) = false from beq_false_of_ne (hkey ▸ h)]
      · simp only [Timestamps.get, List.lookup_cons] at ih ⊢
        split
        · rfl
        · exact ih

theorem keys_set_subset : ∀ key ∈ (pending.set target list).map Prod.fst,
    key = target ∨ key ∈ pending.map Prod.fst := by
  induction pending with
  | nil => simp [Timestamps.set]
  | cons entry pending ih =>
      simp only [Timestamps.set]
      split
      · rename_i hkey
        simp only [List.map_cons, List.mem_cons]
        tauto
      · simp only [List.map_cons, List.mem_cons]
        rintro key (rfl | hmem)
        · exact .inr (.inl rfl)
        · exact (ih key hmem).imp_right .inr

theorem keys_set_nodup (h : (pending.map Prod.fst).Nodup) :
    ((pending.set target list).map Prod.fst).Nodup := by
  induction pending with
  | nil => simp [Timestamps.set]
  | cons entry pending ih =>
      obtain ⟨hnot, hrest⟩ := List.nodup_cons.mp h
      simp only [Timestamps.set]
      split
      · rename_i hkey
        rw [List.map_cons, List.nodup_cons]
        exact ⟨hkey ▸ hnot, hrest⟩
      · rename_i hkey
        rw [List.map_cons, List.nodup_cons]
        exact ⟨fun hmem => (keys_set_subset _ hmem).elim hkey hnot, ih hrest⟩

-- A key without times is as good as none.
theorem get_evict (h : (pending.map Prod.fst).Nodup) :
    Timestamps.get (pending.filter fun entry => entry.2 ≠ []) target = pending.get target := by
  induction pending with
  | nil => rfl
  | cons entry pending ih =>
      obtain ⟨key, value⟩ := entry
      obtain ⟨hnot, hrest⟩ := List.nodup_cons.mp h
      by_cases hvalue : value = []
      · rw [List.filter_cons_of_neg (by simpa using hvalue), ih hrest]
        simp only [Timestamps.get, List.lookup_cons]
        split
        · rename_i hkey
          have hnone : pending.lookup target = none := by
            rw [List.lookup_eq_none_iff]
            intro other hmem
            rw [bne_iff_ne]
            rintro rfl
            rw [← eq_of_beq hkey] at hnot
            exact hnot (List.mem_map.mpr ⟨other, hmem, rfl⟩)
          simp [hnone, hvalue]
        · rfl
      · rw [List.filter_cons_of_pos (by simpa using hvalue)]
        simp only [Timestamps.get, List.lookup_cons] at ih ⊢
        split
        · rfl
        · exact ih hrest

theorem prune_prune (h : clock ≤ now) :
    BotRegistry.prune now (BotRegistry.prune clock list) = BotRegistry.prune now list := by
  simp only [BotRegistry.prune, List.filter_filter]
  apply List.filter_congr
  intro t _
  by_cases ht : now - t < NONCE_TTL_SECS
  · have hclock : clock - t < NONCE_TTL_SECS := by linarith
    simp [ht, hclock]
  · simp [ht]

theorem countP_times {issued : List Record} {window : ℚ → Bool} :
    (issued.countP fun issue => issue.targetId = target ∧ window issue.time) =
      (times issued target).countP window := by
  induction issued with
  | nil => rfl
  | cons issue issued ih =>
      by_cases htarget : issue.targetId = target
      · simp only [times, List.filter_cons, htarget, decide_true, if_true, List.map_cons,
          List.countP_cons, true_and] at ih ⊢
        rw [ih]
        simp
      · simp only [times, List.filter_cons, htarget, decide_false, List.countP_cons, false_and,
          Bool.false_eq_true, if_false, Nat.add_zero] at ih ⊢
        exact ih

theorem times_append {issued : List Record} {issue : Record} :
    times (issued ++ [issue]) target =
      times issued target ++ if issue.targetId = target then [issue.time] else [] := by
  simp only [times, List.filter_append, List.map_append, List.filter_cons, List.filter_nil]
  split <;> simp_all

end Timestamps

section Rows

variable {rows : List Handshake} {id : Nat} {status : HandshakeStatus} {done : Option ℚ}

theorem nonces_setStatus :
    (BotRegistry.setStatus id status done rows).map Handshake.nonce =
      rows.map Handshake.nonce := by
  rw [BotRegistry.setStatus, List.map_map]
  apply List.map_congr_left
  intro row _
  simp only [Function.comp_apply]
  split <;> rfl

theorem mem_setStatus {row : Handshake} (h : row ∈ BotRegistry.setStatus id status done rows) :
    ∃ before ∈ rows, row.nonce = before.nonce ∧ row.initiatorBotId = before.initiatorBotId ∧
      row.targetBotId = before.targetBotId ∧ row.initiatedAt = before.initiatedAt ∧
      (row.status = status ∨ row.status = before.status) ∧
      (before.id = id → row.status = status) := by
  obtain ⟨before, hmem, rfl⟩ := List.mem_map.mp h
  refine ⟨before, hmem, ?_⟩
  split
  · exact ⟨rfl, rfl, rfl, rfl, .inl rfl, fun _ => rfl⟩
  · rename_i hid
    exact ⟨rfl, rfl, rfl, rfl, .inr rfl, fun heq => absurd heq hid⟩

end Rows

section Bots

variable {bots : List BotIdentity} {identity : BotIdentity} {botId : String}

theorem ids_upsert : (BotRegistry.upsert identity bots).map BotIdentity.botId =
    if identity.botId ∈ bots.map BotIdentity.botId then bots.map BotIdentity.botId
    else bots.map BotIdentity.botId ++ [identity.botId] := by
  induction bots with
  | nil => simp [BotRegistry.upsert]
  | cons bot bots ih =>
      simp only [BotRegistry.upsert]
      split
      · rename_i hid
        simp [hid]
      · rename_i hid
        simp only [List.map_cons, ih, List.mem_cons, Ne.symm hid, false_or]
        split <;> simp

theorem ids_upsert_nodup (h : (bots.map BotIdentity.botId).Nodup) :
    ((BotRegistry.upsert identity bots).map BotIdentity.botId).Nodup := by
  rw [ids_upsert]
  split
  · exact h
  · rename_i hnew
    exact h.append (List.nodup_singleton _) (by simpa [List.disjoint_singleton] using hnew)

-- UPDATE bots keeps the ids.
theorem ids_map {f : BotIdentity → BotIdentity} (hf : ∀ bot, (f bot).botId = bot.botId) :
    (bots.map f).map BotIdentity.botId = bots.map BotIdentity.botId := by
  rw [List.map_map]
  exact List.map_congr_left fun bot _ => hf bot

theorem ids_setTrusted {ids : List String} :
    (BotRegistry.setTrusted ids bots).map BotIdentity.botId = bots.map BotIdentity.botId := by
  refine ids_map fun bot => ?_
  split <;> rfl

end Bots

section Steps

theorem Tracked.withBots (h : Tracked state) {bots : List BotIdentity}
    (hdistinct : (bots.map BotIdentity.botId).Nodup) :
    Tracked { state with registry := { state.registry with bots := bots } } :=
  { h with distinct := hdistinct }

theorem Tracked.advance (h : Tracked state) (hnow : state.clock ≤ now) :
    Tracked { state with clock := now } :=
  { h with
    past := fun issue hmem => (h.past issue hmem).trans hnow
    recent := fun target => by
      rw [← prune_prune hnow, h.recent target, prune_prune hnow] }

-- Of the rows, some may go and some may be spent.
theorem Tracked.withRows (h : Tracked state) {rows : List Handshake}
    (hnonces : (rows.map Handshake.nonce).Nodup)
    (hrows : ∀ row ∈ rows, ∃ before ∈ state.registry.handshakes, row.nonce = before.nonce ∧
      row.initiatorBotId = before.initiatorBotId ∧ row.targetBotId = before.targetBotId ∧
      row.initiatedAt = before.initiatedAt ∧ (row.status = .pending → before.status = .pending)) :
    Tracked { state with registry := { state.registry with handshakes := rows } } := by
  refine { h with rows := ?_, rowsOnce := hnonces, spent := ?_ }
  · intro row hmem
    obtain ⟨before, hbefore, hnonce, hinitiator, htarget, hat, -⟩ := hrows row hmem
    rw [hnonce, hinitiator, htarget, hat]
    exact h.rows before hbefore
  · intro completion hcompletion row hmem heq hpending
    obtain ⟨before, hbefore, hnonce, -, -, -, hstatus⟩ := hrows row hmem
    exact h.spent completion hcompletion before hbefore (hnonce ▸ heq) (hstatus hpending)

theorem Tracked.purgeStaleHandshakes (h : Tracked state) (maxAgeSecs : ℚ) :
    Tracked { state with
      registry := (state.registry.purgeStaleHandshakes now maxAgeSecs).1 } := by
  have hrows : Tracked { state with registry := { state.registry with
      handshakes := (state.registry.purgeStaleHandshakes now maxAgeSecs).1.handshakes } } :=
    h.withRows ((List.filter_sublist.map _).nodup h.rowsOnce) fun row hmem =>
      ⟨row, (List.mem_filter.mp hmem).1, rfl, rfl, rfl, rfl, id⟩
  exact
    { hrows with
      recent := fun target => by
        rw [h.recent target]
        exact congrArg _ (get_evict h.keys).symm
      keys := (List.filter_sublist.map _).nodup h.keys }

-- What a pending row is found with.
theorem findPending_spec {registry : BotRegistry} {initiatorId targetId nonce : String}
    {row : Handshake} (h : registry.findPending initiatorId targetId nonce = some row) :
    row ∈ registry.handshakes ∧ row.initiatorBotId = initiatorId ∧ row.targetBotId = targetId ∧
      row.nonce = nonce ∧ row.status = .pending :=
  Keyed.find?_spec h

theorem completeHandshake_cases (registry : BotRegistry) (now : ℚ)
    (initiatorId targetId nonce : String) :
    registry.completeHandshake now initiatorId targetId nonce = (registry, false) ∨
    ∃ row, registry.findPending initiatorId targetId nonce = some row ∧
      ((row.initiatedAt < now - NONCE_TTL_SECS ∧
        registry.completeHandshake now initiatorId targetId nonce =
          ({ registry with handshakes :=
              BotRegistry.setStatus row.id .expired row.completedAt registry.handshakes }, false)) ∨
      (¬ row.initiatedAt < now - NONCE_TTL_SECS ∧
        registry.completeHandshake now initiatorId targetId nonce =
          ({ registry with
              handshakes := BotRegistry.setStatus row.id .completed (some now) registry.handshakes
              bots := BotRegistry.setTrusted [initiatorId, targetId] registry.bots }, true))) := by
  unfold BotRegistry.completeHandshake
  cases hfind : registry.findPending initiatorId targetId nonce with
  | none => exact .inl rfl
  | some row =>
      refine .inr ⟨row, rfl, ?_⟩
      by_cases hlate : row.initiatedAt < now - NONCE_TTL_SECS
      · exact .inl ⟨hlate, if_pos hlate⟩
      · exact .inr ⟨hlate, if_neg hlate⟩

theorem withRows_setStatus (h : Tracked state) {id : Nat} {status : HandshakeStatus}
    {done : Option ℚ} (hstatus : status ≠ .pending) :
    Tracked { state with registry := { state.registry with
      handshakes := BotRegistry.setStatus id status done state.registry.handshakes } } := by
  refine h.withRows (by rw [nonces_setStatus]; exact h.rowsOnce) fun row hmem => ?_
  obtain ⟨before, hbefore, hnonce, hinitiator, htarget, hat, hor, -⟩ := mem_setStatus hmem
  refine ⟨before, hbefore, hnonce, hinitiator, htarget, hat, fun hpending => ?_⟩
  exact hor.elim (fun heq => absurd (heq.symm.trans hpending) hstatus)
    fun heq => heq.symm.trans hpending

theorem Tracked.complete (h : Tracked state) (hnow : state.clock ≤ now)
    (initiatorId targetId nonce : String) :
    Tracked (state.complete now initiatorId targetId nonce) := by
  have hadvanced := h.advance hnow
  simp only [State.complete]
  rcases completeHandshake_cases state.registry now initiatorId targetId nonce with
    heq | ⟨row, hfind, hcase⟩
  · rw [heq]
    exact hadvanced
  · obtain ⟨hmem, rfl, rfl, rfl, hpending⟩ := findPending_spec hfind
    rcases hcase with ⟨-, heq⟩ | ⟨hlive, heq⟩
    · rw [heq]
      exact withRows_setStatus hadvanced nofun
    · rw [heq]
      have hissued := h.rows row hmem
      have hfresh : row.nonce ∉ state.completed.map Record.nonce := by
        intro hdone
        obtain ⟨completion, hcompletion, heq⟩ := List.mem_map.mp hdone
        exact h.spent completion hcompletion row hmem heq.symm hpending
      have hspent := @withRows_setStatus _ hadvanced row.id .completed (some now) nofun
      have hset := @Tracked.withBots _ hspent
        (BotRegistry.setTrusted [row.initiatorBotId, row.targetBotId] state.registry.bots)
        (by rw [ids_setTrusted]; exact h.distinct)
      refine { hset with spent := ?_, once := ?_, inTime := ?_ }
      · intro completion hcompletion other hother heq
        rcases List.mem_append.mp hcompletion with hold | hnew
        · exact hset.spent completion hold other hother heq
        · -- the only row with the nonce is the one that was completed
          rw [List.mem_singleton.mp hnew] at heq
          obtain ⟨before, hbefore, hnonce, -, -, -, -, hid⟩ := mem_setStatus hother
          have hsame : before = row :=
            List.inj_on_of_nodup_map h.rowsOnce hbefore hmem (hnonce.symm.trans heq)
          rw [hid (by rw [hsame])]
          nofun
      · simp only [if_true, List.map_append, List.map_cons, List.map_nil]
        exact h.once.append (List.nodup_singleton _)
          (by simpa [List.disjoint_singleton] using hfresh)
      · intro completion hcompletion
        rcases List.mem_append.mp hcompletion with hold | hnew
        · exact h.inTime completion hold
        · obtain rfl := List.mem_singleton.mp hnew
          refine ⟨_, hissued, rfl, rfl, rfl, (h.past _ hissued).trans hnow, ?_⟩
          simp only
          linarith

-- A target with fewer than five recent handshakes may have another one.
theorem RateLimited.issue (h : RateLimited state) {issue : Record}
    (hfew : (BotRegistry.prune issue.time (times state.issued issue.targetId)).length < 5) :
    RateLimited { state with issued := state.issued ++ [issue] } := by
  intro other window hwindow
  rw [countP_times]
  simp only [times_append]
  have hbefore := h other window hwindow
  rw [countP_times] at hbefore
  by_cases hother : issue.targetId = other
  · subst hother
    rw [if_pos rfl, List.countP_append, List.countP_singleton]
    cases hin : window issue.time with
    | false =>
        simp only [Bool.false_eq_true, if_false]
        omega
    | true =>
        -- whatever else is in the window has not been pruned
        have hle : (times state.issued issue.targetId).countP window ≤
            (BotRegistry.prune issue.time (times state.issued issue.targetId)).length := by
          rw [BotRegistry.prune, ← List.countP_eq_length_filter]
          refine List.countP_mono_left fun t _ ht => ?_
          exact decide_eq_true (hwindow t issue.time ht hin)
        simp only [if_true]
        omega
  · rw [if_neg hother, List.append_nil]
    exact hbefore

theorem Tracked.initiate (h : Tracked state) (hnow : state.clock ≤ now)
    {initiatorId targetId nonce : String} (hnonce : nonce ∉ state.issued.map Record.nonce) :
    Tracked (state.initiate now initiatorId targetId nonce) := by
  have hadvanced := h.advance hnow
  have hrecent := hadvanced.recent targetId
  have hpruned (times : List ℚ) : BotRegistry.prune now (BotRegistry.prune now times) =
      BotRegistry.prune now times := prune_prune (le_refl now)
  simp only [State.initiate, BotRegistry.initiateHandshake]
  split
  · simp only [Option.toList_none, List.map_nil, List.append_nil]
    refine { hadvanced with recent := ?_, keys := keys_set_nodup h.keys }
    intro other
    by_cases hother : other = targetId
    · rw [hother, get_set_self, hpruned]
      exact hrecent
    · rw [get_set_of_ne hother]
      exact hadvanced.recent other
  · rename_i hfew
    simp only [Option.toList_some, List.map_cons, List.map_nil]
    have hrows : nonce ∉ state.registry.handshakes.map Handshake.nonce := by
      intro hmem
      obtain ⟨row, hrow, rfl⟩ := List.mem_map.mp hmem
      exact hnonce (List.mem_map.mpr ⟨_, h.rows row hrow, rfl⟩)
    have hmore {issue : Record} (hmem : issue ∈ state.issued) :
        issue ∈ state.issued ++ [⟨nonce, initiatorId, targetId, now⟩] :=
      List.mem_append_left _ hmem
    refine ⟨?_, ?_, ?_, ?_, ?_, h.once, ?_, ?_, ?_, keys_set_nodup h.keys, h.distinct⟩
    · intro issue hmem
      rcases List.mem_append.mp hmem with hold | hnew
      · exact hadvanced.past issue hold
      · rw [List.mem_singleton.mp hnew]
    · simp only [List.map_append, List.map_cons, List.map_nil]
      exact h.issuedOnce.append (List.nodup_singleton _)
        (by simpa [List.disjoint_singleton] using hnonce)
    · intro row hmem
      rcases List.mem_append.mp hmem with hold | hnew
      · exact hmore (h.rows row hold)
      · rw [List.mem_singleton.mp hnew]
        exact List.mem_append_right _ (List.mem_singleton.mpr rfl)
    · simp only [List.map_append, List.map_cons, List.map_nil]
      exact h.rowsOnce.append (List.nodup_singleton _)
        (by simpa [List.disjoint_singleton] using hrows)
    · intro completion hcompletion row hmem heq
      rcases List.mem_append.mp hmem with hold | hnew
      · exact h.spent completion hcompletion row hold heq
      · -- a completed nonce was issued before
        rw [List.mem_singleton.mp hnew] at heq
        obtain ⟨issue, hissue, hsame, -⟩ := h.inTime completion hcompletion
        exact absurd (List.mem_map.mpr ⟨issue, hissue, hsame.trans heq.symm⟩) hnonce
    · intro completion hcompletion
      obtain ⟨issue, hissue, hrest⟩ := h.inTime completion hcompletion
      exact ⟨issue, hmore hissue, hrest⟩
    · intro other
      simp only [times_append]
      by_cases hother : other = targetId
      · rw [hother, get_set_self, if_pos rfl]
        simp only [BotRegistry.prune, List.filter_append] at hpruned hrecent ⊢
        rw [hrecent, hpruned]
      · rw [get_set_of_ne hother, if_neg (Ne.symm hother), List.append_nil]
        exact hadvanced.recent other
    · refine h.limited.issue ?_
      rw [hrecent]
      exact Nat.lt_of_not_le hfew

theorem Tracked.step (h : Tracked state) (hstep : step state event = some next) :
    Tracked next := by
  cases event with
  | register identity =>
      obtain rfl := Option.some.inj hstep
      exact h.withBots (ids_upsert_nodup h.distinct)
  | trust botId =>
      obtain rfl := Option.some.inj hstep
      exact h.withBots (by rw [ids_setTrusted]; exact h.distinct)
  | initiate now initiatorId targetId nonce =>
      obtain ⟨⟨hnow, hnonce⟩, ⟨⟩⟩ := Option.ite_none_right_eq_some.mp hstep
      exact h.initiate hnow hnonce
  | complete now initiatorId targetId nonce =>
      obtain ⟨hnow, ⟨⟩⟩ := Option.ite_none_right_eq_some.mp hstep
      exact h.complete hnow initiatorId targetId nonce
  | updateLastSeen now botId =>
      obtain ⟨hnow, ⟨⟩⟩ := Option.ite_none_right_eq_some.mp hstep
      refine (h.advance hnow).withBots ?_
      rw [ids_map fun bot => by split <;> rfl]
      exact h.distinct
  | purgeStaleBots now maxAgeSecs =>
      obtain ⟨hnow, ⟨⟩⟩ := Option.ite_none_right_eq_some.mp hstep
      exact (h.advance hnow).withBots ((List.filter_sublist.map _).nodup h.distinct)
  | purgeStaleHandshakes now maxAgeSecs =>
      obtain ⟨hnow, ⟨⟩⟩ := Option.ite_none_right_eq_some.mp hstep
      exact (h.advance hnow).purgeStaleHandshakes maxAgeSecs

theorem tracked_initial (bots : BotTable) (clock : ℚ) : Tracked (initial bots clock) where
  past := nofun
  issuedOnce := List.nodup_nil
  rows := nofun
  rowsOnce := List.nodup_nil
  spent := nofun
  once := List.nodup_nil
  inTime := nofun
  recent _ := rfl
  limited _ _ _ := Nat.zero_le 5
  keys := List.nodup_nil
  distinct := bots.distinct

theorem Tracked.safe (h : Tracked state) : HandshakesSafe state := by
  refine ⟨h.once, h.issuedOnce, h.inTime, fun target start => ⟨?_, ?_⟩⟩
  · have hcount := h.limited target
      (fun t => decide (start ≤ t ∧ t < start + NONCE_TTL_SECS)) fun s t hs ht => by
        have hs := of_decide_eq_true hs
        have ht := of_decide_eq_true ht
        linarith [hs.1, ht.2]
    simpa using hcount
  · have hcount := h.limited target
      (fun t => decide (start < t ∧ t ≤ start + NONCE_TTL_SECS)) fun s t hs ht => by
        have hs := of_decide_eq_true hs
        have ht := of_decide_eq_true ht
        linarith [hs.1, ht.2]
    simpa using hcount

end Steps

section Promotion

variable {bots : List BotIdentity} {bot before : BotIdentity} {botId : String}
  {identity : BotIdentity} {ids : List String}

theorem lookup_spec {registry : BotRegistry} (h : registry.lookup botId = some bot) :
    bot ∈ registry.bots ∧ bot.botId = botId :=
  Keyed.find?_spec h

-- A row of the table after an upsert is new or has kept its flag.
theorem mem_upsert (h : bot ∈ BotRegistry.upsert identity bots) :
    (bot = identity ∧ identity.botId ∉ bots.map BotIdentity.botId) ∨
    ∃ old ∈ bots, bot.botId = old.botId ∧ bot.trusted = old.trusted := by
  induction bots with
  | nil => exact .inl ⟨List.mem_singleton.mp h, List.not_mem_nil⟩
  | cons head bots ih =>
      simp only [BotRegistry.upsert] at h
      split at h
      · rcases List.mem_cons.mp h with rfl | hmem
        · exact .inr ⟨head, List.mem_cons_self, rfl, rfl⟩
        · exact .inr ⟨bot, List.mem_cons_of_mem _ hmem, rfl, rfl⟩
      · rename_i hid
        rcases List.mem_cons.mp h with rfl | hmem
        · exact .inr ⟨bot, List.mem_cons_self, rfl, rfl⟩
        · rcases ih hmem with ⟨rfl, hnew⟩ | ⟨old, hold, heq⟩
          · exact .inl ⟨rfl, by simpa [Ne.symm hid] using hnew⟩
          · exact .inr ⟨old, List.mem_cons_of_mem _ hold, heq⟩

theorem mem_setTrusted (h : bot ∈ BotRegistry.setTrusted ids bots) :
    ∃ old ∈ bots, bot.botId = old.botId ∧ (bot.botId ∉ ids → bot.trusted = old.trusted) := by
  obtain ⟨old, hold, rfl⟩ := List.mem_map.mp h
  refine ⟨old, hold, ?_⟩
  split
  · rename_i hid
    exact ⟨rfl, fun hnot => absurd hid hnot⟩
  · exact ⟨rfl, fun _ => rfl⟩

-- What has the id of a row has its flag, unless the flag was set on purpose.
theorem promoted_mem (hdistinct : (bots.map BotIdentity.botId).Nodup) (hbefore : before ∈ bots)
    (huntrusted : before.trusted = false) (htrusted : bot.trusted = true)
    (hid : bot.botId = before.botId) (h : ∃ old ∈ bots, bot.botId = old.botId ∧
      (bot.botId ∉ ids → bot.trusted = old.trusted)) : bot.botId ∈ ids := by
  obtain ⟨old, hold, heq, hkeeps⟩ := h
  obtain rfl : old = before :=
    List.inj_on_of_nodup_map hdistinct hold hbefore (heq.symm.trans hid)
  by_contra hnot
  exact absurd ((hkeeps hnot).trans huntrusted) (by simp [htrusted])

theorem Tracked.promotesOnly (h : Tracked state) (event : Event) : PromotesOnly state event := by
  intro next botId before after hstep hlookup hnext huntrusted htrusted
  obtain ⟨hbefore, hid⟩ := lookup_spec hlookup
  obtain ⟨hafter, rfl⟩ := lookup_spec hnext
  have hin {ids : List String} := @promoted_mem _ _ _ ids h.distinct hbefore huntrusted htrusted
    hid.symm
  have hnone := fun old (hold : old ∈ state.registry.bots) (heq : after.botId = old.botId)
    (hflag : after.trusted = old.trusted) =>
      List.not_mem_nil (@hin [] ⟨old, hold, heq, fun _ => hflag⟩)
  cases event with
  | register identity =>
      obtain rfl := Option.some.inj hstep
      rcases mem_upsert hafter with ⟨rfl, hnew⟩ | ⟨old, hold, heq, hflag⟩
      · exact absurd (List.mem_map.mpr ⟨before, hbefore, hid⟩) hnew
      · exact absurd hflag (hnone old hold heq)
  | trust other =>
      obtain rfl := Option.some.inj hstep
      exact List.mem_singleton.mp (hin (mem_setTrusted hafter))
  | initiate now initiatorId targetId nonce =>
      obtain ⟨-, ⟨⟩⟩ := Option.ite_none_right_eq_some.mp hstep
      refine absurd rfl (hnone after ?_ rfl)
      simp only [State.initiate, BotRegistry.initiateHandshake] at hafter
      split at hafter <;> exact hafter
  | complete now initiatorId targetId nonce =>
      obtain ⟨-, ⟨⟩⟩ := Option.ite_none_right_eq_some.mp hstep
      simp only [State.complete] at hafter
      rcases completeHandshake_cases state.registry now initiatorId targetId nonce with
        heq | ⟨row, -, ⟨-, heq⟩ | ⟨-, heq⟩⟩
      · rw [heq] at hafter
        exact absurd rfl (hnone after hafter rfl)
      · rw [heq] at hafter
        exact absurd rfl (hnone after hafter rfl)
      · rw [heq] at hafter
        exact ⟨by rw [heq], by simpa using hin (mem_setTrusted hafter)⟩
  | updateLastSeen now other =>
      obtain ⟨-, ⟨⟩⟩ := Option.ite_none_right_eq_some.mp hstep
      obtain ⟨old, hold, rfl⟩ := List.mem_map.mp hafter
      exact absurd (by split <;> rfl) (hnone old hold (by split <;> rfl))
  | purgeStaleBots now maxAgeSecs =>
      obtain ⟨-, ⟨⟩⟩ := Option.ite_none_right_eq_some.mp hstep
      exact absurd rfl (hnone after (List.mem_filter.mp hafter).1 rfl)
  | purgeStaleHandshakes now maxAgeSecs =>
      obtain ⟨-, ⟨⟩⟩ := Option.ite_none_right_eq_some.mp hstep
      exact absurd rfl (hnone after hafter rfl)

end Promotion

-- Whatever is called and in whatever order, a nonce works once, for its pair and in its lifetime,
-- no target is flooded, and only a handshake or trust() makes a stored bot trusted.
theorem handshakes_safe (bots : BotTable) (clock : ℚ) (events : List Event) :
    Always step HandshakesSafe (initial bots clock) events ∧
      Along step PromotesOnly (initial bots clock) events := by
  have hinitial := tracked_initial bots clock
  have hany : Along step (fun _ _ => True) (initial bots clock) events :=
    along_of_forall (fun _ _ => trivial) _ events
  have htracked : Always step Tracked (initial bots clock) events :=
    hany.always Tracked (fun _ _ _ h _ hstep => h.step hstep) (fun _ h => h) hinitial
  refine ⟨htracked.imp fun _ h => h.safe, ?_⟩
  exact htracked.along Tracked (fun _ _ _ h _ _ hstep => h.step hstep)
    (fun _ event _ h _ _ => h.promotesOnly event) hinitial hany

end EvoClaw.Identity
