import EvoClaw.Cooldown
import EvoClaw.Immune.Model
import EvoClaw.MessageLoop.Dedup
import EvoClaw.MessageLoop.GroupLimit
import EvoClaw.Rbac.Monotone

-- _on_message in host/main.py: the checks that a message passes before it is stored, one after
-- the other, and host/allowlist.py.
namespace EvoClaw.MessageLoop.Admission

open EventSystem SlidingWindow

section Allowlist

-- The set that a value is made into. None where it is no iterable or an item has no hash.
def setOf : Json → Option (List Json)
  | .arr items =>
      if items.any fun item => match item with
        | .arr _ | .obj _ => true
        | _ => false then none
      else some items
  | .str text => some (text.toList.map fun c => .str (String.singleton c))
  | .obj fields => some (fields.map fun field => .str field.1)
  | _ => none

inductive AllowlistFile where
  | missing
  -- it cannot be read, or it is no JSON
  | unreadable
  | data (value : Json)

def denyAll : List Json := [.str ""]

def loadSenderAllowlist (allowAllIfMissing : Bool) : AllowlistFile → List Json
  | .missing => if allowAllIfMissing then [] else denyAll
  | .data (.obj fields) =>
      match setOf (Payload.get fields "senders" (.arr [])) with
      | some senders => senders
      | none => if allowAllIfMissing then [] else denyAll
  | _ => if allowAllIfMissing then [] else denyAll

def isSenderAllowed (sender : List Char) (allowlist : List Json) : Bool :=
  if allowlist.isEmpty then true
  else
    let normalized := strip sender
    !normalized.isEmpty && allowlist.any fun item =>
      match item with
      | .str text => text = String.ofList normalized
      | _ => false

-- The mark of a list that could not be loaded lets nobody in.
theorem not_isSenderAllowed_denyAll (sender : List Char) :
    isSenderAllowed sender denyAll = false := by
  cases h : strip sender with
  | nil => simp [isSenderAllowed, denyAll, h]
  | cons c rest => simp [isSenderAllowed, denyAll, h]

end Allowlist

-- What the clocks say in the sections of one call, in seconds, and in the database.
structure Moment where
  rbac : Rbac.Readings := ⟨0, 0, 0, 0⟩
  sender : ℚ
  notify : ℚ := 0
  group : ℚ := 0
  fence : ℚ := 0
  immune : Int := 0

inductive Outcome where
  | uninvited
  | unpermitted
  | tooFast (notified : Bool)
  | crowded
  | duplicate
  | rejected (verdict : Immune.Verdict)
  | stored
deriving DecidableEq

def SENDER_RATE_NOTIFY_COOLDOWN : ℚ := 30

def SENDER_NOTIFY_MAX : Nat := 2000

structure Settings (Fp : Type*) where
  allowlist : List Json
  senders : SenderLimits
  groups : GroupLimits
  immune : Immune.Config
  sha256 : List Char → Fp

-- The globals of the process and its tables that the checks read and write.
structure Gate (Fp : Type*) where
  rbac : Option Rbac.RBACStore := none
  senders : SenderTimestamps (List Char) := []
  notified : List (List Char × ℚ) := []
  groups : GroupTimestamps (List Char) := []
  fence : Fence Fp := Fence.ready Fp
  threats : Immune.Table := []
  messages : List Incoming := []

section Calls

variable {Fp : Type*} [DecidableEq Fp] (settings : Settings Fp)

namespace Gate

-- Without a store everybody is permitted.
def permit (gate : Gate Fp) (sender : List Char) (time : Rbac.Readings) : Bool × Gate Fp :=
  match gate.rbac with
  | none => (true, gate)
  | some store =>
      let (permitted, store) := store.hasPermission (String.ofList sender) .taskSubmit time
      (permitted, { gate with rbac := some store })

-- The reply to a sender that is too fast, and none for a while.
def notify (gate : Gate Fp) (sender : List Char) (now : ℚ) : Bool × Gate Fp :=
  let (due, notified) := Cooldown.request (some SENDER_NOTIFY_MAX) SENDER_RATE_NOTIFY_COOLDOWN now
    gate.notified sender
  (due, { gate with notified })

-- The part after the rate limits. Only an insertion into the table follows a safe verdict.
def inspect (gate : Gate Fp) (message : Incoming) (moment : Moment) : Outcome × Gate Fp :=
  match isDuplicateMessage settings.sha256 gate.fence message moment.fence with
  | (true, fence) => (.duplicate, { gate with fence })
  | (false, fence) =>
      match Immune.checkMessage settings.immune gate.threats (String.ofList message.content)
        (String.ofList message.sender) moment.immune with
      | (threats, .safe) =>
          (.stored, { gate with fence, threats, messages := gate.messages ++ [message] })
      | (threats, verdict) => (.rejected verdict, { gate with fence, threats })

def throttle (gate : Gate Fp) (message : Incoming) (moment : Moment) : Outcome × Gate Fp :=
  match isSenderRateLimited settings.senders gate.senders message.sender moment.sender with
  | (true, senders) =>
      let (notified, gate) := { gate with senders }.notify message.sender moment.notify
      (.tooFast notified, gate)
  | (false, senders) =>
      match isRateLimited settings.groups gate.groups message.jid moment.group with
      | (true, groups) => (.crowded, { gate with senders, groups })
      | (false, groups) => { gate with senders, groups }.inspect settings message moment

def onMessage (gate : Gate Fp) (message : Incoming) (moment : Moment) : Outcome × Gate Fp :=
  if isSenderAllowed message.sender settings.allowlist then
    match gate.permit message.sender moment.rbac with
    | (true, gate) => gate.throttle settings message moment
    | (false, gate) => (.unpermitted, gate)
  else (.uninvited, gate)

end Gate

end Calls

-- A call with what became of it, and the grants of its moment.
structure Entry where
  message : Incoming
  moment : Moment
  outcome : Outcome
  grants : Option Rbac.Database

namespace Entry

variable (entry : Entry)

-- What the sender limit, the group limit and the fence answered, and when the sender was told.
def senderAnswer? : Option (Answer (List Char)) :=
  match entry.outcome with
  | .uninvited | .unpermitted => none
  | .tooFast _ => some ⟨entry.message.sender, entry.moment.sender, true⟩
  | _ => some ⟨entry.message.sender, entry.moment.sender, false⟩

def notice? : Option (List Char × ℚ) :=
  match entry.outcome with
  | .tooFast true => some (entry.message.sender, entry.moment.notify)
  | _ => none

def groupAnswer? : Option (GroupAnswer (List Char)) :=
  match entry.outcome with
  | .uninvited | .unpermitted | .tooFast _ => none
  | .crowded => some ⟨entry.message.jid, entry.moment.group, true⟩
  | _ => some ⟨entry.message.jid, entry.moment.group, false⟩

def fenceAnswer? : Option (RecencyTable.Answer Incoming ℚ) :=
  match entry.outcome with
  | .duplicate => some ⟨entry.message, entry.moment.fence, true⟩
  | .rejected _ | .stored => some ⟨entry.message, entry.moment.fence, false⟩
  | _ => none

end Entry

structure State (Fp : Type*) where
  gate : Gate Fp := {}
  clock : ℚ := 0
  log : List Entry := []

inductive Event where
  | receive (message : Incoming) (moment : Moment)
  -- Somebody else uses the store of the grants.
  | rbac (operation : Rbac.Operation)

-- The clock does not go backwards from one section to the next.
def InOrder (clock : ℚ) (moment : Moment) : Prop :=
  clock ≤ moment.sender ∧ moment.sender ≤ moment.notify ∧ moment.notify ≤ moment.group ∧
    moment.group ≤ moment.fence

instance (clock : ℚ) (moment : Moment) : Decidable (InOrder clock moment) :=
  inferInstanceAs (Decidable (_ ∧ _))

section Runs

variable {Fp : Type*} [DecidableEq Fp] (settings : Settings Fp)

def Gate.grants (gate : Gate Fp) : Option Rbac.Database := gate.rbac.map Rbac.RBACStore.db

def Gate.perform (gate : Gate Fp) (operation : Rbac.Operation) : Gate Fp :=
  { gate with rbac := gate.rbac.map fun store => ((⟨store, false⟩ : Rbac.Granting).perform
      operation).store }

def State.receive (state : State Fp) (message : Incoming) (moment : Moment) : State Fp :=
  let (outcome, gate) := state.gate.onMessage settings message moment
  { gate
    clock := moment.fence
    log := state.log ++ [⟨message, moment, outcome, state.gate.grants⟩] }

def State.step (state : State Fp) : Event → Option (State Fp)
  | .receive message moment =>
      if InOrder state.clock moment then some (state.receive settings message moment) else none
  | .rbac operation => some { state with gate := state.gate.perform operation }

-- What a stored message has passed.
structure Entry.Sound (entry : Entry) : Prop where
  invited : isSenderAllowed entry.message.sender settings.allowlist = true
  permitted : ∀ db ∈ entry.grants,
    Rbac.allows db (String.ofList entry.message.sender) .taskSubmit = true
  named : entry.message.sender ≠ []
  harmless : settings.immune.isInjection (String.ofList entry.message.content) = false

def storedOf (jid : List Char) (start window : ℚ) (entry : Entry) : Prop :=
  entry.outcome = .stored ∧ entry.message.jid = jid ∧ start ≤ entry.moment.group ∧
    entry.moment.group ≤ start + window

instance (jid : List Char) (start window : ℚ) : DecidablePred (storedOf jid start window) :=
  fun _ => inferInstanceAs (Decidable (_ ∧ _))

def storedBy (sender : List Char) (start window : ℚ) (entry : Entry) : Prop :=
  entry.outcome = .stored ∧ entry.message.sender = sender ∧ start ≤ entry.moment.sender ∧
    entry.moment.sender ≤ start + window

instance (sender : List Char) (start window : ℚ) :
    DecidablePred (storedBy sender start window) :=
  fun _ => inferInstanceAs (Decidable (_ ∧ _))

structure Safe (state : State Fp) : Prop where
  stored : state.gate.messages =
    (state.log.filter fun entry => entry.outcome = .stored).map Entry.message
  sound : ∀ entry ∈ state.log, entry.outcome = .stored → entry.Sound settings
  fewOfGroup : ∀ jid start,
    state.log.countP (storedOf jid start settings.groups.window) ≤ settings.groups.maxMsgs
  -- as long as the table of the senders has never been full
  fewOfSender :
    ((state.log.filterMap Entry.senderAnswer?).map Answer.sender).toFinset.card ≤
      SENDER_TIMESTAMPS_MAX →
    ∀ sender start,
      state.log.countP (storedBy sender start settings.senders.window) ≤ settings.senders.maxMsgs
  -- the same message again: after the time to live, or after as many others as the fence holds
  spaced : ∀ before earlier between again after,
    state.log = before ++ earlier :: (between ++ again :: after) →
    earlier.outcome = .stored → again.outcome = .stored → earlier.message = again.message →
    DEDUP_TTL_SECS ≤ again.moment.fence - earlier.moment.fence ∨
      DEDUP_MAX ≤ RecencyTable.othersUsed (fun message : Incoming => settings.sha256 message.raw)
        (between.filterMap Entry.fenceAnswer?) (settings.sha256 again.message.raw)
  -- a sender who is too fast is told so once in a while
  paced : Cooldown.Paced (some SENDER_NOTIFY_MAX) SENDER_RATE_NOTIFY_COOLDOWN
    (state.log.filterMap Entry.notice?)

end Runs

section Senders

variable {limits : SenderLimits} {clock now : ℚ} {answered : List (Answer (List Char))}
  {table : SenderTimestamps (List Char)} {sender other : List Char}

-- The times at which a sender was not too fast.
def passedTimes (sender : List Char) (answered : List (Answer (List Char))) : List ℚ :=
  (answered.filter fun answer => answer.sender = sender ∧ answer.limited = false).map Answer.time

-- The table remembers all senders as long as they are not too many.
structure RemembersSenders (limits : SenderLimits) (clock : ℚ) (answered : List (Answer (List Char)))
    (table : SenderTimestamps (List Char)) : Prop where
  nodup : (table.map Prod.fst).Nodup
  known : ∀ sender ∈ table.map Prod.fst, sender ∈ answered.map Answer.sender
  bounded : (answered.map Answer.sender).toFinset.card ≤ SENDER_TIMESTAMPS_MAX → ∀ sender,
    Bounded limits.maxMsgs limits.window clock (passedTimes sender answered)
      (timestamps table sender)

theorem remembersSenders_nil (limits : SenderLimits) (clock : ℚ) :
    RemembersSenders limits clock [] [] where
  nodup := List.nodup_nil
  known := by simp
  bounded _ _ := bounded_nil limits.maxMsgs limits.window clock

theorem passedTimes_append (answer : Answer (List Char)) :
    passedTimes sender (answered ++ [answer]) = passedTimes sender answered ++
      if answer.sender = sender ∧ answer.limited = false then [answer.time] else [] := by
  unfold passedTimes
  rw [List.filter_append, List.map_append, List.filter_singleton]
  by_cases h : answer.sender = sender ∧ answer.limited = false
  · simp [h]
  · simp [h]

theorem countP_passedTimes (p : ℚ → Prop) [DecidablePred p] :
    (passedTimes sender answered).countP p =
      answered.countP fun answer => answer.sender = sender ∧ answer.limited = false ∧
        p answer.time := by
  unfold passedTimes
  rw [List.countP_map, List.countP_filter]
  refine List.countP_congr fun answer _ => ?_
  simp only [Function.comp_apply, decide_eq_true_eq, Bool.and_eq_true, Bool.decide_and]
  tauto

namespace RemembersSenders

theorem later (h : RemembersSenders limits clock answered table) (hnow : clock ≤ now) :
    RemembersSenders limits now answered table :=
  { h with bounded := fun hfew sender => (h.bounded hfew sender).later hnow }

-- Nobody is evicted from a table that does not hold all of them.
theorem not_evicts (h : RemembersSenders limits clock answered table)
    (hfew : (insert sender (answered.map Answer.sender).toFinset).card ≤ SENDER_TIMESTAMPS_MAX) :
    ¬ Evicts table sender := by
  rintro ⟨hnew, hfull⟩
  have hsubset : (sender :: table.map Prod.fst).toFinset ⊆
      insert sender (answered.map Answer.sender).toFinset := by
    intro other hother
    rw [List.mem_toFinset, List.mem_cons] at hother
    rw [Finset.mem_insert, List.mem_toFinset]
    exact hother.imp_right (h.known other)
  have hcard := Finset.card_le_card hsubset
  rw [List.toFinset_card_of_nodup (List.nodup_cons.mpr ⟨hnew, h.nodup⟩), List.length_cons,
    List.length_map] at hcard
  omega

theorem call (h : RemembersSenders limits clock answered table) (sender : List Char) :
    RemembersSenders limits clock
      (answered ++ [⟨sender, clock, (isSenderRateLimited limits table sender clock).1⟩])
      (isSenderRateLimited limits table sender clock).2 := by
  have hkeys : (isSenderRateLimited limits table sender clock).2.map Prod.fst =
      (makeRoom table sender).map Prod.fst := by rw [isSenderRateLimited_eq, keys_set]
  refine ⟨hkeys ▸ nodup_makeRoom h.nodup, fun other hother => ?_, fun hfew other => ?_⟩
  · rw [hkeys] at hother
    rw [List.map_append, List.mem_append]
    have hevicted : other ∈ (evictOldest table sender).map Prod.fst → other ∈ table.map Prod.fst := by
      intro hmem
      unfold evictOldest at hmem
      split at hmem
      · exact List.mem_of_mem_tail (List.map_tail ▸ hmem)
      · exact hmem
    unfold makeRoom setDefault at hother
    split at hother
    · exact .inl (h.known other (hevicted hother))
    · rw [List.map_append, List.mem_append] at hother
      exact hother.imp (fun hmem => h.known other (hevicted hmem)) id
  · rw [List.map_append, List.toFinset_append, Finset.union_comm] at hfew
    have hbefore : (answered.map Answer.sender).toFinset.card ≤ SENDER_TIMESTAMPS_MAX :=
      (Finset.card_le_card Finset.subset_union_right).trans hfew
    have hforgets : ForgetsOver limits table (sender, clock) := fun hevicts =>
      absurd hevicts (h.not_evicts (by simpa using hfew))
    have hlive := live_makeRoom h.nodup hforgets
    rw [passedTimes_append]
    by_cases hother : sender = other
    · subst hother
      obtain ⟨hanswer, htimes⟩ := isSenderRateLimited_own (hlive sender)
      have hrequest := (h.bounded hbefore sender).request
      rw [htimes, hanswer]
      cases hlimited : (request limits.maxMsgs limits.window clock (timestamps table sender)).1 with
      | true => simpa [hlimited] using hrequest
      | false => simpa [hlimited] using hrequest
    · have hbounded := h.bounded hbefore other
      rw [if_neg fun hown => hother hown.1, List.append_nil, isSenderRateLimited_other hother]
      exact { hbounded with live_eq := (hlive other).trans hbounded.live_eq }

end RemembersSenders

end Senders

section Effects

variable {Fp : Type*} [DecidableEq Fp] {settings : Settings Fp} {gate : Gate Fp}
  {message : Incoming} {moment : Moment}

-- A table is written where its check gave an answer.
def Writes {α τ : Type*} (answer : Option α) (given : α) (before written after : τ) : Prop :=
  (answer = none ∧ after = before) ∨ (answer = some given ∧ after = written)

-- What a call does to each table.
structure Effect (settings : Settings Fp) (gate : Gate Fp) (entry : Entry) (after : Gate Fp) :
    Prop where
  rbac : after.rbac = gate.rbac ∨
    after.rbac = (gate.permit entry.message.sender entry.moment.rbac).2.rbac
  senders : Writes entry.senderAnswer?
    ⟨entry.message.sender, entry.moment.sender,
      (isSenderRateLimited settings.senders gate.senders entry.message.sender
        entry.moment.sender).1⟩
    gate.senders
    (isSenderRateLimited settings.senders gate.senders entry.message.sender entry.moment.sender).2
    after.senders
  notified : (entry.notice? = none ∧ after.notified = gate.notified) ∨
    after.notified = (gate.notify entry.message.sender entry.moment.notify).2.notified ∧
      entry.notice?.toList = if (gate.notify entry.message.sender entry.moment.notify).1 then
        [(entry.message.sender, entry.moment.notify)] else []
  groups : Writes entry.groupAnswer?
    ⟨entry.message.jid, entry.moment.group,
      (isRateLimited settings.groups gate.groups entry.message.jid entry.moment.group).1⟩
    gate.groups
    (isRateLimited settings.groups gate.groups entry.message.jid entry.moment.group).2
    after.groups
  fence : Writes entry.fenceAnswer?
    ⟨entry.message, entry.moment.fence,
      (isDuplicateMessage settings.sha256 gate.fence entry.message entry.moment.fence).1⟩
    gate.fence
    (isDuplicateMessage settings.sha256 gate.fence entry.message entry.moment.fence).2 after.fence
  messages : after.messages =
    gate.messages ++ if entry.outcome = .stored then [entry.message] else []
  stored : entry.outcome = .stored →
    isSenderAllowed entry.message.sender settings.allowlist = true ∧
      (gate.permit entry.message.sender entry.moment.rbac).1 = true ∧
      entry.message.sender ≠ [] ∧
      settings.immune.isInjection (String.ofList entry.message.content) = false

theorem safe_of_checkMessage {config : Immune.Config} {table threats : Immune.Table}
    {content sender : List Char} {now : Int}
    (h : Immune.checkMessage config table (String.ofList content) (String.ofList sender) now =
      (threats, .safe)) :
    sender ≠ [] ∧ config.isInjection (String.ofList content) = false := by
  unfold Immune.checkMessage at h
  split at h
  · cases h
  · next hnamed =>
      split at h
      · cases h
      · split at h
        · cases h
        · next hharmless =>
            refine ⟨?_, by simpa using hharmless⟩
            rintro rfl
            exact hnamed rfl

omit [DecidableEq Fp] in
theorem permit_frame (gate : Gate Fp) (sender : List Char) (time : Rbac.Readings) :
    ∃ rbac, (gate.permit sender time).2 = { gate with rbac := rbac } := by
  unfold Gate.permit
  split
  · exact ⟨gate.rbac, rfl⟩
  · exact ⟨_, rfl⟩

theorem inspect_effect {rbac : Option Rbac.RBACStore} {grants : Option Rbac.Database}
    (hallowed : isSenderAllowed message.sender settings.allowlist = true)
    (hpermit : gate.permit message.sender moment.rbac = (true, { gate with rbac := rbac }))
    {senders : SenderTimestamps (List Char)} {groups : GroupTimestamps (List Char)}
    (hsenders : isSenderRateLimited settings.senders gate.senders message.sender moment.sender =
      (false, senders))
    (hgroups : isRateLimited settings.groups gate.groups message.jid moment.group =
      (false, groups)) :
    let result := { gate with rbac, senders, groups }.inspect settings message moment
    Effect settings gate ⟨message, moment, result.1, grants⟩ result.2 := by
  have hrbac : rbac = (gate.permit message.sender moment.rbac).2.rbac := by rw [hpermit]
  unfold Gate.inspect
  dsimp only
  cases hfence : isDuplicateMessage settings.sha256 gate.fence message moment.fence with
  | mk duplicate fence =>
      cases duplicate with
      | true =>
          exact ⟨.inr hrbac, .inr (by rw [hsenders]; exact ⟨rfl, rfl⟩), .inl ⟨rfl, rfl⟩,
            .inr (by rw [hgroups]; exact ⟨rfl, rfl⟩), .inr (by rw [hfence]; exact ⟨rfl, rfl⟩),
            by simp, nofun⟩
      | false =>
          dsimp only
          split
          · next threats hsafe =>
              obtain ⟨hnamed, hharmless⟩ := safe_of_checkMessage hsafe
              exact ⟨.inr hrbac, .inr (by rw [hsenders]; exact ⟨rfl, rfl⟩), .inl ⟨rfl, rfl⟩,
                .inr (by rw [hgroups]; exact ⟨rfl, rfl⟩), .inr (by rw [hfence]; exact ⟨rfl, rfl⟩),
                by simp, fun _ => ⟨hallowed, by rw [hpermit], hnamed, hharmless⟩⟩
          · exact ⟨.inr hrbac, .inr (by rw [hsenders]; exact ⟨rfl, rfl⟩), .inl ⟨rfl, rfl⟩,
              .inr (by rw [hgroups]; exact ⟨rfl, rfl⟩), .inr (by rw [hfence]; exact ⟨rfl, rfl⟩),
              by simp, nofun⟩

theorem notice?_tooFast {notified : Bool} {grants : Option Rbac.Database} :
    (Entry.notice? ⟨message, moment, .tooFast notified, grants⟩).toList =
      if notified then [(message.sender, moment.notify)] else [] := by
  cases notified with
  | false => rfl
  | true => rfl

theorem throttle_effect {rbac : Option Rbac.RBACStore} {grants : Option Rbac.Database}
    (hallowed : isSenderAllowed message.sender settings.allowlist = true)
    (hpermit : gate.permit message.sender moment.rbac = (true, { gate with rbac := rbac })) :
    let result := { gate with rbac }.throttle settings message moment
    Effect settings gate ⟨message, moment, result.1, grants⟩ result.2 := by
  have hrbac : rbac = (gate.permit message.sender moment.rbac).2.rbac := by rw [hpermit]
  unfold Gate.throttle
  dsimp only
  cases hsenders : isSenderRateLimited settings.senders gate.senders message.sender
    moment.sender with
  | mk limited senders =>
      cases limited with
      | true =>
          exact ⟨.inr hrbac, .inr (by rw [hsenders]; exact ⟨rfl, rfl⟩),
            .inr ⟨rfl, notice?_tooFast⟩, .inl ⟨rfl, rfl⟩, .inl ⟨rfl, rfl⟩, by simp [Gate.notify],
            nofun⟩
      | false =>
          dsimp only
          cases hgroups : isRateLimited settings.groups gate.groups message.jid moment.group with
          | mk crowded groups =>
              cases crowded with
              | true =>
                  exact ⟨.inr hrbac, .inr (by rw [hsenders]; exact ⟨rfl, rfl⟩), .inl ⟨rfl, rfl⟩,
                    .inr (by rw [hgroups]; exact ⟨rfl, rfl⟩), .inl ⟨rfl, rfl⟩, by simp, nofun⟩
              | false => exact inspect_effect hallowed hpermit hsenders hgroups

theorem onMessage_effect (settings : Settings Fp) (gate : Gate Fp) (message : Incoming) (moment : Moment)
    (grants : Option Rbac.Database) :
    Effect settings gate ⟨message, moment, (gate.onMessage settings message moment).1, grants⟩
      (gate.onMessage settings message moment).2 := by
  unfold Gate.onMessage
  split
  · next hallowed =>
      obtain ⟨rbac, hframe⟩ := permit_frame gate message.sender moment.rbac
      split
      · next next hpermit =>
          rw [hpermit] at hframe
          obtain rfl : next = { gate with rbac := rbac } := hframe
          exact throttle_effect hallowed hpermit
      · next next hpermit =>
          rw [hpermit] at hframe
          obtain rfl : next = { gate with rbac := rbac } := hframe
          exact ⟨.inr (by rw [hpermit]), .inl ⟨rfl, rfl⟩, .inl ⟨rfl, rfl⟩, .inl ⟨rfl, rfl⟩,
            .inl ⟨rfl, rfl⟩, by simp, nofun⟩
  · exact ⟨.inl rfl, .inl ⟨rfl, rfl⟩, .inl ⟨rfl, rfl⟩, .inl ⟨rfl, rfl⟩, .inl ⟨rfl, rfl⟩,
      by simp, nofun⟩

end Effects

section Invariant

variable {Fp : Type*} [DecidableEq Fp] {settings : Settings Fp} {state next : State Fp}
  {event : Event}

-- The key of the fence.
def fingerprint (settings : Settings Fp) (message : Incoming) : Fp := settings.sha256 message.raw

-- Every table remembers what the log says of its check.
structure Inv (settings : Settings Fp) (state : State Fp) : Prop where
  rbac : ∀ store ∈ state.gate.rbac, store.Coherent
  senders : RemembersSenders settings.senders state.clock
    (state.log.filterMap Entry.senderAnswer?) state.gate.senders
  notified : Cooldown.Tracks (some SENDER_NOTIFY_MAX) SENDER_RATE_NOTIFY_COOLDOWN state.clock
    (state.log.filterMap Entry.notice?) state.gate.notified
  groups : Remembers settings.groups state.clock (state.log.filterMap Entry.groupAnswer?)
    state.gate.groups
  locked : state.gate.fence.locked = true
  fence : RecencyTable.Remembered DEDUP_MAX DEDUP_TTL_SECS state.clock (fingerprint settings)
    (state.log.filterMap Entry.fenceAnswer?) state.gate.fence.seen
  messages : state.gate.messages =
    (state.log.filter fun entry => entry.outcome = .stored).map Entry.message
  sound : ∀ entry ∈ state.log, entry.outcome = .stored → entry.Sound settings
  spaced : ∀ before earlier between again after,
    state.log = before ++ earlier :: (between ++ again :: after) →
    earlier.outcome = .stored → again.outcome = .stored → earlier.message = again.message →
    DEDUP_TTL_SECS ≤ again.moment.fence - earlier.moment.fence ∨
      DEDUP_MAX ≤ RecencyTable.othersUsed (fingerprint settings)
        (between.filterMap Entry.fenceAnswer?) (fingerprint settings again.message)

theorem inv_start (db : Option Rbac.Database) :
    Inv settings { gate := { rbac := db.map fun db => { db := db } } } where
  rbac store hstore := by
    obtain ⟨db, -, rfl⟩ := Option.map_eq_some_iff.mp hstore
    exact .uncached db
  senders := remembersSenders_nil _ _
  notified := Cooldown.tracks_nil _ _ _
  groups := remembers_nil _ _
  locked := rfl
  fence := RecencyTable.remembered_nil _
  messages := rfl
  sound := by simp
  spaced before earlier between again after hlog := by
    cases before <;> cases hlog

theorem filterMap_concat {α β : Type*} (f : α → Option β) (xs : List α) (x : α) :
    (xs ++ [x]).filterMap f = xs.filterMap f ++ (f x).toList := by
  rw [List.filterMap_append]
  cases h : f x <;> simp [h]

namespace Inv

theorem safe (h : Inv settings state) : Safe settings state where
  stored := h.messages
  sound := h.sound
  fewOfGroup jid start := by
    refine le_trans ?_ ((h.groups.bounded jid).few start)
    rw [countP_admittedTimes, List.countP_filterMap]
    refine List.countP_mono_left fun entry _ hstored => ?_
    obtain ⟨houtcome, hrest⟩ : storedOf _ _ _ _ := of_decide_eq_true hstored
    simpa [Entry.groupAnswer?, houtcome] using hrest
  fewOfSender hfew sender start := by
    refine le_trans ?_ ((h.senders.bounded hfew sender).few start)
    rw [countP_passedTimes, List.countP_filterMap]
    refine List.countP_mono_left fun entry _ hstored => ?_
    obtain ⟨houtcome, hrest⟩ : storedBy _ _ _ _ := of_decide_eq_true hstored
    simpa [Entry.senderAnswer?, houtcome] using hrest
  spaced := h.spaced
  paced := h.notified.paced

section Receiving

variable {message : Incoming} {moment : Moment}

-- The entry that a call adds to the log.
def entryOf (settings : Settings Fp) (state : State Fp) (message : Incoming) (moment : Moment) :
    Entry :=
  ⟨message, moment, (state.gate.onMessage settings message moment).1, state.gate.grants⟩

theorem receive_senders (h : Inv settings state) (hclock : InOrder state.clock moment) :
    RemembersSenders settings.senders moment.fence
      ((state.log ++ [entryOf settings state message moment]).filterMap Entry.senderAnswer?)
      (state.gate.onMessage settings message moment).2.senders := by
  obtain ⟨hsender, hnotify, hgroup, hfence⟩ := hclock
  have hlate : moment.sender ≤ moment.fence := hnotify.trans (hgroup.trans hfence)
  have hbefore := h.senders.later hsender
  rw [filterMap_concat]
  rcases (onMessage_effect settings state.gate message moment state.gate.grants).senders with
    ⟨hanswer, hsame⟩ | ⟨hanswer, hwritten⟩
  · rw [entryOf, hanswer, hsame, Option.toList_none, List.append_nil]
    exact hbefore.later hlate
  · rw [entryOf, hanswer, hwritten]
    exact (hbefore.call message.sender).later hlate

theorem receive_notified (h : Inv settings state) (hclock : InOrder state.clock moment) :
    Cooldown.Tracks (some SENDER_NOTIFY_MAX) SENDER_RATE_NOTIFY_COOLDOWN moment.fence
      ((state.log ++ [entryOf settings state message moment]).filterMap Entry.notice?)
      (state.gate.onMessage settings message moment).2.notified := by
  obtain ⟨hsender, hnotify, hgroup, hfence⟩ := hclock
  have hbefore := h.notified.later (hsender.trans hnotify)
  rw [filterMap_concat]
  rcases (onMessage_effect settings state.gate message moment state.gate.grants).notified with
    ⟨hanswer, hsame⟩ | ⟨hwritten, hanswer⟩
  · rw [entryOf, hanswer, hsame, Option.toList_none, List.append_nil]
    exact hbefore.later (hgroup.trans hfence)
  · rw [entryOf, hanswer, hwritten]
    exact hbefore.request.later (hgroup.trans hfence)

theorem receive_groups (h : Inv settings state) (hclock : InOrder state.clock moment) :
    Remembers settings.groups moment.fence
      ((state.log ++ [entryOf settings state message moment]).filterMap Entry.groupAnswer?)
      (state.gate.onMessage settings message moment).2.groups := by
  obtain ⟨hsender, hnotify, hgroup, hfence⟩ := hclock
  have hlate : state.clock ≤ moment.group := hsender.trans (hnotify.trans hgroup)
  rw [filterMap_concat]
  rcases (onMessage_effect settings state.gate message moment state.gate.grants).groups with
    ⟨hanswer, hsame⟩ | ⟨hanswer, hwritten⟩
  · rw [entryOf, hanswer, hsame, Option.toList_none, List.append_nil]
    exact h.groups.later (hlate.trans hfence)
  · rw [entryOf, hanswer, hwritten]
    exact (h.groups.call message.jid hlate).later hfence

theorem isDuplicateMessage_fence (h : Inv settings state) (message : Incoming) (now : ℚ) :
    isDuplicateMessage settings.sha256 state.gate.fence message now =
      ((RecencyTable.present DEDUP_MAX DEDUP_TTL_SECS now state.gate.fence.seen
        (fingerprint settings message)).1,
        ⟨true, (RecencyTable.present DEDUP_MAX DEDUP_TTL_SECS now state.gate.fence.seen
          (fingerprint settings message)).2⟩) := by
  have hready : state.gate.fence = ⟨true, state.gate.fence.seen⟩ := by rw [← h.locked]
  rw [hready]
  exact isDuplicateMessage_ready state.gate.fence.seen message now

theorem receive_fence (h : Inv settings state) (message : Incoming)
    (hclock : InOrder state.clock moment) :
    (state.gate.onMessage settings message moment).2.fence.locked = true ∧
      RecencyTable.Remembered DEDUP_MAX DEDUP_TTL_SECS moment.fence (fingerprint settings)
        ((state.log ++ [entryOf settings state message moment]).filterMap Entry.fenceAnswer?)
        (state.gate.onMessage settings message moment).2.fence.seen := by
  obtain ⟨hsender, hnotify, hgroup, hfence⟩ := hclock
  have hbefore := h.fence.later (hsender.trans (hnotify.trans (hgroup.trans hfence)))
  rw [filterMap_concat]
  rcases (onMessage_effect settings state.gate message moment state.gate.grants).fence with
    ⟨hanswer, hsame⟩ | ⟨hanswer, hwritten⟩
  · rw [entryOf, hanswer, hsame, Option.toList_none, List.append_nil]
    exact ⟨h.locked, hbefore⟩
  · rw [isDuplicateMessage_fence h] at hanswer hwritten
    rw [entryOf, hanswer, hwritten]
    exact ⟨rfl, hbefore.present (by decide) message⟩

-- A message that is stored was not in the fence.
theorem receive_spaced (h : Inv settings state) (hclock : InOrder state.clock moment)
    {before between : List Entry} {earlier : Entry}
    (hlog : state.log = before ++ earlier :: between) (hearlier : earlier.outcome = .stored)
    (hstored : (entryOf settings state message moment).outcome = .stored)
    (hsame : earlier.message = message) :
    DEDUP_TTL_SECS ≤ moment.fence - earlier.moment.fence ∨
      DEDUP_MAX ≤ RecencyTable.othersUsed (fingerprint settings)
        (between.filterMap Entry.fenceAnswer?) (fingerprint settings message) := by
  obtain ⟨hsender, hnotify, hgroup, hfence⟩ := hclock
  have hbefore := h.fence.later (hsender.trans (hnotify.trans (hgroup.trans hfence)))
  have hanswers : state.log.filterMap Entry.fenceAnswer? =
      before.filterMap Entry.fenceAnswer? ++
        ⟨earlier.message, earlier.moment.fence, false⟩ :: between.filterMap Entry.fenceAnswer? := by
    have hearlierAnswer : earlier.fenceAnswer? =
        some ⟨earlier.message, earlier.moment.fence, false⟩ := by
      rw [Entry.fenceAnswer?, hearlier]
    rw [hlog, List.filterMap_append, List.filterMap_cons_some hearlierAnswer]
  have hkey : fingerprint settings earlier.message = fingerprint settings message := by rw [hsame]
  refine hbefore.spaced ?_ hanswers rfl hkey
  have hstoredAnswer : (entryOf settings state message moment).fenceAnswer? =
      some ⟨message, moment.fence, false⟩ := by
    rw [Entry.fenceAnswer?, hstored]
    rfl
  rcases (onMessage_effect settings state.gate message moment state.gate.grants).fence with
    ⟨hanswer, -⟩ | ⟨hanswer, -⟩
  · rw [entryOf, hanswer] at hstoredAnswer
    cases hstoredAnswer
  · rw [entryOf, hanswer, isDuplicateMessage_fence h] at hstoredAnswer
    exact congrArg RecencyTable.Answer.found (Option.some.inj hstoredAnswer)

theorem receive_rbac (h : Inv settings state) :
    ∀ store ∈ (state.gate.onMessage settings message moment).2.rbac, store.Coherent := by
  have heffect := onMessage_effect settings state.gate message moment none
  intro store hstore
  rcases heffect.rbac with hsame | hasked
  · exact h.rbac store (hsame ▸ hstore)
  · rw [hasked, Gate.permit] at hstore
    split at hstore
    · exact h.rbac store hstore
    · next before hbefore =>
        obtain rfl := Option.some.inj hstore
        exact ((h.rbac before hbefore).hasPermission .taskSubmit).2.1

-- What the caches answer is what the database says.
theorem receive_sound (h : Inv settings state)
    (hstored : (entryOf settings state message moment).outcome = .stored) :
    (entryOf settings state message moment).Sound settings := by
  have heffect := onMessage_effect settings state.gate message moment
    state.gate.grants
  obtain ⟨hinvited, hpermit, hnamed, hharmless⟩ := heffect.stored hstored
  refine ⟨hinvited, fun db hdb => ?_, hnamed, hharmless⟩
  obtain ⟨store, hstore, rfl⟩ := Option.map_eq_some_iff.mp (Option.mem_def.mp hdb)
  rw [Gate.permit, hstore] at hpermit
  exact ((h.rbac store hstore).hasPermission .taskSubmit).1 ▸ hpermit

theorem receive (h : Inv settings state) (hclock : InOrder state.clock moment) :
    Inv settings (state.receive settings message moment) := by
  have hfence := h.receive_fence message hclock
  refine ⟨h.receive_rbac, h.receive_senders hclock, h.receive_notified hclock,
    h.receive_groups hclock, hfence.1, hfence.2, ?_, fun entry hentry hstored => ?_,
    fun before earlier between again after hlog hearlier hagain hsame => ?_⟩
  · have heffect := onMessage_effect settings state.gate message moment none
    change (state.gate.onMessage settings message moment).2.messages =
      ((state.log ++ [entryOf settings state message moment]).filter _).map _
    rw [heffect.messages, h.messages, List.filter_append, List.map_append, List.filter_singleton]
    by_cases hstored : (state.gate.onMessage settings message moment).1 = .stored
    · simp [hstored, entryOf]
    · simp [hstored, entryOf]
  · rcases List.mem_append.mp hentry with hold | hnew
    · exact h.sound entry hold hstored
    · rw [List.mem_singleton.mp hnew] at hstored ⊢
      exact h.receive_sound hstored
  · change state.log ++ [entryOf settings state message moment] = _ at hlog
    rcases after.eq_nil_or_concat with rfl | ⟨after, last, rfl⟩
    · rw [← List.cons_append, ← List.append_assoc] at hlog
      obtain ⟨hbefore, hlast⟩ := List.append_inj' hlog rfl
      obtain ⟨rfl, -⟩ := List.cons.inj hlast
      exact h.receive_spaced hclock hbefore hearlier hagain hsame
    · rw [List.concat_eq_append] at hlog
      have hshape : state.log ++ [entryOf settings state message moment] =
          (before ++ earlier :: (between ++ again :: after)) ++ [last] := by simpa using hlog
      obtain ⟨hbefore, -⟩ := List.append_inj' hshape rfl
      exact h.spaced before earlier between again after hbefore hearlier hagain hsame

end Receiving

theorem step (h : Inv settings state) (hstep : state.step settings event = some next) :
    Inv settings next := by
  cases event with
  | receive message moment =>
      simp only [State.step] at hstep
      split at hstep
      · next hclock =>
          obtain rfl := Option.some.inj hstep
          exact h.receive hclock
      · cases hstep
  | rbac operation =>
      obtain rfl := Option.some.inj hstep
      refine { h with rbac := fun store hstore => ?_ }
      obtain ⟨before, hbefore, rfl⟩ := Option.map_eq_some_iff.mp (Option.mem_def.mp hstore)
      have hcoherent : (⟨before, false⟩ : Rbac.Granting).store.Coherent := h.rbac before hbefore
      exact Rbac.Granting.coherent_perform hcoherent operation

end Inv

end Invariant

-- From the start of the process on, with or without a store of grants, whatever arrives and
-- whatever is granted or revoked in between.
theorem admission_safe {Fp : Type*} [DecidableEq Fp] (settings : Settings Fp)
    (db : Option Rbac.Database) (events : List Event) :
    Always (State.step settings) (Safe settings)
      { gate := { rbac := db.map fun db => { db := db } } } events := by
  have hguard : Along (State.step settings) (fun _ _ => True)
      { gate := { rbac := db.map fun db => { db := db } } } events :=
    along_of_forall (fun _ _ => trivial) _ _
  exact hguard.always (Inv settings) (fun _ _ _ h _ hstep => h.step hstep) (fun _ h => h.safe)
    (inv_start db)

-- Without a list of senders the host stores nothing, unless it is told to do without.
theorem nothing_stored_denyAll {Fp : Type*} [DecidableEq Fp] (settings : Settings Fp)
    (db : Option Rbac.Database) (events : List Event)
    (hlist : settings.allowlist = loadSenderAllowlist false .missing) :
    Always (State.step settings) (fun state => state.gate.messages = [])
      { gate := { rbac := db.map fun db => { db := db } } } events := by
  have hguard : Along (State.step settings) (fun _ _ => True)
      { gate := { rbac := db.map fun db => { db := db } } } events :=
    along_of_forall (fun _ _ => trivial) _ _
  refine hguard.always (Inv settings) (fun _ _ _ h _ hstep => h.step hstep) (fun state h => ?_)
    (inv_start db)
  rw [h.messages, List.filter_eq_nil_iff.mpr, List.map_nil]
  intro entry hentry hstored
  have hinvited := (h.sound entry hentry (of_decide_eq_true hstored)).invited
  rw [hlist] at hinvited
  exact absurd hinvited (by rw [loadSenderAllowlist, if_neg Bool.false_ne_true,
    not_isSenderAllowed_denyAll]; exact Bool.false_ne_true)

end EvoClaw.MessageLoop.Admission
