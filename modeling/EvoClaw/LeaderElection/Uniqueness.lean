import EvoClaw.LeaderElection.Model
import Mathlib.Tactic.Linarith
import Mathlib.Tactic.NormNum

namespace EvoClaw.LeaderElection

open EventSystem

variable {config : Config} {members : List InstanceId} {state next : State} {id other : InstanceId}
  {row : Option Row} {clock h : ℚ} {node : Instance}

-- The longest time from a measured success to the report of the attempt that follows
-- `failures` failed ones, without its last sleep.
def slack (config : Config) (failures : Nat) : ℚ :=
  DB_OP_TIMEOUT + failures * (config.heartbeatSleep + DB_OP_TIMEOUT)

-- A leader demotes itself before its lease is over.
def DemotesInTime (config : Config) : Prop :=
  3 * config.heartbeatSleep + 4 * DB_OP_TIMEOUT ≤ config.leaseTimeout

theorem heartbeatSleep_nonneg (config : Config) : 0 ≤ config.heartbeatSleep :=
  le_max_right _ _

-- The row is the instance's, and not older than the success that it measured at `h`.
structure Holds (row : Option Row) (id : InstanceId) (node : Instance) (clock h : ℚ) : Prop where
  owns : ∃ heartbeat, row = some ⟨id, heartbeat⟩ ∧ h ≤ heartbeat
  late : ∀ statement ∈ node.late, ∃ now, statement = .heartbeat now ∧ h ≤ now
  failures : node.failures < MAX_CONSECUTIVE_HEARTBEAT_FAILURES
  since : h ≤ clock

-- What each phase says about the row and the time.
def Lease (config : Config) (row : Option Row) (id : InstanceId) (clock : ℚ) (node : Instance) :
    Prop :=
  match node.phase with
  | .standby => node.failures = 0
  | .acquiring now executed => node.failures = 0 ∧ now ≤ clock ∧
      (executed = some true → row = some ⟨id, now⟩ ∧ node.late = [])
  | .sleeping wake => ∃ h, Holds row id node clock h ∧
      wake ≤ h + slack config node.failures + config.heartbeatSleep
  | .beating now executed => ∃ h, Holds row id node clock h ∧ h ≤ now ∧ now ≤ clock ∧
      now ≤ h + slack config node.failures + config.heartbeatSleep ∧
      (executed = some true → node.late = [] ∧ ∃ heartbeat, row = some ⟨id, heartbeat⟩ ∧
        now ≤ heartbeat)
  | .stopped => True

-- A leader, or an instance that is about to hear that it is one.
def Phase.holds : Phase → Bool
  | .acquiring _ executed => executed = some true
  | .sleeping _ => true
  | .beating _ _ => true
  | .standby => false
  | .stopped => false

def Statement.measuredBy (clock : ℚ) : Statement → Prop
  | .acquire now => now ≤ clock
  | .heartbeat now => now ≤ clock
  | .delete => True

structure Safe (config : Config) (members : List InstanceId) (state : State) : Prop where
  joined : ∀ id, (state.instances id).phase ≠ .standby → id ∈ members
  inTime : ∀ id, ∀ limit ∈ (state.instances id).phase.limit, state.clock ≤ limit
  measured : ∀ id, ∀ statement ∈ (state.instances id).late ++ (state.instances id).phase.pending,
    statement.measuredBy state.clock
  lease : ∀ id, Lease config state.row id state.clock (state.instances id)

-- Up to three failed attempts after a success, the lease of a holder is not over.
theorem owns_of_holds (hconfig : DemotesInTime config)
    (hlease : Lease config row id clock node) (hholds : node.phase.holds = true)
    (htime : ∀ limit ∈ node.phase.limit, clock ≤ limit) :
    ∃ heartbeat, row = some ⟨id, heartbeat⟩ ∧ clock ≤ heartbeat + config.leaseTimeout := by
  have hsleep := heartbeatSleep_nonneg config
  have hslack (failures : Nat) (hf : failures < MAX_CONSECUTIVE_HEARTBEAT_FAILURES) :
      slack config failures ≤ 3 * DB_OP_TIMEOUT + 2 * config.heartbeatSleep := by
    have hle : (failures : ℚ) ≤ 2 := by
      exact_mod_cast Nat.le_of_lt_succ hf
    have hpos : 0 ≤ config.heartbeatSleep + DB_OP_TIMEOUT := by
      unfold DB_OP_TIMEOUT
      linarith
    have hmul := mul_le_mul_of_nonneg_right hle hpos
    unfold slack
    linarith
  unfold DemotesInTime at hconfig
  obtain ⟨phase, failures, late⟩ := node
  cases phase with
  | standby | stopped => cases hholds
  | acquiring now executed =>
      have hnow := htime (now + DB_OP_TIMEOUT) rfl
      have hrow := (hlease.2.2 (by simpa [Phase.holds] using hholds)).1
      refine ⟨now, hrow, ?_⟩
      unfold DB_OP_TIMEOUT at hnow hconfig
      linarith
  | sleeping wake =>
      obtain ⟨h, hh, hwake⟩ := hlease
      obtain ⟨heartbeat, hrow, hle⟩ := hh.owns
      have hclock := htime wake rfl
      have hbound := hslack failures hh.failures
      refine ⟨heartbeat, hrow, ?_⟩
      simp only at hwake
      unfold DB_OP_TIMEOUT at hbound hconfig
      linarith
  | beating now executed =>
      obtain ⟨h, hh, -, -, hnow, -⟩ := hlease
      obtain ⟨heartbeat, hrow, hle⟩ := hh.owns
      have hclock := htime (now + DB_OP_TIMEOUT) rfl
      have hbound := hslack failures hh.failures
      refine ⟨heartbeat, hrow, ?_⟩
      simp only at hnow
      unfold DB_OP_TIMEOUT at hbound hconfig hclock
      linarith

-- No statement of another instance touches the row of a holder.
theorem execute_blocked {statement : Statement} {heartbeat : ℚ} (hne : other ≠ id)
    (hage : clock ≤ heartbeat + config.leaseTimeout) (hs : statement.measuredBy clock) :
    statement.execute config other (some ⟨id, heartbeat⟩) = (some ⟨id, heartbeat⟩, false) := by
  cases statement with
  | acquire now =>
      have hnow : now ≤ clock := hs
      exact if_neg (by simp only; linarith)
  | heartbeat now => exact if_neg fun he => hne he.symm
  | delete => exact if_neg fun he => hne he.symm

theorem Statement.measuredBy.mono {later : ℚ} {statement : Statement}
    (h : statement.measuredBy clock) (hle : clock ≤ later) : statement.measuredBy later := by
  cases statement with
  | acquire now | heartbeat now =>
      have hnow : now ≤ clock := h
      exact hnow.trans hle
  | delete => trivial

theorem Lease.mono {later : ℚ} (h : Lease config row id clock node) (hle : clock ≤ later) :
    Lease config row id later node := by
  obtain ⟨phase, failures, late⟩ := node
  cases phase with
  | standby | stopped => exact h
  | acquiring now executed => exact ⟨h.1, h.2.1.trans hle, h.2.2⟩
  | sleeping wake =>
      obtain ⟨h, hh, hwake⟩ := h
      exact ⟨h, ⟨hh.owns, hh.late, hh.failures, hh.since.trans hle⟩, hwake⟩
  | beating now executed =>
      obtain ⟨h, hh, hnow, hclock, hrest⟩ := h
      exact ⟨h, ⟨hh.owns, hh.late, hh.failures, hh.since.trans hle⟩, hnow, hclock.trans hle, hrest⟩

-- An instance that does not hold the row says nothing about it.
theorem Lease.of_not_holds {changed : Option Row} (h : Lease config row id clock node)
    (hn : node.phase.holds = false) : Lease config changed id clock node := by
  obtain ⟨phase, failures, late⟩ := node
  cases phase with
  | standby | stopped => exact h
  | acquiring now executed =>
      refine ⟨h.1, h.2.1, fun he => ?_⟩
      rw [he] at hn
      cases hn
  | sleeping wake | beating now executed => cases hn

theorem isLeader_holds (h : node.isLeader = true) : node.phase.holds = true := by
  unfold Instance.isLeader at h
  split at h
  · next hp => rw [hp]; rfl
  · next hp => rw [hp]; rfl
  all_goals cases h

namespace Safe

theorem owns (h : Safe config members state) (hconfig : DemotesInTime config)
    (hholds : (state.instances id).phase.holds = true) :
    ∃ heartbeat, state.row = some ⟨id, heartbeat⟩ ∧
      state.clock ≤ heartbeat + config.leaseTimeout :=
  owns_of_holds hconfig (h.lease id) hholds (h.inTime id)

theorem atMostOneLeader (h : Safe config members state) (hconfig : DemotesInTime config) :
    AtMostOneLeader state := by
  intro id other hid hother
  obtain ⟨_, hrow, _⟩ := h.owns hconfig (isLeader_holds hid)
  obtain ⟨_, hrow', _⟩ := h.owns hconfig (isLeader_holds hother)
  rw [hrow] at hrow'
  cases hrow'
  rfl

-- A step of one instance keeps the others safe if it leaves the row or no other holds it.
theorem set {changed : Option Row} (h : Safe config members state)
    (hjoined : node.phase ≠ .standby → id ∈ members)
    (htime : ∀ limit ∈ node.phase.limit, state.clock ≤ limit)
    (hmeasured : ∀ statement ∈ node.late ++ node.phase.pending,
      statement.measuredBy state.clock)
    (hlease : Lease config changed id state.clock node)
    (hothers : changed = state.row ∨
      ∀ other, other ≠ id → (state.instances other).phase.holds = false) :
    Safe config members ({ state with row := changed }.set id node) := by
  have hinstances (other : InstanceId) : ({ state with row := changed }.set id node).instances
      other = if other = id then node else state.instances other :=
    Function.update_apply ..
  refine ⟨fun other => ?_, fun other => ?_, fun other => ?_, fun other => ?_⟩
  all_goals
    rw [hinstances]
    split_ifs with he
  · exact he ▸ hjoined
  · exact h.joined other
  · exact htime
  · exact h.inTime other
  · exact hmeasured
  · exact h.measured other
  · exact he ▸ hlease
  · rcases hothers with hsame | hfree
    · change Lease config changed other state.clock _
      rw [hsame]
      exact h.lease other
    · exact (h.lease other).of_not_holds (hfree other he)

-- A statement of the instance leaves the row to another holder.
theorem executes (h : Safe config members state) (hconfig : DemotesInTime config)
    (id : InstanceId) {statement : Statement} (hs : statement.measuredBy state.clock) :
    statement.execute config id state.row = (state.row, false) ∨
      ∀ other, other ≠ id → (state.instances other).phase.holds = false := by
  by_cases hheld : ∃ other, other ≠ id ∧ (state.instances other).phase.holds = true
  · obtain ⟨other, hne, hholds⟩ := hheld
    obtain ⟨heartbeat, hrow, hage⟩ := h.owns hconfig hholds
    left
    rw [hrow]
    exact execute_blocked (Ne.symm hne) hage hs
  · right
    intro other hne
    by_contra hholds
    exact hheld ⟨other, hne, by simpa using hholds⟩

end Safe

-- A shorter list of late statements weakens nothing.
theorem Lease.of_late {late : List Statement} (h : Lease config row id clock node)
    (hlate : ∀ statement ∈ late, statement ∈ node.late) :
    Lease config row id clock { node with late := late } := by
  have hempty (hnil : node.late = []) : late = [] := by
    apply List.eq_nil_iff_forall_not_mem.mpr
    intro statement hs
    simpa [hnil] using hlate statement hs
  obtain ⟨phase, failures, before⟩ := node
  cases phase with
  | standby | stopped => exact h
  | acquiring now executed =>
      exact ⟨h.1, h.2.1, fun he => ⟨(h.2.2 he).1, hempty (h.2.2 he).2⟩⟩
  | sleeping wake =>
      obtain ⟨h, hh, hwake⟩ := h
      exact ⟨h, ⟨hh.owns, fun s hs => hh.late s (hlate s hs), hh.failures, hh.since⟩, hwake⟩
  | beating now executed =>
      obtain ⟨h, hh, hnow, hclock, hbound, hrow⟩ := h
      refine ⟨h, ⟨hh.owns, fun s hs => hh.late s (hlate s hs), hh.failures, hh.since⟩, hnow,
        hclock, hbound, fun he => ⟨hempty (hrow he).1, (hrow he).2⟩⟩

-- The outcome of an attempt that has not raised.
theorem Lease.reported {after : Instance} (h : Lease config row id clock node)
    (htime : ∀ limit ∈ node.phase.limit, clock ≤ limit)
    (hreported : node.reported config clock = some after) :
    Lease config row id clock after ∧ after.late = node.late ∧
      (∀ limit ∈ after.phase.limit, clock ≤ limit) ∧ after.phase.pending = [] ∧
      node.phase ≠ .standby := by
  have hsleep := heartbeatSleep_nonneg config
  have hwake : clock ≤ clock + config.heartbeatSleep := by linarith
  obtain ⟨phase, failures, late⟩ := node
  cases phase with
  | standby | stopped | sleeping wake => cases hreported
  | acquiring now executed =>
      obtain ⟨hfailures, hnow, htrue⟩ := h
      simp only at hfailures htrue
      subst hfailures
      cases executed with
      | none => cases hreported
      | some changed =>
          cases changed with
          | false => cases hreported; exact ⟨rfl, rfl, by simp [Phase.limit], rfl, by simp⟩
          | true =>
              obtain ⟨hrow, rfl⟩ := htrue rfl
              have hclock := htime (now + DB_OP_TIMEOUT) rfl
              cases hreported
              refine ⟨⟨now, ⟨⟨now, hrow, le_refl _⟩, by simp, Nat.zero_lt_succ 2, hnow⟩, ?_⟩, rfl,
                by simpa [Phase.limit] using hwake, rfl, by simp⟩
              simp only [slack, Nat.cast_zero]
              linarith
  | beating now executed =>
      obtain ⟨h, hh, hnow, hclock, hbound, htrue⟩ := h
      cases executed with
      | none => cases hreported
      | some changed =>
          cases changed with
          | false => cases hreported; exact ⟨trivial, rfl, by simp [Phase.limit], rfl, by simp⟩
          | true =>
              obtain ⟨rfl, hrow⟩ := htrue rfl
              have htimeout := htime (now + DB_OP_TIMEOUT) rfl
              cases hreported
              refine ⟨⟨now, ⟨hrow, by simp, Nat.zero_lt_succ 2, hclock⟩, ?_⟩, rfl,
                by simpa [Phase.limit] using hwake, rfl, by simp⟩
              simp only [slack, Nat.cast_zero]
              linarith

theorem failed_late {after : Instance} (h : node.failed config clock = some after) :
    after.late = node.late := by
  unfold Instance.failed at h
  split at h
  · cases h; rfl
  · split_ifs at h <;> cases h <;> rfl
  · cases h

-- The outcome of one that has, with the statements it leaves behind.
theorem Lease.failed {after : Instance} {left : List Statement}
    (h : Lease config row id clock node)
    (htime : ∀ limit ∈ node.phase.limit, clock ≤ limit)
    (hfailed : node.failed config clock = some after)
    (hleft : ∀ statement ∈ left, statement ∈ node.phase.pending) :
    Lease config row id clock { after with late := node.late ++ left } ∧
      (∀ limit ∈ after.phase.limit, clock ≤ limit) ∧ after.phase.pending = [] ∧
      node.phase ≠ .standby := by
  have hsleep := heartbeatSleep_nonneg config
  have hwake : clock ≤ clock + config.heartbeatSleep := by linarith
  obtain ⟨phase, failures, late⟩ := node
  cases phase with
  | standby | stopped | sleeping wake => cases hfailed
  | acquiring now executed =>
      cases hfailed
      exact ⟨h.1, by simp [Phase.limit], rfl, by simp⟩
  | beating now executed =>
      obtain ⟨h, hh, hnow, hclock, hbound, -⟩ := h
      have htimeout := htime (now + DB_OP_TIMEOUT) rfl
      unfold Instance.failed at hfailed
      simp only at hfailed
      split_ifs at hfailed with hmax
      · cases hfailed
        exact ⟨trivial, by simp [Phase.limit], rfl, by simp⟩
      · cases hfailed
        refine ⟨⟨h, ⟨hh.owns, ?_, Nat.not_le.mp hmax, hh.since⟩, ?_⟩,
          by simpa [Phase.limit] using hwake, rfl, by simp⟩
        · intro statement hs
          rcases List.mem_append.mp hs with hmem | hmem
          · exact hh.late statement hmem
          · have hpending := hleft statement hmem
            cases executed with
            | none =>
                have heq : statement = .heartbeat now := by
                  simpa [Phase.pending] using hpending
                exact ⟨now, heq, hnow⟩
            | some changed => simp [Phase.pending] at hpending
        · simp only [slack, Nat.cast_add, Nat.cast_one] at hbound ⊢
          linarith

-- A late statement of a holder is a heartbeat, and its row stays its own.
theorem Lease.lateExecutes {statement : Statement} {rest : List Statement}
    (h : Lease config row id clock node) (hlate : node.late = statement :: rest) :
    Lease config (statement.execute config id row).1 id clock { node with late := rest } := by
  have hrest : ∀ s ∈ rest, s ∈ node.late := by
    intro s hs
    rw [hlate]
    exact List.mem_cons_of_mem _ hs
  have hmem : statement ∈ node.late := by simp [hlate]
  have hmoved (h : ℚ) (hh : Holds row id node clock h) :
      Holds (statement.execute config id row).1 id { node with late := rest } clock h := by
    obtain ⟨now, rfl, hnow⟩ := hh.late statement hmem
    obtain ⟨heartbeat, rfl, -⟩ := hh.owns
    exact ⟨⟨now, by simp [Statement.execute], hnow⟩, fun s hs => hh.late s (hrest s hs),
      hh.failures, hh.since⟩
  by_cases hholds : node.phase.holds = true
  · obtain ⟨phase, failures, late⟩ := node
    cases phase with
    | standby | stopped => cases hholds
    | acquiring now executed =>
        obtain ⟨-, rfl⟩ := h.2.2 (by simpa [Phase.holds] using hholds)
        cases hlate
    | sleeping wake =>
        obtain ⟨h, hh, hwake⟩ := h
        exact ⟨h, hmoved h hh, hwake⟩
    | beating now executed =>
        obtain ⟨h, hh, hnow, hclock, hbound, htrue⟩ := h
        refine ⟨h, hmoved h hh, hnow, hclock, hbound, fun he => ?_⟩
        obtain ⟨rfl, -⟩ := htrue he
        cases hlate
  · exact (h.of_late hrest).of_not_holds (by simpa using hholds)

namespace Safe

theorem acquireStarts (h : Safe config members state) (hmem : id ∈ members)
    (hp : (state.instances id).phase = .standby) :
    Safe config members (state.set id
      { state.instances id with phase := .acquiring state.clock none }) := by
  have hlease := h.lease id
  have hmeasured := h.measured id
  generalize state.instances id = node at hp hlease hmeasured
  obtain ⟨phase, failures, late⟩ := node
  cases hp
  refine h.set (fun _ => hmem) ?_ ?_ (show Lease .. from ⟨hlease, le_refl _, by simp⟩)
    (Or.inl rfl)
  · simp [Phase.limit, DB_OP_TIMEOUT]
  · intro statement hs
    rcases List.mem_append.mp hs with hs | hs
    · exact hmeasured statement (List.mem_append_left _ hs)
    · have heq : statement = .acquire state.clock := by simpa [Phase.pending] using hs
      subst heq
      exact le_refl state.clock

theorem heartbeatStarts (h : Safe config members state)
    (hp : (state.instances id).phase = .sleeping state.clock) :
    Safe config members (state.set id
      { state.instances id with phase := .beating state.clock none }) := by
  have hjoined := h.joined id (by simp [hp])
  have hlease := h.lease id
  have hmeasured := h.measured id
  generalize state.instances id = node at hp hlease hmeasured
  obtain ⟨phase, failures, late⟩ := node
  cases hp
  obtain ⟨since, hh, hwake⟩ := hlease
  refine h.set (fun _ => hjoined) ?_ ?_
    (show Lease .. from ⟨since, ⟨hh.owns, hh.late, hh.failures, hh.since⟩, hh.since, le_refl _,
      hwake, by simp⟩) (Or.inl rfl)
  · simp [Phase.limit, DB_OP_TIMEOUT]
  · intro statement hs
    rcases List.mem_append.mp hs with hs | hs
    · exact hmeasured statement (List.mem_append_left _ hs)
    · have heq : statement = .heartbeat state.clock := by simpa [Phase.pending] using hs
      subst heq
      exact le_refl state.clock

-- After an attempt the instance keeps its late statements and those of the attempt.
theorem attemptEnds {after : Instance} {left : List Statement} (h : Safe config members state)
    (hleft : ∀ statement ∈ left, statement ∈ (state.instances id).phase.pending)
    (hlate : after.late = (state.instances id).late ++ left)
    (hlease : Lease config state.row id state.clock after)
    (htime : ∀ limit ∈ after.phase.limit, state.clock ≤ limit)
    (hpending : after.phase.pending = []) (hp : (state.instances id).phase ≠ .standby) :
    Safe config members (state.set id after) := by
  refine h.set (fun _ => h.joined id hp) htime ?_ hlease (Or.inl rfl)
  intro statement hs
  rw [hpending, List.append_nil, hlate] at hs
  apply h.measured id statement
  rcases List.mem_append.mp hs with hmem | hmem
  · exact List.mem_append_left _ hmem
  · exact List.mem_append_right _ (hleft statement hmem)

theorem reports {after : Instance} (h : Safe config members state)
    (hreported : (state.instances id).reported config state.clock = some after) :
    Safe config members (state.set id after) := by
  obtain ⟨hlease, hlate, htime, hpending, hp⟩ := (h.lease id).reported (h.inTime id) hreported
  exact h.attemptEnds (by simp) (hlate.trans (List.append_nil _).symm) hlease htime hpending hp

theorem fails {after : Instance} {left : List Statement} (h : Safe config members state)
    (hfailed : (state.instances id).failed config state.clock = some after)
    (hleft : ∀ statement ∈ left, statement ∈ (state.instances id).phase.pending) :
    Safe config members
      (state.set id { after with late := (state.instances id).late ++ left }) := by
  obtain ⟨hlease, htime, hpending, hp⟩ := (h.lease id).failed (h.inTime id) hfailed hleft
  exact h.attemptEnds hleft rfl hlease htime hpending hp

theorem execute (h : Safe config members state) (hconfig : DemotesInTime config)
    (he : state.execute config id = some next) : Safe config members next := by
  have hlease := h.lease id
  have hmeasured := h.measured id
  have hjoined := h.joined id
  have htime := h.inTime id
  unfold State.execute at he
  generalize state.instances id = node at he hlease hmeasured hjoined htime
  obtain ⟨phase, failures, late⟩ := node
  simp only at he
  split at he
  · next now =>
      cases he
      have hs := hmeasured (.acquire now) (by simp [Phase.pending])
      have hothers := h.executes hconfig id hs
      refine h.set (fun _ => hjoined (by simp)) htime (by simp [Phase.pending]) ?_
        (hothers.imp_left fun hsame => by rw [hsame])
      refine show Lease .. from ⟨hlease.1, hlease.2.1, fun htrue => ⟨?_, rfl⟩⟩
      have hchanged := Option.some.inj htrue
      revert hchanged
      simp only [Statement.execute]
      split
      · simp
      · split_ifs <;> simp
  · next now =>
      cases he
      have hs := hmeasured (.heartbeat now) (by simp [Phase.pending])
      have hothers := h.executes hconfig id hs
      obtain ⟨since, hh, hnow, hclock, hbound, -⟩ := hlease
      obtain ⟨heartbeat, hrow, hle⟩ := hh.owns
      have hexecute : (Statement.heartbeat now).execute config id state.row =
          (some ⟨id, now⟩, true) := by
        rw [hrow]
        exact if_pos rfl
      refine h.set (fun _ => hjoined (by simp)) htime (by simp [Phase.pending]) ?_
        (hothers.imp_left fun hsame => by rw [hsame])
      rw [hexecute]
      exact show Lease .. from ⟨since, ⟨⟨now, rfl, hnow⟩, hh.late, hh.failures, hh.since⟩, hnow,
        hclock, hbound, fun _ => ⟨rfl, now, rfl, le_refl _⟩⟩
  · cases he

theorem executeLate (h : Safe config members state) (hconfig : DemotesInTime config)
    (he : state.executeLate config id = some next) : Safe config members next := by
  unfold State.executeLate at he
  simp only at he
  split at he
  · cases he
  · next statement rest hlate =>
      cases he
      have hmem (s : Statement) (hs : s ∈ rest) : s ∈ (state.instances id).late := by
        rw [hlate]
        exact List.mem_cons_of_mem _ hs
      have hs := h.measured id statement (by simp [hlate])
      have hothers := h.executes hconfig id hs
      refine h.set (h.joined id) (h.inTime id) ?_ ((h.lease id).lateExecutes hlate)
        (hothers.imp_left fun hsame => by rw [hsame])
      intro other hother
      apply h.measured id other
      rcases List.mem_append.mp hother with hlater | hpending
      · exact List.mem_append_left _ (hmem other hlater)
      · exact List.mem_append_right _ hpending

theorem lateFails (h : Safe config members state) :
    Safe config members (state.set id
      { state.instances id with late := (state.instances id).late.tail }) := by
  have htail (s : Statement) (hs : s ∈ (state.instances id).late.tail) :
      s ∈ (state.instances id).late := List.mem_of_mem_tail hs
  refine h.set (h.joined id) (h.inTime id) ?_ ((h.lease id).of_late htail) (Or.inl rfl)
  intro statement hs
  apply h.measured id statement
  rcases List.mem_append.mp hs with hmem | hmem
  · exact List.mem_append_left _ (htail statement hmem)
  · exact List.mem_append_right _ hmem

theorem release {after : Instance} (h : Safe config members state)
    (hreleased : (state.instances id).released = some after) :
    Safe config members (state.set id after) := by
  unfold Instance.released at hreleased
  split_ifs at hreleased with hleader
  cases hreleased
  have hp : (state.instances id).phase ≠ .standby := by
    intro hstandby
    simp [Instance.isLeader, hstandby] at hleader
  refine h.set (fun _ => h.joined id hp) (by simp [Phase.limit]) ?_ trivial (Or.inl rfl)
  intro statement hs
  simp only [Phase.pending, List.append_nil, List.mem_append, List.mem_singleton] at hs
  rcases hs with hs | rfl
  · exact h.measured id statement (List.mem_append.mpr hs)
  · trivial

theorem tick {seconds : ℚ} (h : Safe config members state) (hpos : 0 ≤ seconds)
    (hlimit : ∀ id ∈ members, ∀ limit ∈ (state.instances id).phase.limit,
      state.clock + seconds ≤ limit) :
    Safe config members { state with clock := state.clock + seconds } := by
  have hle : state.clock ≤ state.clock + seconds := by linarith
  refine ⟨h.joined, fun id => ?_, fun id statement hs => (h.measured id statement hs).mono hle,
    fun id => (h.lease id).mono hle⟩
  by_cases hmem : id ∈ members
  · exact hlimit id hmem
  · have hp : (state.instances id).phase = .standby := by
      by_contra hne
      exact hmem (h.joined id hne)
    simp [hp, Phase.limit]

theorem step {event : Event} (hconfig : DemotesInTime config) (h : Safe config members state)
    (he : step config members state event = some next) : Safe config members next := by
  cases event with
  | acquireStarts id =>
      obtain ⟨⟨hmem, hp⟩, rfl⟩ := by simpa [LeaderElection.step] using he
      exact h.acquireStarts hmem hp
  | heartbeatStarts id =>
      obtain ⟨hp, rfl⟩ := by simpa [LeaderElection.step] using he
      exact h.heartbeatStarts hp
  | executes id => exact h.execute hconfig he
  | reports id =>
      obtain ⟨after, hreported, rfl⟩ := Option.map_eq_some_iff.mp he
      exact h.reports hreported
  | fails id =>
      obtain ⟨after, hfailed, rfl⟩ := Option.map_eq_some_iff.mp he
      have hsafe := h.fails hfailed (List.forall_mem_nil _)
      rwa [List.append_nil, ← failed_late hfailed] at hsafe
  | timesOut id =>
      obtain ⟨after, htimedOut, rfl⟩ := Option.map_eq_some_iff.mp he
      unfold Instance.timedOut at htimedOut
      split_ifs at htimedOut
      obtain ⟨ended, hfailed, rfl⟩ := Option.map_eq_some_iff.mp htimedOut
      exact h.fails hfailed fun _ hs => hs
  | lateExecutes id => exact h.executeLate hconfig he
  | lateFails id =>
      simp only [LeaderElection.step] at he
      split_ifs at he
      cases he
      exact h.lateFails
  | release id =>
      obtain ⟨after, hreleased, rfl⟩ := Option.map_eq_some_iff.mp he
      exact h.release hreleased
  | tick seconds =>
      simp only [LeaderElection.step] at he
      split_ifs at he with hguard
      cases he
      exact h.tick hguard.1 hguard.2

end Safe

end EvoClaw.LeaderElection
