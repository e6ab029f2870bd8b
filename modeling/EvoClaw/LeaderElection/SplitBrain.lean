import EvoClaw.LeaderElection.Uniqueness
import Mathlib.Tactic.Ring

namespace EvoClaw.LeaderElection

open EventSystem

variable {config : Config} {members : List InstanceId} {row : Option Row} {clock : ℚ}
  {node other : Instance}

theorem Safe.start (row : Option Row) : Safe config members { row := row } :=
  ⟨fun _ hp => absurd rfl hp, by simp [Phase.limit], by simp [Phase.pending], fun _ => rfl⟩

theorem always_atMostOneLeader (hconfig : DemotesInTime config) (members : List InstanceId)
    (row : Option Row) (events : List Event) :
    Always (step config members) AtMostOneLeader { row := row } events := by
  have hguard : Along (step config members) (fun _ _ => True) { row := row } events :=
    along_of_forall (fun _ _ => trivial) _ _
  exact hguard.always (Safe config members) (fun _ _ _ h _ he => h.step hconfig he)
    (fun _ h => h.atMostOneLeader hconfig) (Safe.start row)

section TwoInstances

-- Two instances at a time.
def pair (clock : ℚ) (row : Option Row) (a b : Instance) : State :=
  ⟨clock, row, fun id => if id = "a" then a else if id = "b" then b else {}⟩

@[simp] theorem pair_clock : (pair clock row node other).clock = clock := rfl

@[simp] theorem pair_row : (pair clock row node other).row = row := rfl

@[simp] theorem pair_instances_a : (pair clock row node other).instances "a" = node := rfl

@[simp] theorem pair_instances_b : (pair clock row node other).instances "b" = other := rfl

@[simp] theorem pair_set_a {after : Instance} :
    (pair clock row node other).set "a" after = pair clock row after other := by
  unfold pair State.set
  congr 1
  funext id
  by_cases h : id = "a" <;> simp [h]

@[simp] theorem pair_set_b {after : Instance} :
    (pair clock row node other).set "b" after = pair clock row node after := by
  unfold pair State.set
  congr 1
  funext id
  by_cases h : id = "b" <;> simp [h]

theorem pair_tick {seconds : ℚ} (hpos : 0 ≤ seconds)
    (hnode : ∀ limit ∈ node.phase.limit, clock + seconds ≤ limit)
    (hother : ∀ limit ∈ other.phase.limit, clock + seconds ≤ limit) :
    step config ["a", "b"] (pair clock row node other) (.tick seconds) =
      some (pair (clock + seconds) row node other) := by
  have hmembers : ∀ id ∈ ["a", "b"],
      ∀ limit ∈ ((pair clock row node other).instances id).phase.limit,
        clock + seconds ≤ limit := by
    simpa using ⟨hnode, hother⟩
  exact if_pos ⟨hpos, hmembers⟩

end TwoInstances

-- The sleep of the first instance and the begin of its heartbeat.
def sleeps (config : Config) : List Event :=
  [.tick config.heartbeatSleep, .heartbeatStarts "a"]

-- A heartbeat that raises only when its time is over.
def failsLate : List Event :=
  [.tick DB_OP_TIMEOUT, .fails "a"]

theorem run_sleeps {failures : Nat} :
    run (step config ["a", "b"])
      (pair clock row ⟨.sleeping (clock + config.heartbeatSleep), failures, []⟩ {})
      (sleeps config) =
    some (pair (clock + config.heartbeatSleep) row
      ⟨.beating (clock + config.heartbeatSleep) none, failures, []⟩ {}) := by
  have htick : step config ["a", "b"]
      (pair clock row ⟨.sleeping (clock + config.heartbeatSleep), failures, []⟩ {})
      (.tick config.heartbeatSleep) =
      some (pair (clock + config.heartbeatSleep) row
        ⟨.sleeping (clock + config.heartbeatSleep), failures, []⟩ {}) :=
    pair_tick (heartbeatSleep_nonneg config) (by simp [Phase.limit]) (by simp [Phase.limit])
  unfold sleeps
  rw [run_cons_of_step htick]
  simp [run, step]

theorem run_failsLate {failures : Nat}
    (hfailures : failures + 1 < MAX_CONSECUTIVE_HEARTBEAT_FAILURES) :
    run (step config ["a", "b"]) (pair clock row ⟨.beating clock none, failures, []⟩ {})
      failsLate =
    some (pair (clock + DB_OP_TIMEOUT) row
      ⟨.sleeping (clock + DB_OP_TIMEOUT + config.heartbeatSleep), failures + 1, []⟩ {}) := by
  have htick : step config ["a", "b"] (pair clock row ⟨.beating clock none, failures, []⟩ {})
      (.tick DB_OP_TIMEOUT) =
      some (pair (clock + DB_OP_TIMEOUT) row ⟨.beating clock none, failures, []⟩ {}) :=
    pair_tick (by norm_num [DB_OP_TIMEOUT]) (by simp [Phase.limit]) (by simp [Phase.limit])
  unfold failsLate
  rw [run_cons_of_step htick]
  simp [run, step, Instance.failed, Nat.not_le.mpr hfailures]

-- The first acquisition is reported only when its time is over.
def becomesLeader : List Event :=
  [.acquireStarts "a", .executes "a", .tick DB_OP_TIMEOUT, .reports "a"]

theorem run_becomesLeader :
    run (step config ["a", "b"]) {} becomesLeader =
    some (pair DB_OP_TIMEOUT (some ⟨"a", 0⟩)
      ⟨.sleeping (DB_OP_TIMEOUT + config.heartbeatSleep), 0, []⟩ {}) := by
  have hstart : ({} : State) = pair 0 none {} {} := by
    unfold pair
    congr 1
    funext id
    simp
  have htick : step config ["a", "b"]
      (pair 0 (some ⟨"a", 0⟩) ⟨.acquiring 0 (some true), 0, []⟩ {}) (.tick DB_OP_TIMEOUT) =
      some (pair (0 + DB_OP_TIMEOUT) (some ⟨"a", 0⟩) ⟨.acquiring 0 (some true), 0, []⟩ {}) :=
    pair_tick (by norm_num [DB_OP_TIMEOUT]) (by simp [Phase.limit]) (by simp [Phase.limit])
  have hacquire : run (step config ["a", "b"]) {} [.acquireStarts "a", .executes "a"] =
      some (pair 0 (some ⟨"a", 0⟩) ⟨.acquiring 0 (some true), 0, []⟩ {}) := by
    rw [hstart]
    simp [run, step, State.execute, Statement.execute]
    exact pair_set_a
  have hsplit : becomesLeader =
      [.acquireStarts "a", .executes "a"] ++ [.tick DB_OP_TIMEOUT, .reports "a"] := rfl
  rw [hsplit, run_append, hacquire, Option.bind_some, run_cons_of_step htick]
  simp [run, step, Instance.reported]

-- The other instance takes the lease over once it has expired.
def takesOver : List Event :=
  [.acquireStarts "b", .executes "b", .reports "b"]

theorem run_takesOver {held : Row} (hexpired : held.heartbeatAt + config.leaseTimeout < clock) :
    run (step config ["a", "b"]) (pair clock (some held) node {}) takesOver =
    some (pair clock (some ⟨"b", clock⟩) node
      ⟨.sleeping (clock + config.heartbeatSleep), 0, []⟩) := by
  have hold : held.heartbeatAt < clock - config.leaseTimeout := by linarith
  have hstarts : step config ["a", "b"] (pair clock (some held) node {}) (.acquireStarts "b") =
      some (pair clock (some held) node ⟨.acquiring clock none, 0, []⟩) := by
    simp [step]
  have hexecutes : step config ["a", "b"]
      (pair clock (some held) node ⟨.acquiring clock none, 0, []⟩) (.executes "b") =
      some (pair clock (some ⟨"b", clock⟩) node ⟨.acquiring clock (some true), 0, []⟩) := by
    simp only [step, State.execute, pair_instances_b, Statement.execute, pair_row, if_pos hold]
    exact congrArg some pair_set_b
  unfold takesOver
  rw [run_cons_of_step hstarts, run_cons_of_step hexecutes]
  simp [run, step, Instance.reported]

-- Two heartbeats of the first instance fail, and the third one hangs while the lease ends.
def splitBrain (config : Config) : List Event :=
  becomesLeader ++ sleeps config ++ failsLate ++ sleeps config ++ failsLate ++ sleeps config ++
    [.tick DB_OP_TIMEOUT] ++ takesOver

theorem run_splitBrain (hlate : ¬ DemotesInTime config) :
    ∃ final, run (step config ["a", "b"]) {} (splitBrain config) = some final ∧
      ¬ AtMostOneLeader final := by
  have hexpired : config.leaseTimeout < 3 * config.heartbeatSleep + 4 * DB_OP_TIMEOUT :=
    not_le.mp hlate
  have htick (clock : ℚ) : step config ["a", "b"]
      (pair clock (some ⟨"a", 0⟩) ⟨.beating clock none, 2, []⟩ {}) (.tick DB_OP_TIMEOUT) =
      some (pair (clock + DB_OP_TIMEOUT) (some ⟨"a", 0⟩) ⟨.beating clock none, 2, []⟩ {}) :=
    pair_tick (by norm_num [DB_OP_TIMEOUT]) (by simp [Phase.limit]) (by simp [Phase.limit])
  unfold splitBrain
  simp only [run_append, run_becomesLeader, Option.bind_some, run_sleeps]
  rw [run_failsLate (by decide), Option.bind_some, run_sleeps, Option.bind_some,
    run_failsLate (by decide), Option.bind_some, run_sleeps, Option.bind_some,
    run_cons_of_step (htick _)]
  simp only [run, Option.bind_some]
  rw [run_takesOver (by simp only; linarith)]
  refine ⟨_, rfl, fun h => ?_⟩
  have hne := h "a" "b" (by simp [Instance.isLeader]) (by simp [Instance.isLeader])
  simp at hne

end EvoClaw.LeaderElection
