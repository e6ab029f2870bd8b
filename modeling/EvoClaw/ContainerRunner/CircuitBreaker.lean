import EvoClaw.EventSystem.Runs
import Mathlib.Algebra.Order.Ring.Rat
import Mathlib.Logic.Function.Basic
import Mathlib.Tactic.NormNum

-- The circuit breaker that keeps a group from starting containers while Docker fails.
namespace EvoClaw.ContainerRunner

open EventSystem

def DOCKER_CIRCUIT_THRESHOLD : Nat := 3

-- In seconds.
def DOCKER_HALF_OPEN_SECS : ℚ := 60

-- _docker_failures and _docker_failure_time
structure Breaker (Folder : Type*) where
  failures : Folder → Option Nat
  failureTime : Folder → Option ℚ

section Breaker

variable {Folder : Type*} [DecidableEq Folder]

def Breaker.empty : Breaker Folder where
  failures _ := none
  failureTime _ := none

def Breaker.recordDockerSuccess (breaker : Breaker Folder) (folder : Folder) : Breaker Folder where
  failures := Function.update breaker.failures folder none
  failureTime := Function.update breaker.failureTime folder none

def Breaker.recordDockerFailure (breaker : Breaker Folder) (folder : Folder) (now : ℚ) :
    Breaker Folder where
  failures := Function.update breaker.failures folder
    (some ((breaker.failures folder).getD 0 + 1))
  failureTime := Function.update breaker.failureTime folder (some now)

-- The remaining cooldown. 0 admits the request.
def Breaker.dockerCircuitOpen (breaker : Breaker Folder) (folder : Folder) (now : ℚ) :
    ℚ × Breaker Folder :=
  if (breaker.failures folder).getD 0 < DOCKER_CIRCUIT_THRESHOLD then (0, breaker)
  else
    let elapsed := now - (breaker.failureTime folder).getD 0
    if DOCKER_HALF_OPEN_SECS ≤ elapsed then
      (0, { breaker with failures := Function.update breaker.failures folder (some 0) })
    else (DOCKER_HALF_OPEN_SECS - elapsed, breaker)

inductive CallKind where
  | check
  | success
  | failure
deriving DecidableEq

structure BreakerCall (Folder : Type*) where
  kind : CallKind
  folder : Folder
  now : ℚ

-- Only a check answers.
def Breaker.call (breaker : Breaker Folder) (call : BreakerCall Folder) :
    Option ℚ × Breaker Folder :=
  match call.kind with
  | .check =>
      let (answer, breaker) := breaker.dockerCircuitOpen call.folder call.now
      (some answer, breaker)
  | .success => (none, breaker.recordDockerSuccess call.folder)
  | .failure => (none, breaker.recordDockerFailure call.folder call.now)

def breakerAnswers : Breaker Folder → List (BreakerCall Folder) →
    List (BreakerCall Folder × Option ℚ)
  | _, [] => []
  | breaker, call :: rest =>
      (call, (breaker.call call).1) :: breakerAnswers (breaker.call call).2 rest

end Breaker

section Law

-- What a breaker is to do for one folder: closed after some failures in a row, open since the
-- last failure, or open with one request on trial.
inductive Phase where
  | closed (failures : Nat)
  | opened (since : ℚ)
  | trial
deriving DecidableEq

def Phase.next (phase : Phase) (now : ℚ) : CallKind → Option ℚ → Phase
  | .success, _ => .closed 0
  | .failure, _ =>
      match phase with
      | .closed failures =>
          if failures + 1 < DOCKER_CIRCUIT_THRESHOLD then .closed (failures + 1) else .opened now
      | .opened _ | .trial => .opened now
  | .check, answer =>
      match phase with
      | .opened since => if answer = some 0 then .trial else .opened since
      | .closed failures => .closed failures
      | .trial => .trial

variable {Folder : Type*} [DecidableEq Folder]

-- The breaker, and the phase that each folder is to be in.
structure Watched (Folder : Type*) where
  breaker : Breaker Folder
  phase : Folder → Phase

def Watched.start : Watched Folder where
  breaker := Breaker.empty
  phase _ := .closed 0

def Watched.step (watched : Watched Folder) (call : BreakerCall Folder) :
    Option (Watched Folder) :=
  some
    { breaker := (watched.breaker.call call).2
      phase := Function.update watched.phase call.folder
        ((watched.phase call.folder).next call.now call.kind (watched.breaker.call call).1) }

-- While it is open, a request is admitted after the cooldown only. While one is on trial, no
-- other is admitted, and a failure opens the circuit again at once.
def lawful (watched : Watched Folder) (call : BreakerCall Folder) : Bool :=
  match watched.phase call.folder, call.kind with
  | .opened since, .check =>
      (watched.breaker.call call).1 ≠ some 0 ∨ DOCKER_HALF_OPEN_SECS ≤ call.now - since
  | .trial, .check => (watched.breaker.call call).1 ≠ some 0
  | .trial, .failure =>
      0 < ((watched.breaker.call call).2.dockerCircuitOpen call.folder call.now).1
  | _, _ => true

structure HalfOpenLaw (calls : List (BreakerCall Folder)) : Prop where
  one_trial : Along Watched.step (fun watched call => lawful watched call = true) Watched.start calls
  own_calls : ∀ folder : Folder,
    (breakerAnswers Breaker.empty calls).filter (fun entry => entry.1.folder = folder) =
      breakerAnswers Breaker.empty (calls.filter fun call => call.folder = folder)

-- A counter that the half-open step has reset is followed by a success.
def TrialSucceeds (watched : Watched Folder) (call : BreakerCall Folder) : Prop :=
  watched.breaker.failures call.folder = some 0 → call.kind = .success

end Law

section Phases

variable {Folder : Type*} [DecidableEq Folder] {watched next : Watched Folder}
  {call : BreakerCall Folder} {calls : List (BreakerCall Folder)} {folder : Folder}

def Phase.Tracks (phase : Phase) (failures : Option Nat) (failureTime : Option ℚ) : Prop :=
  match phase with
  | .closed n => n < DOCKER_CIRCUIT_THRESHOLD ∧ failures.getD 0 = n ∧ failures ≠ some 0
  | .opened since =>
      ∃ n, DOCKER_CIRCUIT_THRESHOLD ≤ n ∧ failures = some n ∧ failureTime = some since
  | .trial => failures = some 0

def Watched.Tracks (watched : Watched Folder) : Prop :=
  ∀ folder, (watched.phase folder).Tracks (watched.breaker.failures folder)
    (watched.breaker.failureTime folder)

omit [DecidableEq Folder] in
theorem tracks_start : (Watched.start : Watched Folder).Tracks :=
  fun _ => ⟨by decide, rfl, nofun⟩

theorem call_of_ne (breaker : Breaker Folder) (h : folder ≠ call.folder) :
    (breaker.call call).2.failures folder = breaker.failures folder ∧
      (breaker.call call).2.failureTime folder = breaker.failureTime folder := by
  unfold Breaker.call
  split
  · unfold Breaker.dockerCircuitOpen
    simp only
    split
    · exact ⟨rfl, rfl⟩
    · split
      · exact ⟨Function.update_of_ne h _ _, rfl⟩
      · exact ⟨rfl, rfl⟩
  · exact ⟨Function.update_of_ne h _ _, Function.update_of_ne h _ _⟩
  · exact ⟨Function.update_of_ne h _ _, Function.update_of_ne h _ _⟩

theorem dockerCircuitOpen_few {breaker : Breaker Folder} {now : ℚ}
    (h : (breaker.failures folder).getD 0 < DOCKER_CIRCUIT_THRESHOLD) :
    breaker.dockerCircuitOpen folder now = (0, breaker) :=
  if_pos h

theorem dockerCircuitOpen_many {breaker : Breaker Folder} {now since : ℚ} {n : Nat}
    (hmany : DOCKER_CIRCUIT_THRESHOLD ≤ n) (hn : breaker.failures folder = some n)
    (hsince : breaker.failureTime folder = some since) :
    breaker.dockerCircuitOpen folder now =
      if DOCKER_HALF_OPEN_SECS ≤ now - since then
        (0, { breaker with failures := Function.update breaker.failures folder (some 0) })
      else (DOCKER_HALF_OPEN_SECS - (now - since), breaker) := by
  have hnot : ¬ (breaker.failures folder).getD 0 < DOCKER_CIRCUIT_THRESHOLD := by
    rw [hn]
    exact Nat.not_lt.mpr hmany
  rw [Breaker.dockerCircuitOpen, if_neg hnot, hsince]
  rfl

theorem lawful_closed {n : Nat} (hphase : watched.phase call.folder = .closed n) :
    lawful watched call = true := by
  unfold lawful
  rw [hphase]

theorem lawful_opened {since : ℚ} {n : Nat} (hphase : watched.phase call.folder = .opened since)
    (hmany : DOCKER_CIRCUIT_THRESHOLD ≤ n) (hn : watched.breaker.failures call.folder = some n)
    (hsince : watched.breaker.failureTime call.folder = some since) :
    lawful watched call = true := by
  unfold lawful
  rw [hphase]
  cases hkind : call.kind with
  | success => rfl
  | failure => rfl
  | check =>
      simp only [Breaker.call, hkind, dockerCircuitOpen_many hmany hn hsince]
      by_cases hcool : DOCKER_HALF_OPEN_SECS ≤ call.now - since
      · simp [hcool]
      · have hpos : DOCKER_HALF_OPEN_SECS - (call.now - since) ≠ 0 :=
          ne_of_gt (sub_pos.mpr (lt_of_not_ge hcool))
        simp [hcool, hpos]

-- On trial, another request is admitted, and a failure counts as the first one.
theorem lawful_trial (hphase : watched.phase call.folder = .trial)
    (hzero : watched.breaker.failures call.folder = some 0) :
    lawful watched call = true ↔ call.kind = .success := by
  have hfew : (watched.breaker.failures call.folder).getD 0 < DOCKER_CIRCUIT_THRESHOLD := by
    rw [hzero]
    decide
  unfold lawful
  rw [hphase]
  cases hkind : call.kind with
  | success => simp
  | check => simp [Breaker.call, hkind, dockerCircuitOpen_few hfew]
  | failure =>
      have hone : ((watched.breaker.recordDockerFailure call.folder call.now).failures
          call.folder).getD 0 < DOCKER_CIRCUIT_THRESHOLD := by
        simp [Breaker.recordDockerFailure, hzero, DOCKER_CIRCUIT_THRESHOLD]
      simp [Breaker.call, hkind, dockerCircuitOpen_few hone]

theorem lawful_iff (h : watched.Tracks) :
    lawful watched call = true ↔ TrialSucceeds watched call := by
  have hfolder := h call.folder
  cases hphase : watched.phase call.folder with
  | closed n =>
      rw [hphase] at hfolder
      obtain ⟨-, -, hne⟩ := hfolder
      exact iff_of_true (lawful_closed hphase) fun hzero => absurd hzero hne
  | opened since =>
      rw [hphase] at hfolder
      obtain ⟨n, hmany, hn, hsince⟩ := hfolder
      refine iff_of_true (lawful_opened hphase hmany hn hsince) fun hzero => ?_
      rw [hn, Option.some.injEq] at hzero
      rw [hzero] at hmany
      exact absurd hmany (by decide)
  | trial =>
      rw [hphase] at hfolder
      rw [lawful_trial hphase hfolder]
      exact ⟨fun hkind _ => hkind, fun hguard => hguard hfolder⟩

-- What a call makes of the phase of its folder, as long as no trial fails.
theorem tracks_call (h : watched.Tracks) (hguard : TrialSucceeds watched call) :
    ((watched.phase call.folder).next call.now call.kind (watched.breaker.call call).1).Tracks
      ((watched.breaker.call call).2.failures call.folder)
      ((watched.breaker.call call).2.failureTime call.folder) := by
  have hfolder := h call.folder
  have htrial : watched.phase call.folder = .trial → call.kind = .success := by
    intro hphase
    rw [hphase] at hfolder
    exact hguard hfolder
  cases hkind : call.kind with
  | success =>
      simp only [Breaker.call, hkind, Breaker.recordDockerSuccess, Phase.next, Function.update_self]
      exact ⟨by decide, rfl, nofun⟩
  | failure =>
      simp only [Breaker.call, hkind, Breaker.recordDockerFailure, Phase.next, Function.update_self]
      cases hphase : watched.phase call.folder with
      | closed n =>
          rw [hphase] at hfolder
          obtain ⟨hn, hget, -⟩ := hfolder
          simp only [hget]
          split
          · next hfew => exact ⟨hfew, rfl, by simp⟩
          · next hmany => exact ⟨n + 1, Nat.le_of_not_lt hmany, rfl, rfl⟩
      | opened since =>
          rw [hphase] at hfolder
          obtain ⟨n, hmany, hn, -⟩ := hfolder
          exact ⟨n + 1, Nat.le_succ_of_le hmany, by rw [hn]; rfl, rfl⟩
      | trial => exact absurd (hkind.symm.trans (htrial hphase)) nofun
  | check =>
      simp only [Breaker.call, hkind]
      cases hphase : watched.phase call.folder with
      | closed n =>
          rw [hphase] at hfolder
          have hfew : (watched.breaker.failures call.folder).getD 0 < DOCKER_CIRCUIT_THRESHOLD := by
            rw [hfolder.2.1]
            exact hfolder.1
          rw [dockerCircuitOpen_few hfew]
          exact hfolder
      | opened since =>
          rw [hphase] at hfolder
          obtain ⟨n, hmany, hn, hsince⟩ := hfolder
          rw [dockerCircuitOpen_many hmany hn hsince]
          by_cases hcool : DOCKER_HALF_OPEN_SECS ≤ call.now - since
          · rw [if_pos hcool]
            exact Function.update_self _ _ _
          · have hpos : DOCKER_HALF_OPEN_SECS - (call.now - since) ≠ 0 :=
              ne_of_gt (sub_pos.mpr (lt_of_not_ge hcool))
            rw [if_neg hcool]
            simp only [Phase.next, Option.some.injEq, hpos, if_false]
            exact ⟨n, hmany, hn, hsince⟩
      | trial => exact absurd (hkind.symm.trans (htrial hphase)) nofun

theorem tracks_step (h : watched.Tracks) (hguard : TrialSucceeds watched call)
    (hstep : watched.step call = some next) : next.Tracks := by
  cases hstep
  intro folder
  by_cases hfolder : folder = call.folder
  · subst hfolder
    simp only [Function.update_self]
    exact tracks_call h hguard
  · obtain ⟨hfailures, htime⟩ := call_of_ne watched.breaker hfolder
    simp only [Function.update_of_ne hfolder, hfailures, htime]
    exact h folder

end Phases

section Isolation

variable {Folder : Type*} [DecidableEq Folder] {breaker other : Breaker Folder}
  {call : BreakerCall Folder} {calls : List (BreakerCall Folder)} {folder : Folder}

def Breaker.Agrees (breaker other : Breaker Folder) (folder : Folder) : Prop :=
  breaker.failures folder = other.failures folder ∧
    breaker.failureTime folder = other.failureTime folder

-- The answer to a call and what it leaves for the folder depend on that folder alone.
theorem Breaker.Agrees.step (h : breaker.Agrees other call.folder) :
    (breaker.call call).1 = (other.call call).1 ∧
      (breaker.call call).2.Agrees (other.call call).2 call.folder := by
  obtain ⟨hfailures, htime⟩ := h
  unfold Breaker.call
  cases call.kind with
  | success => simp [Breaker.recordDockerSuccess, Breaker.Agrees]
  | failure => simp [Breaker.recordDockerFailure, Breaker.Agrees, hfailures]
  | check =>
      simp only [Breaker.dockerCircuitOpen, hfailures, htime]
      split
      · exact ⟨rfl, hfailures, htime⟩
      · split
        · exact ⟨rfl, by simp [Breaker.Agrees, htime]⟩
        · exact ⟨rfl, hfailures, htime⟩

theorem breakerAnswers_filter (h : breaker.Agrees other folder) :
    (breakerAnswers breaker calls).filter (fun entry => entry.1.folder = folder) =
      breakerAnswers other (calls.filter fun call => call.folder = folder) := by
  induction calls generalizing breaker other with
  | nil => rfl
  | cons call rest ih =>
      rw [breakerAnswers]
      by_cases hfolder : call.folder = folder
      · subst hfolder
        obtain ⟨hanswer, hnext⟩ := h.step
        rw [List.filter_cons_of_pos (by simp), List.filter_cons_of_pos (by simp), breakerAnswers,
          ih hnext, hanswer]
      · obtain ⟨hfailures, htime⟩ := call_of_ne breaker (Ne.symm hfolder)
        rw [List.filter_cons_of_neg (by simpa using hfolder),
          List.filter_cons_of_neg (by simpa using hfolder)]
        exact ih ⟨hfailures.trans h.1, htime.trans h.2⟩

end Isolation

-- The half-open breaker keeps its law as long as each trial is followed by its success.
theorem half_open_law_iff {Folder : Type*} [DecidableEq Folder]
    (calls : List (BreakerCall Folder)) :
    HalfOpenLaw calls ↔ Along Watched.step TrialSucceeds Watched.start calls := by
  constructor
  · intro h
    refine h.one_trial.along Watched.Tracks (fun watched call next htracks hlawful hstep => ?_)
      (fun watched call htracks hlawful => (lawful_iff htracks).mp hlawful) tracks_start
    exact tracks_step htracks ((lawful_iff htracks).mp hlawful) hstep
  · intro h
    refine ⟨h.along Watched.Tracks (fun watched call next htracks hguard hstep =>
      tracks_step htracks hguard hstep) (fun watched call htracks hguard =>
        (lawful_iff htracks).mpr hguard) tracks_start, fun folder => ?_⟩
    exact breakerAnswers_filter ⟨rfl, rfl⟩

def threeFailuresThenTwoChecks : List (BreakerCall String) :=
  [⟨.failure, "team", 0⟩, ⟨.failure, "team", 0⟩, ⟨.failure, "team", 0⟩,
    ⟨.check, "team", 60⟩, ⟨.check, "team", 60⟩]

-- Both checks are admitted after the cooldown.
theorem half_open_admits_two : ¬ HalfOpenLaw threeFailuresThenTwoChecks := by
  intro h
  exact absurd h.one_trial (by decide +kernel)

end EvoClaw.ContainerRunner
