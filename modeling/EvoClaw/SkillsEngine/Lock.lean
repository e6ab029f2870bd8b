import EvoClaw.EventSystem.Runs
import Mathlib.Algebra.Order.Ring.Rat
import Mathlib.Logic.Function.Basic
import Mathlib.Tactic.Linarith

namespace EvoClaw.SkillsEngine.Lock

open EventSystem

abbrev Pid := Nat

def STALE_TIMEOUT_SECS : ℚ := 5 * 60

-- What os.kill(pid, 0) does.
inductive Signal where
  | delivered
  | processLookupError
  | permissionError
  | otherOSError
deriving DecidableEq

def isProcessAlive (signal : Signal) : Bool :=
  signal = .delivered

-- The text of the lock file: a dictionary, no JSON at all (as an empty file is), or JSON of
-- another shape, on which the look-ups raise.
inductive Contents where
  | info (pid : Option Pid) (timestamp : Option ℚ)
  | notJson
  | notDict
deriving DecidableEq

-- `creator` is the process that has made the file, none for a file found at the start.
structure LockFile where
  inode : Nat
  creator : Option Pid
  contents : Contents
deriving DecidableEq

-- The next file-system operation of a process. `stamp` is the time in its lock_info.
inductive Phase where
  | idle
  | opening (stamp : ℚ)
  | writing (stamp : ℚ) (inode : Nat)
  | reading (stamp : ℚ)
  | deciding (stamp : ℚ) (existing : Contents)
  | unlinking (stamp : ℚ)
  | reopening (stamp : ℚ)
  -- acquire_lock has returned, and release has not been called
  | holding (stamp : ℚ) (inode : Nat)
  | releaseExists
  | releaseReads
  | releaseUnlinks
deriving DecidableEq

structure State where
  now : ℚ := 0
  file : Option LockFile := none
  nextInode : Nat := 0
  phase : Pid → Phase := fun _ => .idle

inductive Event where
  | tick (seconds : ℚ)
  | acquire (p : Pid)
  | release (p : Pid)
  | next (p : Pid)
deriving DecidableEq

namespace State

def set (state : State) (p : Pid) (phase : Phase) : State :=
  { state with phase := Function.update state.phase p phase }

-- os.open with O_CREAT and O_EXCL
def create (state : State) (p : Pid) (stamp : ℚ) (taken : Phase) : State :=
  match state.file with
  | some _ => state.set p taken
  | none =>
      { state.set p (.writing stamp state.nextInode) with
        file := some ⟨state.nextInode, some p, .notJson⟩
        nextInode := state.nextInode + 1 }

-- json.dump goes to the file that was opened, also when that has no name any more.
def write (state : State) (p : Pid) (stamp : ℚ) (inode : Nat) : State :=
  { state.set p (.holding stamp inode) with
    file := state.file.map fun file =>
      if file.inode = inode then { file with contents := .info (some p) (some stamp) } else file }

def unlink (state : State) (p : Pid) (after : Phase) : State :=
  { state.set p after with file := none }

end State

def isStale (now : ℚ) (timestamp : Option ℚ) : Bool :=
  STALE_TIMEOUT_SECS < now - timestamp.getD 0

-- Where acquire_lock goes on with the file that it has read: idle is a raised error.
def decision (kill : Pid → Signal) (now stamp : ℚ) : Contents → Phase
  | .notJson => .unlinking stamp
  | .notDict => .idle
  | .info pid timestamp =>
      if isStale now timestamp then .unlinking stamp
      else
        match pid, timestamp with
        -- KeyError, for the timestamp only in the text of the error
        | none, _ | some _, none => .unlinking stamp
        | some holder, some _ =>
            if isProcessAlive (kill holder) then .idle else .unlinking stamp

-- Where LockHandle.release goes on with the file that it has read.
def releaseDecision (p : Pid) : Contents → Phase
  | .notJson => .releaseUnlinks
  | .notDict => .idle
  | .info pid _ => if pid = some p then .releaseUnlinks else .idle

-- The next operation of the process. `kill p` is what os.kill does in p.
def next (kill : Pid → Pid → Signal) (state : State) (p : Pid) : Option State :=
  match state.phase p with
  | .idle | .holding .. => none
  | .opening stamp => some (state.create p stamp (.reading stamp))
  | .writing stamp inode => some (state.write p stamp inode)
  | .reading stamp =>
      match state.file with
      | none => some (state.set p (.unlinking stamp))
      | some file => some (state.set p (.deciding stamp file.contents))
  | .deciding stamp existing => some (state.set p (decision (kill p) state.now stamp existing))
  | .unlinking stamp => some (state.unlink p (.reopening stamp))
  | .reopening stamp => some (state.create p stamp .idle)
  | .releaseExists =>
      some (state.set p (if state.file.isSome then .releaseReads else .idle))
  | .releaseReads =>
      match state.file with
      | none => some (state.set p .releaseUnlinks)
      | some file => some (state.set p (releaseDecision p file.contents))
  | .releaseUnlinks => some (state.unlink p .idle)

def step (kill : Pid → Pid → Signal) (state : State) : Event → Option State
  | .tick seconds => if 0 ≤ seconds then some { state with now := state.now + seconds } else none
  | .acquire p => if state.phase p = .idle then some (state.set p (.opening state.now)) else none
  | .release p =>
      match state.phase p with
      | .holding .. => some (state.set p .releaseExists)
      | _ => none
  | .next p => next kill state p

-- The process has returned from acquire_lock and not called release.
def Phase.holds : Phase → Bool
  | .holding .. => true
  | _ => false

def Exclusive (state : State) : Prop :=
  ∀ p q, (state.phase p).holds → (state.phase q).holds → p = q

-- No holder exceeds the stale timeout.
def InTime (state : State) : Prop :=
  ∀ p stamp inode, state.phase p = .holding stamp inode → state.now - stamp ≤ STALE_TIMEOUT_SECS

-- The lock file that a process has made and not yet given up.
def Phase.inUse : Phase → Option Nat
  | .writing _ inode | .holding _ inode => some inode
  | _ => none

-- The two operations that remove the lock file, whatever it has become since it was read.
def Phase.unlinks : Phase → Bool
  | .unlinking _ | .releaseUnlinks => true
  | _ => false

-- No operation removes the file of a process that is between its create and its release.
def SparesLiveLock (state : State) : Event → Prop
  | .next p => (state.phase p).unlinks → ∀ file ∈ state.file, ∀ q ∈ file.creator,
      (state.phase q).inUse ≠ some file.inode
  | _ => True

instance (state : State) : ∀ event, Decidable (SparesLiveLock state event)
  | .next _ => inferInstanceAs (Decidable (_ → ∀ file ∈ _, ∀ q ∈ _, _))
  | .tick _ | .acquire _ | .release _ => inferInstanceAs (Decidable True)

-- Nobody holds the lock, and this is what lies at its path.
def found (contents : Option Contents) (now : ℚ) : State where
  now := now
  file := contents.map (⟨0, none, ·⟩)
  nextInode := 1

-- A lock file that is in use is the one at the path.
def Backed (state : State) : Prop :=
  ∀ p inode, (state.phase p).inUse = some inode →
    ∃ contents, state.file = some ⟨inode, some p, contents⟩

variable {kill : Pid → Pid → Signal} {state after : State} {p : Pid}

theorem Backed.exclusive (h : Backed state) : Exclusive state := by
  intro p q hp hq
  have hinUse : ∀ {phase : Phase}, phase.holds → ∃ inode, phase.inUse = some inode := by
    intro phase hholds
    cases phase with
    | holding stamp inode => exact ⟨inode, rfl⟩
    | _ => cases hholds
  obtain ⟨i, hi⟩ := hinUse hp
  obtain ⟨j, hj⟩ := hinUse hq
  obtain ⟨c, hc⟩ := h p i hi
  obtain ⟨d, hd⟩ := h q j hj
  rw [hc] at hd
  cases hd
  rfl

theorem Backed.set (h : Backed state) {phase : Phase} (hphase : phase.inUse = none) :
    Backed (state.set p phase) := by
  intro q inode hq
  by_cases he : q = p
  · subst he
    simp [State.set, hphase] at hq
  · simp only [State.set, Function.update_of_ne he] at hq
    exact h q inode hq

theorem Backed.create (h : Backed state) {stamp : ℚ} {taken : Phase}
    (htaken : taken.inUse = none) : Backed (state.create p stamp taken) := by
  unfold State.create
  split
  · exact h.set htaken
  · rename_i hfree
    intro q inode hq
    by_cases he : q = p
    · subst he
      simp only [State.set, Function.update_self, Phase.inUse, Option.some.injEq] at hq
      exact ⟨.notJson, by rw [hq]⟩
    · simp only [State.set, Function.update_of_ne he] at hq
      obtain ⟨contents, hfile⟩ := h q inode hq
      rw [hfree] at hfile
      cases hfile

theorem Backed.write (h : Backed state) {stamp : ℚ} {inode : Nat}
    (hp : state.phase p = .writing stamp inode) : Backed (state.write p stamp inode) := by
  intro q i hq
  have hold : (state.phase q).inUse = some i := by
    by_cases he : q = p
    · subst he
      simpa [State.write, State.set, hp, Phase.inUse] using hq
    · simpa [State.write, State.set, Function.update_of_ne he] using hq
  obtain ⟨contents, hfile⟩ := h q i hold
  by_cases hi : i = inode
  · exact ⟨.info (some p) (some stamp), by simp [State.write, hfile, hi]⟩
  · exact ⟨contents, by simp [State.write, hfile, hi]⟩

-- A process that unlinks a file in nobody's use takes the lock from nobody.
theorem Backed.unlink (h : Backed state) {phase : Phase} (hphase : phase.inUse = none)
    (hspares : ∀ file ∈ state.file, ∀ q ∈ file.creator, (state.phase q).inUse ≠ some file.inode) :
    Backed (state.unlink p phase) := by
  intro q inode hq
  have hq : ((state.set p phase).phase q).inUse = some inode := hq
  obtain ⟨contents, hfile⟩ := h.set hphase q inode hq
  have hfile : state.file = some ⟨inode, some q, contents⟩ := hfile
  by_cases he : q = p
  · subst he
    simp [State.set, hphase] at hq
  · simp only [State.set, Function.update_of_ne he] at hq
    exact absurd hq (hspares _ hfile q rfl)

theorem decision_inUse (signals : Pid → Signal) (now stamp : ℚ) (contents : Contents) :
    (decision signals now stamp contents).inUse = none := by
  unfold decision
  repeat' split
  all_goals rfl

theorem releaseDecision_inUse (p : Pid) (contents : Contents) :
    (releaseDecision p contents).inUse = none := by
  unfold releaseDecision
  repeat' split
  all_goals rfl

theorem Backed.next (h : Backed state) (hspares : SparesLiveLock state (.next p))
    (he : next kill state p = some after) : Backed after := by
  unfold Lock.next at he
  cases hphase : state.phase p with
  | idle => simp [hphase] at he
  | holding stamp inode => simp [hphase] at he
  | opening stamp =>
      simp only [hphase, Option.some.injEq] at he
      exact he ▸ h.create rfl
  | writing stamp inode =>
      simp only [hphase, Option.some.injEq] at he
      exact he ▸ h.write hphase
  | reading stamp =>
      simp only [hphase] at he
      split at he <;> cases he <;> exact h.set rfl
  | deciding stamp existing =>
      simp only [hphase, Option.some.injEq] at he
      exact he ▸ h.set (decision_inUse _ _ _ _)
  | unlinking stamp =>
      simp only [hphase, Option.some.injEq] at he
      exact he ▸ h.unlink rfl (hspares (by simp [hphase, Phase.unlinks]))
  | reopening stamp =>
      simp only [hphase, Option.some.injEq] at he
      exact he ▸ h.create rfl
  | releaseExists =>
      simp only [hphase, Option.some.injEq] at he
      refine he ▸ h.set ?_
      split <;> rfl
  | releaseReads =>
      simp only [hphase] at he
      split at he <;> cases he
      · exact h.set rfl
      · exact h.set (releaseDecision_inUse _ _)
  | releaseUnlinks =>
      simp only [hphase, Option.some.injEq] at he
      exact he ▸ h.unlink rfl (hspares (by simp [hphase, Phase.unlinks]))

theorem Backed.step {event : Event} (h : Backed state) (hspares : SparesLiveLock state event)
    (he : step kill state event = some after) : Backed after := by
  cases event with
  | tick seconds =>
      simp only [Lock.step] at he
      split at he <;> cases he
      exact h
  | acquire p =>
      simp only [Lock.step] at he
      split at he <;> cases he
      exact h.set rfl
  | release p =>
      simp only [Lock.step] at he
      split at he <;> cases he
      exact h.set rfl
  | next p => exact h.next hspares he

-- As long as no unlink hits a lock in use, at most one process is in the section.
theorem always_exclusive (kill : Pid → Pid → Signal) (contents : Option Contents) (now : ℚ)
    (events : List Event) (h : Along (step kill) SparesLiveLock (found contents now) events) :
    Always (step kill) Exclusive (found contents now) events :=
  h.always Backed (fun _ _ _ hinv hspares he => hinv.step hspares he) (fun _ hinv => hinv.exclusive)
    (by intro p inode hp; cases hp)

-- Process 9 has died and left its lock. Process 1 takes over, and process 2 is turned away.
def takeover : List Event :=
  [.acquire 1, .next 1, .next 1, .next 1, .next 1, .next 1, .next 1,
    .acquire 2, .next 2, .next 2, .next 2, .release 1, .next 1, .next 1, .next 1]

def onlyNineDead (_ : Pid) (target : Pid) : Signal :=
  if target = 9 then .processLookupError else .delivered

theorem takeover_exclusive :
    Always (step onlyNineDead) Exclusive (found (some (.info (some 9) (some 0))) 10) takeover :=
  always_exclusive onlyNineDead _ _ _ (by decide +kernel)

-- The time at which the pending or finished acquire_lock has begun.
def Phase.stamp : Phase → Option ℚ
  | .opening stamp | .writing stamp _ | .reading stamp | .deciding stamp _ | .unlinking stamp
  | .reopening stamp | .holding stamp _ => some stamp
  | .idle | .releaseExists | .releaseReads | .releaseUnlinks => none

-- As long as the clock stands at `now`, every attempt has begun at that time.
def Standing (now : ℚ) (state : State) : Prop :=
  state.now = now ∧ ∀ p, ∀ stamp ∈ (state.phase p).stamp, stamp = now

theorem Standing.set {now : ℚ} (h : Standing now state) {phase : Phase}
    (hphase : ∀ stamp ∈ phase.stamp, stamp = now) : Standing now (state.set p phase) := by
  refine ⟨h.1, fun q stamp hq => ?_⟩
  by_cases he : q = p
  · subst he
    exact hphase stamp (by simpa [State.set] using hq)
  · exact h.2 q stamp (by simpa [State.set, Function.update_of_ne he] using hq)

theorem Standing.create {now stamp : ℚ} (h : Standing now state) {taken : Phase}
    (hstamp : stamp = now) (htaken : ∀ stamp ∈ taken.stamp, stamp = now) :
    Standing now (state.create p stamp taken) := by
  unfold State.create
  split
  · exact h.set htaken
  · have hset : Standing now (state.set p (.writing stamp state.nextInode)) :=
      h.set (by simpa [Phase.stamp] using hstamp)
    exact ⟨hset.1, hset.2⟩

theorem decision_stamp (signals : Pid → Signal) (now stamp : ℚ) (contents : Contents) :
    ∀ s ∈ (decision signals now stamp contents).stamp, s = stamp := by
  unfold decision
  repeat' split
  all_goals simp [Phase.stamp]

theorem releaseDecision_stamp (p : Pid) (contents : Contents) :
    (releaseDecision p contents).stamp = none := by
  unfold releaseDecision
  repeat' split
  all_goals rfl

theorem Standing.next {now : ℚ} (h : Standing now state) (he : next kill state p = some after) :
    Standing now after := by
  have hstamp := h.2 p
  unfold Lock.next at he
  cases hphase : state.phase p <;>
    simp only [hphase, Phase.stamp, Option.mem_def, Option.some.injEq, forall_eq', reduceCtorEq,
      false_implies, implies_true] at he hstamp
  case opening stamp =>
    exact he ▸ h.create hstamp (by simpa [Phase.stamp] using hstamp)
  case writing stamp inode =>
    have hset : Standing now (state.set p (.holding stamp inode)) :=
      h.set (by simpa [Phase.stamp] using hstamp)
    exact he ▸ ⟨hset.1, hset.2⟩
  case reading stamp =>
    split at he <;> cases he <;> exact h.set (by simpa [Phase.stamp] using hstamp)
  case deciding stamp existing =>
    exact he ▸ h.set fun s hs => (decision_stamp _ _ _ _ s hs).trans hstamp
  case unlinking stamp =>
    have hset : Standing now (state.set p (.reopening stamp)) :=
      h.set (by simpa [Phase.stamp] using hstamp)
    exact he ▸ ⟨hset.1, hset.2⟩
  case reopening stamp => exact he ▸ h.create hstamp (by simp [Phase.stamp])
  case releaseExists =>
    refine he ▸ h.set ?_
    split <;> simp [Phase.stamp]
  case releaseReads =>
    split at he <;> cases he
    · exact h.set (by simp [Phase.stamp])
    · exact h.set (by simp [releaseDecision_stamp])
  case releaseUnlinks =>
    have hset : Standing now (state.set p .idle) := h.set (by simp [Phase.stamp])
    exact he ▸ ⟨hset.1, hset.2⟩

theorem Standing.inTime {now : ℚ} (h : Standing now state) : InTime state := by
  intro p stamp inode hp
  rw [h.1, h.2 p stamp (by simp [hp, Phase.stamp])]
  norm_num [STALE_TIMEOUT_SECS]

-- No holder is late in a run without ticks.
theorem inTime_of_standing {contents : Option Contents} {now : ℚ} {events : List Event}
    (hticks : Along (step kill) (fun _ event => ∀ s, event ≠ .tick s) (found contents now) events) :
    Always (step kill) InTime (found contents now) events := by
  refine hticks.always (Standing now) ?_ (fun _ hinv => hinv.inTime) ⟨rfl, by intro p s hs; cases hs⟩
  intro state event after hinv htick he
  cases event with
  | tick seconds => exact absurd rfl (htick seconds)
  | acquire p =>
      simp only [Lock.step] at he
      split at he <;> cases he
      exact hinv.set (by simpa [Phase.stamp] using hinv.1)
  | release p =>
      simp only [Lock.step] at he
      split at he <;> cases he
      exact hinv.set (by simp [Phase.stamp])
  | next p => exact hinv.next he

-- Process 2 reads the file of process 1 before it is written, and takes it for corrupt.
def halfWritten : List Event :=
  [.acquire 1, .next 1, .acquire 2, .next 2, .next 2, .next 2, .next 2, .next 2, .next 1, .next 2]

theorem halfWritten_two_holders :
    Always (step fun _ _ => .delivered) InTime (found none 0) halfWritten ∧
      ¬ Always (step fun _ _ => .delivered) Exclusive (found none 0) halfWritten := by
  constructor
  · apply inTime_of_standing
    simp [halfWritten, Along, step, next, found, State.create, State.set, State.write, State.unlink,
      decision]
  · intro h
    have hrun : ((run (step fun _ _ => .delivered) (found none 0) halfWritten).map fun state =>
        ((state.phase 1).holds, (state.phase 2).holds)) = some (true, true) := by decide
    obtain ⟨final, hfinal, hboth⟩ := Option.map_eq_some_iff.mp hrun
    have hone := h.reached hfinal 1 2 (by simpa using congrArg Prod.fst hboth)
      (by simpa using congrArg Prod.snd hboth)
    cases hone

end EvoClaw.SkillsEngine.Lock
