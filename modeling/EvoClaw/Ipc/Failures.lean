import EvoClaw.EventSystem.Runs
import EvoClaw.Ipc.Watcher
import EvoClaw.JsonText.Syntax

namespace EvoClaw.Ipc.Watcher

open EventSystem Posix

-- The file whose request is with the handler.
def Phase.hand : Phase → Option (Place × File Content)
  | .handling turn name file => some (turn.source name, file)
  | _ => none

-- What a step can do to the files, and the failure that it brings about.
inductive Change (runtime : Runtime) (state : State) : Option Failure → State → Prop where
  | write (group : Folder) (sub : Sub) (name : Name) (content : Content) :
      Change runtime state none
        { state with spool := state.spool.write ⟨.requests group sub, name⟩ content }
  | unlink (group : Folder) (sub : Sub) (name : Name) :
      Change runtime state none
        { state with spool := state.spool.unlink ⟨.requests group sub, name⟩ }
  | move (phase : Phase) (hbefore : state.phase.hand = none) (hafter : phase.hand = none) :
      Change runtime state none { state with phase := phase }
  | discard (turn : Turn) (name : Name) (hbefore : state.phase.hand = none) :
      Change runtime state none ⟨state.spool.unlink (turn.source name), .taking turn⟩
  | dispatch (turn : Turn) (name : Name) (file : File Content) (payload : Json)
      (hbefore : state.phase.hand = none)
      (hfile : state.spool.disk.Holds (turn.source name) file) :
      Change runtime state none ⟨state.spool.dispatch file payload, .handling turn name file⟩
  | succeed (turn : Turn) (name : Name) (file : File Content)
      (hbefore : state.phase = .handling turn name file) :
      Change runtime state none ⟨state.spool.succeed (turn.source name) file, .taking turn⟩
  | fail (turn : Turn) (name : Name) (failure : Failure) (now : Nat) (alert : Option Alert)
      (hsource : failure.source = turn.source name) (hdest : failure.dest.dir.IsErrors)
      (hfile : state.phase = .handling turn name failure.file ∨
        state.phase.hand = none ∧ state.spool.disk.Holds failure.source failure.file) :
      Change runtime state (some failure)
        ⟨(state.spool.setAside runtime.nameMax failure).notify now alert, .taking turn⟩

variable {runtime : Runtime} {state next : State} {event : Event} {spool : Spool} {phase : Phase}
  {place : Place} {file found : File Content} {failure : Failure} {payload : Json}
  {now : Nat} {alert : Option Alert} {turn : Turn} {name : Name} {group : Folder} {sub : Sub}

section Steps

theorem take_change {names : List Name} {subs : List Sub}
    (hphase : state.phase = .taking ⟨group, sub, name :: names, subs⟩) :
    Change runtime state (state.failure runtime (.advance now alert))
      (take runtime state.spool ⟨group, sub, names, subs⟩ name now alert) := by
  have hhand : state.phase.hand = none := by rw [hphase]; rfl
  simp only [take, State.failure, hphase, Turn.source]
  cases hfile : state.spool.disk.lookup ⟨.requests group sub, name⟩ with
  | none => exact .move _ hhand rfl
  | some file =>
      simp only [Option.bind_some]
      cases runtime.read file.content with
      | blank => exact .discard ⟨group, sub, names, subs⟩ name hhand
      | malformed =>
          exact .fail ⟨group, sub, names, subs⟩ name _ now none rfl trivial (.inr ⟨hhand, hfile⟩)
      | unreadable =>
          exact .fail ⟨group, sub, names, subs⟩ name _ now alert rfl trivial (.inr ⟨hhand, hfile⟩)
      | request payload =>
          exact .dispatch ⟨group, sub, names, subs⟩ name file payload hhand hfile

theorem advance_change (h : advance runtime state now alert = some next) :
    Change runtime state (state.failure runtime (.advance now alert)) next := by
  cases hphase : state.phase with
  | idle => simp [advance, hphase] at h
  | listing group subs =>
      have hhand : state.phase.hand = none := by rw [hphase]; rfl
      have hfailure : state.failure runtime (.advance now alert) = none := by
        simp [State.failure, hphase]
      rw [hfailure]
      cases subs with
      | nil =>
          simp only [advance, hphase] at h
          cases h
          exact .move _ hhand rfl
      | cons sub subs =>
          simp only [advance, hphase] at h
          cases h
          exact .move _ hhand rfl
  | taking turn =>
      obtain ⟨group, sub, names, subs⟩ := turn
      cases names with
      | nil =>
          have hhand : state.phase.hand = none := by rw [hphase]; rfl
          have hfailure : state.failure runtime (.advance now alert) = none := by
            simp [State.failure, hphase]
          rw [hfailure]
          simp only [advance, hphase] at h
          cases h
          exact .move _ hhand rfl
      | cons name names =>
          simp only [advance, hphase] at h
          cases h
          exact take_change hphase
  | handling _ _ _ => simp [advance, hphase] at h

theorem step_change (h : step runtime state event = some next) :
    Change runtime state (state.failure runtime event) next := by
  cases event with
  | write group sub name content =>
      simp only [step, Option.ite_none_right_eq_some] at h
      obtain ⟨-, h⟩ := h
      cases h
      exact .write group sub name content
  | remove group sub name =>
      cases h
      exact .unlink group sub name
  | scan group =>
      cases hphase : state.phase with
      | idle =>
          simp only [step, hphase] at h
          cases h
          exact .move _ (by rw [hphase]; rfl) rfl
      | listing _ _ => simp [step, hphase] at h
      | taking _ => simp [step, hphase] at h
      | handling _ _ _ => simp [step, hphase] at h
  | advance now alert => exact advance_change h
  | returns =>
      cases hphase : state.phase with
      | idle => simp [step, hphase] at h
      | listing _ _ => simp [step, hphase] at h
      | taking _ => simp [step, hphase] at h
      | handling turn name file =>
          simp only [step, hphase] at h
          cases h
          exact .succeed turn name file hphase
  | raises now alert =>
      cases hphase : state.phase with
      | idle => simp [step, hphase] at h
      | listing _ _ => simp [step, hphase] at h
      | taking _ => simp [step, hphase] at h
      | handling turn name file =>
          simp only [step, hphase] at h
          cases h
          simp only [State.failure, hphase]
          exact .fail turn name _ now alert rfl trivial (.inl hphase)

end Steps

section SetAside

variable {nameMax : Nat}

theorem holds_setAside (h : (spool.setAside nameMax failure).disk.Holds place file) :
    place ≠ failure.source ∧ spool.disk.Holds place file ∨
      place = failure.dest ∧ spool.disk.Holds failure.source file ∧
        byteLength failure.dest.name ≤ nameMax := by
  simp only [Spool.setAside] at h
  split_ifs at h with hfits
  · rcases h.of_rename with h | ⟨hplace, h⟩
    · exact .inl h
    · exact .inr ⟨hplace, h, hfits⟩
  · exact .inl (Disk.holds_erase.mp h)

theorem within_setAside : Disk.Within (spool.setAside nameMax failure).disk spool.disk := by
  simp only [Spool.setAside]
  split_ifs
  · exact Disk.within_rename
  · exact Disk.within_erase

theorem distinct_setAside (h : spool.disk.Distinct) :
    (spool.setAside nameMax failure).disk.Distinct := by
  simp only [Spool.setAside]
  split_ifs
  · exact h.rename
  · exact h.erase

theorem free_setAside (h : failure.source ≠ failure.dest) :
    (spool.setAside nameMax failure).disk.Free failure.source := by
  simp only [Spool.setAside]
  split_ifs
  · exact Disk.free_rename h
  · exact Disk.free_erase

end SetAside

theorem requests_not_errors : ¬ (Dir.requests group sub).IsErrors := fun h => h

theorem source_not_errors : ¬ (turn.source name).dir.IsErrors :=
  requests_not_errors

-- What holds of the files in every run, whatever fails.
structure WellFormed (state : State) : Prop where
  distinct : state.spool.disk.Distinct
  below : state.spool.disk.Below state.spool.written
  dispatched_lt : ∀ id ∈ state.spool.dispatched.map Prod.fst, id < state.spool.written
  succeeded_lt : ∀ id ∈ state.spool.succeeded, id < state.spool.written
  failed_lt : ∀ file ∈ state.spool.failed, file.id < state.spool.written
  dispatchedOnce : state.spool.DispatchedOnce
  succeededDeleted : state.spool.SucceededDeleted
  -- of the files that wait, only the one with the handler has been dispatched
  waiting : ∀ place file, ¬ place.dir.IsErrors → state.spool.disk.Holds place file →
    file.id ∈ state.spool.dispatched.map Prod.fst → state.phase.hand = some (place, file)
  hand_dispatched : ∀ place file, state.phase.hand = some (place, file) →
    file.id ∈ state.spool.dispatched.map Prod.fst
  hand_only : ∀ place file, state.phase.hand = some (place, file) →
    ∀ other found, state.spool.disk.Holds other found → found.id = file.id →
      other = place ∧ found = file

namespace WellFormed

theorem initial : WellFormed {} where
  distinct _ _ _ _ h := absurd h Disk.not_holds_empty
  below _ _ h := absurd h Disk.not_holds_empty
  dispatched_lt := by simp
  succeeded_lt := by simp
  failed_lt := by simp
  dispatchedOnce := List.nodup_nil
  succeededDeleted := by simp [Spool.SucceededDeleted]
  waiting _ _ _ h := absurd h Disk.not_holds_empty
  hand_dispatched := by simp [Phase.hand]
  hand_only := by simp [Phase.hand]

theorem write (h : WellFormed state) (content : Content) :
    WellFormed { state with spool := state.spool.write place content } where
  distinct := h.distinct.insert (h.below.absent le_rfl)
  below := (h.below.mono (Nat.le_succ _)).insert (Nat.lt_succ_self _)
  dispatched_lt id hid := Nat.lt_succ_of_lt (h.dispatched_lt id hid)
  succeeded_lt id hid := Nat.lt_succ_of_lt (h.succeeded_lt id hid)
  failed_lt file hfile := Nat.lt_succ_of_lt (h.failed_lt file hfile)
  dispatchedOnce := h.dispatchedOnce
  succeededDeleted id hid := (h.succeededDeleted id hid).insert (h.succeeded_lt id hid).ne'
  waiting other file hother hfile hid := by
    rcases Disk.holds_insert.mp hfile with ⟨rfl, rfl⟩ | ⟨-, hfile⟩
    · exact absurd (h.dispatched_lt _ hid) (lt_irrefl _)
    · exact h.waiting other file hother hfile hid
  hand_dispatched := h.hand_dispatched
  hand_only hand file hhand other found hfound hid := by
    rcases Disk.holds_insert.mp hfound with ⟨rfl, rfl⟩ | ⟨-, hfound⟩
    · have hlt := h.dispatched_lt _ (h.hand_dispatched hand file hhand)
      rw [← hid] at hlt
      exact absurd hlt (lt_irrefl _)
    · exact h.hand_only hand file hhand other found hfound hid

theorem notify (h : WellFormed ⟨spool, phase⟩) (now : Nat) (alert : Option Alert) :
    WellFormed ⟨spool.notify now alert, phase⟩ := by
  cases alert with
  | none => exact h
  | some alert => exact h.write alert.content

theorem move (h : WellFormed state) (hhand : phase.hand = state.phase.hand) :
    WellFormed { state with phase := phase } where
  distinct := h.distinct
  below := h.below
  dispatched_lt := h.dispatched_lt
  succeeded_lt := h.succeeded_lt
  failed_lt := h.failed_lt
  dispatchedOnce := h.dispatchedOnce
  succeededDeleted := h.succeededDeleted
  waiting := by rw [hhand]; exact h.waiting
  hand_dispatched := by rw [hhand]; exact h.hand_dispatched
  hand_only := by rw [hhand]; exact h.hand_only

theorem unlink (h : WellFormed state) :
    WellFormed { state with spool := state.spool.unlink place } where
  distinct := h.distinct.erase
  below := Disk.within_erase.below h.below
  dispatched_lt := h.dispatched_lt
  succeeded_lt := h.succeeded_lt
  failed_lt := h.failed_lt
  dispatchedOnce := h.dispatchedOnce
  succeededDeleted id hid := Disk.within_erase.absent (h.succeededDeleted id hid)
  waiting other file hother hfile := h.waiting other file hother (Disk.holds_erase.mp hfile).2
  hand_dispatched := h.hand_dispatched
  hand_only hand file hhand other found hfound :=
    h.hand_only hand file hhand other found (Disk.holds_erase.mp hfound).2

-- The request that was with the handler leaves its place.
theorem release (h : WellFormed state) (hhand : phase.hand = none) {disk : Disk Place Content}
    (hdistinct : disk.Distinct) (hwithin : disk.Within state.spool.disk)
    (hwaiting : ∀ place file, ¬ place.dir.IsErrors → disk.Holds place file →
      state.spool.disk.Holds place file)
    (hfree : ∀ place file, state.phase.hand = some (place, file) → disk.Free place) :
    WellFormed ⟨{ state.spool with disk := disk }, phase⟩ where
  distinct := hdistinct
  below := hwithin.below h.below
  dispatched_lt := h.dispatched_lt
  succeeded_lt := h.succeeded_lt
  failed_lt := h.failed_lt
  dispatchedOnce := h.dispatchedOnce
  succeededDeleted id hid := hwithin.absent (h.succeededDeleted id hid)
  waiting place file hplace hfile hid := by
    have hbefore := h.waiting place file hplace (hwaiting place file hplace hfile) hid
    exact absurd (hfree place file hbefore) hfile.not_free
  hand_dispatched place file heq := by
    rw [hhand] at heq
    cases heq
  hand_only place file heq := by
    rw [hhand] at heq
    cases heq

theorem failed (h : WellFormed ⟨spool, phase⟩) (hid : file.id < spool.written) :
    WellFormed ⟨{ spool with failed := spool.failed ++ [file] }, phase⟩ :=
  { h with
    failed_lt := by
      intro found hfound
      rcases List.mem_append.mp hfound with hfound | hfound
      · exact h.failed_lt found hfound
      · rw [List.mem_singleton.mp hfound]
        exact hid }

theorem succeeded (h : WellFormed ⟨spool, phase⟩) {id : Nat} (hid : id < spool.written)
    (habsent : spool.disk.Absent id) :
    WellFormed ⟨{ spool with succeeded := spool.succeeded ++ [id] }, phase⟩ :=
  { h with
    succeeded_lt := by
      intro other hother
      rcases List.mem_append.mp hother with hother | hother
      · exact h.succeeded_lt other hother
      · rw [List.mem_singleton.mp hother]
        exact hid
    succeededDeleted := by
      intro other hother
      rcases List.mem_append.mp hother with hother | hother
      · exact h.succeededDeleted other hother
      · rw [List.mem_singleton.mp hother]
        exact habsent }

theorem dispatch (h : WellFormed state) (hhand : state.phase.hand = none)
    (hfile : state.spool.disk.Holds (turn.source name) file) :
    WellFormed ⟨state.spool.dispatch file payload, .handling turn name file⟩ := by
  have hnew (place : Place) (found : File Content) (hplace : ¬ place.dir.IsErrors)
      (hfound : state.spool.disk.Holds place found) :
      found.id ∉ state.spool.dispatched.map Prod.fst := by
    intro hid
    have hbefore := h.waiting place found hplace hfound hid
    rw [hhand] at hbefore
    cases hbefore
  have honly (place : Place) (found : File Content) (hfound : state.spool.disk.Holds place found)
      (hid : found.id = file.id) : place = turn.source name ∧ found = file := by
    obtain rfl := h.distinct place _ found file hfound hfile hid
    exact ⟨rfl, hfound.eq hfile⟩
  have hids : (state.spool.dispatch file payload).dispatched.map Prod.fst =
      state.spool.dispatched.map Prod.fst ++ [file.id] := by
    simp [Spool.dispatch]
  refine ⟨h.distinct, h.below, ?_, h.succeeded_lt, h.failed_lt, ?_, h.succeededDeleted, ?_, ?_, ?_⟩
  · intro id hid
    rw [hids, List.mem_append, List.mem_singleton] at hid
    rcases hid with hid | rfl
    · exact h.dispatched_lt id hid
    · exact h.below _ file hfile
  · unfold Spool.DispatchedOnce
    rw [hids, ← List.concat_eq_append]
    exact List.Nodup.concat (hnew _ file source_not_errors hfile) h.dispatchedOnce
  · intro place found hplace hfound hid
    rw [hids, List.mem_append, List.mem_singleton] at hid
    rcases hid with hid | hid
    · exact absurd hid (hnew place found hplace hfound)
    · obtain ⟨rfl, rfl⟩ := honly place found hfound hid
      rfl
  · intro place found heq
    cases heq
    rw [hids]
    simp
  · intro place found heq
    cases heq
    exact honly

theorem setAside (h : WellFormed state) (hsource : failure.source = turn.source name)
    (hdest : failure.dest.dir.IsErrors)
    (hfile : state.phase = .handling turn name failure.file ∨
      state.phase.hand = none ∧ state.spool.disk.Holds failure.source failure.file) :
    WellFormed ⟨state.spool.setAside runtime.nameMax failure, .taking turn⟩ := by
  have hne : failure.source ≠ failure.dest := by
    intro heq
    rw [← heq, hsource] at hdest
    exact source_not_errors hdest
  have hid : failure.file.id < state.spool.written := by
    rcases hfile with hphase | ⟨-, hholds⟩
    · exact h.dispatched_lt _ (h.hand_dispatched _ failure.file (by rw [hphase]; rfl))
    · exact h.below _ _ hholds
  have hrelease : WellFormed ⟨{ state.spool with
      disk := (state.spool.setAside runtime.nameMax failure).disk }, .taking turn⟩ := by
    refine h.release rfl (distinct_setAside h.distinct) within_setAside ?_ ?_
    · intro place file hplace hholds
      rcases holds_setAside hholds with ⟨-, hholds⟩ | ⟨rfl, -⟩
      · exact hholds
      · exact absurd hdest hplace
    · intro place file hhand
      rcases hfile with hphase | ⟨hnone, -⟩
      · rw [hphase] at hhand
        cases hhand
        rw [← hsource]
        exact free_setAside hne
      · rw [hnone] at hhand
        cases hhand
  exact hrelease.failed hid

theorem succeed (h : WellFormed state) (hphase : state.phase = .handling turn name file) :
    WellFormed ⟨state.spool.succeed (turn.source name) file, .taking turn⟩ := by
  have hhand : state.phase.hand = some (turn.source name, file) := by rw [hphase]; rfl
  have hrelease : WellFormed ⟨state.spool.unlink (turn.source name), .taking turn⟩ := by
    refine h.release rfl h.distinct.erase Disk.within_erase ?_ ?_
    · intro place found _ hfound
      exact (Disk.holds_erase.mp hfound).2
    · intro place found heq
      rw [hhand] at heq
      cases heq
      exact Disk.free_erase
  refine hrelease.succeeded (h.dispatched_lt _ (h.hand_dispatched _ _ hhand)) ?_
  exact Disk.absent_erase fun place found hfound hid =>
    (h.hand_only _ _ hhand place found hfound hid).1

theorem change {failing : Option Failure} (h : WellFormed state)
    (hchange : Change runtime state failing next) : WellFormed next := by
  cases hchange with
  | write _ _ _ content => exact h.write content
  | unlink => exact h.unlink
  | move _ hbefore hafter => exact h.move (hafter.trans hbefore.symm)
  | discard turn _ hbefore => exact h.unlink.move hbefore.symm
  | dispatch _ _ _ _ hbefore hfile => exact h.dispatch hbefore hfile
  | succeed _ _ _ hbefore => exact h.succeed hbefore
  | fail _ _ _ now alert hsource hdest hfile =>
      exact (h.setAside hsource hdest hfile).notify now alert

theorem step (h : WellFormed state) (hstep : step runtime state event = some next) :
    WellFormed next :=
  h.change (step_change hstep)

end WellFormed

-- Whatever fails, no request is dispatched twice, and what has succeeded is gone.
theorem always_dispatchedOnce (runtime : Runtime) (events : List Event) :
    Always (step runtime)
      (fun state => state.spool.DispatchedOnce ∧ state.spool.SucceededDeleted) {} events := by
  have hguard : Along (step runtime) (fun _ _ => True) {} events :=
    along_of_forall (fun _ _ => trivial) _ _
  exact hguard.always WellFormed (fun _ _ _ h _ hstep => h.step hstep)
    (fun _ h => ⟨h.dispatchedOnce, h.succeededDeleted⟩) WellFormed.initial

section Kept

-- The errors folders hold the files that failed and nothing else.
structure Ledger (spool : Spool) : Prop where
  kept : spool.FailedKept
  only : ∀ place file, place.dir.IsErrors → spool.disk.Holds place file → file ∈ spool.failed

namespace Ledger

variable {after : Spool}

theorem frame (h : Ledger spool) (hfailed : after.failed = spool.failed)
    (hsame : ∀ place file, place.dir.IsErrors →
      (after.disk.Holds place file ↔ spool.disk.Holds place file)) : Ledger after where
  kept file hfile := by
    rw [hfailed] at hfile
    obtain ⟨place, hplace, hholds⟩ := h.kept file hfile
    exact ⟨place, hplace, (hsame place file hplace).mpr hholds⟩
  only place file hplace hholds := by
    rw [hfailed]
    exact h.only place file hplace ((hsame place file hplace).mp hholds)

theorem ne_of_isErrors {other : Place} (hplace : place.dir.IsErrors)
    (hother : ¬ other.dir.IsErrors) : place ≠ other := by
  rintro rfl
  exact hother hplace

theorem write (h : Ledger spool) (hplace : ¬ place.dir.IsErrors) (content : Content) :
    Ledger (spool.write place content) := by
  refine h.frame rfl fun other file hother => ?_
  have hne := ne_of_isErrors hother hplace
  simp [Spool.write, hne]

theorem notify (h : Ledger spool) (now : Nat) (alert : Option Alert) :
    Ledger (spool.notify now alert) := by
  cases alert with
  | none => exact h
  | some alert => exact h.write requests_not_errors alert.content

theorem unlink (h : Ledger spool) (hplace : ¬ place.dir.IsErrors) :
    Ledger (spool.unlink place) := by
  refine h.frame rfl fun other file hother => ?_
  have hne := ne_of_isErrors hother hplace
  simp [Spool.unlink, hne]

theorem setAside (h : Ledger spool) (hsource : ¬ failure.source.dir.IsErrors)
    (hdest : failure.dest.dir.IsErrors) (hkeeps : failure.Keeps runtime spool.disk) :
    Ledger (spool.setAside runtime.nameMax failure) := by
  have hdisk : (spool.setAside runtime.nameMax failure).disk =
      spool.disk.rename failure.source failure.dest := if_pos hkeeps.fits
  have hnew : (spool.setAside runtime.nameMax failure).disk.Holds failure.dest failure.file := by
    rw [hdisk]
    exact Disk.holds_rename hkeeps.holds
  refine ⟨fun file hfile => ?_, fun place file hplace hholds => ?_⟩
  · rcases List.mem_append.mp hfile with hfile | hfile
    · obtain ⟨place, hplace, hholds⟩ := h.kept file hfile
      have hfree : place ≠ failure.dest := by
        rintro rfl
        exact hholds.not_free hkeeps.free
      refine ⟨place, hplace, ?_⟩
      rw [hdisk, Disk.holds_rename_of_ne (ne_of_isErrors hplace hsource) hfree]
      exact hholds
    · rw [List.mem_singleton.mp hfile]
      exact ⟨_, hdest, hnew⟩
  · rcases holds_setAside hholds with ⟨-, hold⟩ | ⟨rfl, -⟩
    · exact List.mem_append_left _ (h.only place file hplace hold)
    · rw [hholds.eq hnew]
      simp [Spool.setAside]

theorem change {failing : Option Failure} (h : Ledger state.spool)
    (hchange : Change runtime state failing next)
    (hkeeps : ∀ failure ∈ failing, failure.Keeps runtime state.spool.disk) :
    Ledger next.spool := by
  cases hchange with
  | write _ _ _ content => exact h.write requests_not_errors content
  | unlink => exact h.unlink requests_not_errors
  | move => exact h
  | discard => exact h.unlink source_not_errors
  | dispatch => exact h.frame rfl fun _ _ _ => Iff.rfl
  | succeed => exact (h.unlink source_not_errors).frame rfl fun _ _ _ => Iff.rfl
  | fail _ _ failure now alert hsource hdest _ =>
      have hrequests : ¬ failure.source.dir.IsErrors := by
        rw [hsource]
        exact source_not_errors
      exact (h.setAside hrequests hdest (hkeeps failure rfl)).notify now alert

end Ledger

theorem failedKept_of_notify (h : (spool.notify now alert).FailedKept) : spool.FailedKept := by
  cases alert with
  | none => exact h
  | some alert =>
      intro file hfile
      obtain ⟨place, hplace, hholds⟩ := h file hfile
      rcases Disk.holds_insert.mp hholds with ⟨rfl, -⟩ | ⟨-, hholds⟩
      · exact absurd hplace requests_not_errors
      · exact ⟨place, hplace, hholds⟩

theorem WellFormed.only_source (h : WellFormed state) (hsource : failure.source = turn.source name)
    (hfile : state.phase = .handling turn name failure.file ∨
      state.phase.hand = none ∧ state.spool.disk.Holds failure.source failure.file)
    (hholds : state.spool.disk.Holds place found) (hid : found.id = failure.file.id) :
    place = failure.source ∧ found = failure.file := by
  rcases hfile with hphase | ⟨-, hread⟩
  · rw [hsource]
    exact h.hand_only _ _ (by rw [hphase]; rfl) place found hholds hid
  · obtain rfl := h.distinct place _ found _ hholds hread hid
    exact ⟨rfl, hholds.eq hread⟩

-- Where a failed file is not kept, it is lost, or the one that its name belonged to is.
theorem keeps_of_failedKept (h : WellFormed state) (hledger : Ledger state.spool)
    (hsource : failure.source = turn.source name) (hdest : failure.dest.dir.IsErrors)
    (hfile : state.phase = .handling turn name failure.file ∨
      state.phase.hand = none ∧ state.spool.disk.Holds failure.source failure.file)
    (hkept : (state.spool.setAside runtime.nameMax failure).FailedKept) :
    failure.Keeps runtime state.spool.disk := by
  have hne : failure.dest ≠ failure.source := by
    rw [hsource]
    exact Ledger.ne_of_isErrors hdest source_not_errors
  have hnow : state.spool.disk.Holds failure.source failure.file ∧
      byteLength failure.dest.name ≤ runtime.nameMax := by
    obtain ⟨place, -, hholds⟩ := hkept failure.file (by simp [Spool.setAside])
    rcases holds_setAside hholds with ⟨hother, hholds⟩ | ⟨-, hholds, hfits⟩
    · exact absurd (h.only_source hsource hfile hholds rfl).1 hother
    · exact ⟨hholds, hfits⟩
  refine ⟨hnow.1, ?_, hnow.2⟩
  rcases state.spool.disk.free_or_holds failure.dest with hfree | ⟨found, hfound⟩
  · exact hfree
  -- the file that stands at the destination failed before, and it has nowhere else to be
  · exfalso
    have hbefore := hledger.only _ found hdest hfound
    obtain ⟨place, -, hholds⟩ := hkept found (List.mem_append_left _ hbefore)
    rcases holds_setAside hholds with ⟨-, hold⟩ | ⟨-, hold, -⟩
    · obtain rfl := h.distinct place _ found _ hold hfound rfl
      have hdisk : (state.spool.setAside runtime.nameMax failure).disk =
          state.spool.disk.rename failure.source failure.dest := if_pos hnow.2
      rw [hdisk] at hholds
      have heq := hholds.eq (Disk.holds_rename hnow.1)
      exact hne (h.only_source hsource hfile hfound (by rw [heq])).1
    · exact hne (h.distinct _ _ found found hfound hold rfl)

theorem keeps_of_change {failing : Option Failure} (h : WellFormed state)
    (hledger : Ledger state.spool) (hchange : Change runtime state failing next)
    (hkept : next.spool.FailedKept) :
    ∀ failure ∈ failing, failure.Keeps runtime state.spool.disk := by
  intro failure hfailure
  cases hchange with
  | fail turn name _ now alert hsource hdest hfile =>
      cases hfailure
      exact keeps_of_failedKept h hledger hsource hdest hfile (failedKept_of_notify hkept)
  | _ => cases hfailure

end Kept

-- Every file is accounted for in every state of a run exactly when each file that fails is
-- still in its place then and goes to a name that is free and not too long.
theorem always_accounted_iff (runtime : Runtime) (events : List Event) :
    Always (step runtime) Accounted {} events ↔
      Along (step runtime) (KeepsFailures runtime) {} events := by
  refine always_iff_along (fun state => WellFormed state ∧ Ledger state.spool) ?_ ?_ ?_
    ⟨WellFormed.initial, ?_⟩
  · rintro state event next ⟨h, hledger⟩ hkeeps hstep
    exact ⟨h.step hstep, hledger.change (step_change hstep) hkeeps⟩
  · rintro state ⟨h, hledger⟩
    exact ⟨h.dispatchedOnce, h.succeededDeleted, hledger.kept⟩
  · rintro state event next ⟨h, hledger⟩ hstep hnext
    exact keeps_of_change h hledger (step_change hstep) hnext.failedKept
  · exact ⟨by simp [Spool.FailedKept], fun _ _ _ hholds => absurd hholds Disk.not_holds_empty⟩

section Collision

def ascii (text : String) : Content :=
  text.toList.map fun c => UInt8.ofNat c.toNat

-- Reads files of ASCII characters without floats.
def asciiRuntime : Runtime where
  decode content := some (content.map fun byte => Char.ofNat byte.toNat)
  loads text :=
    match JsonText.loads (fun _ => 0) text with
    | some payload => .ok payload
    | none => .error .jsonDecodeError

-- A pass over a group with one message, whose handling raises.
def failingPass (group : Folder) : List Event :=
  [.scan group, .advance 0 none, .advance 0 none, .raises 0 none, .advance 0 none, .advance 0 none,
    .advance 0 none, .advance 0 none]

-- Two groups that may do neither write files of the same name.
def collision : List Event :=
  [.write "a" .messages "1.json".toList (ascii "\x7b\"type\": \"reset_group\"\x7d"),
    .write "b" .messages "1.json".toList (ascii "\x7b\"type\": \"apply_skill\"\x7d")] ++
    failingPass "a" ++ failingPass "b"

theorem same_name_loses_failed_file : ¬ Always (step asciiRuntime) Accounted {} collision := by
  intro h
  have hends : (run (step asciiRuntime) {} collision).isSome := by decide +kernel
  obtain ⟨final, hfinal⟩ := Option.isSome_iff_exists.mp hends
  have hlost : ((run (step asciiRuntime) {} collision).all fun state =>
      state.spool.failed.any fun file =>
        state.spool.disk.entries.all fun entry => entry.2 ≠ file) = true := by
    decide +kernel
  rw [hfinal, Option.all_some, List.any_eq_true] at hlost
  obtain ⟨file, hfile, hlost⟩ := hlost
  obtain ⟨place, -, hholds⟩ := (h.reached hfinal).failedKept file hfile
  have hentry := List.all_eq_true.mp hlost ⟨place, file⟩ (AList.mem_lookup_iff.mp hholds)
  simp at hentry

end Collision

end EvoClaw.Ipc.Watcher
