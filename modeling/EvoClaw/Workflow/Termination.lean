import EvoClaw.Workflow.Blocking
import Mathlib.Algebra.BigOperators.Group.List.Basic
import Mathlib.Algebra.Order.Ring.Nat

namespace EvoClaw.Workflow

open EventSystem WorkflowRun

variable {V : Type} {objects : Objects V} {dag : WorkflowDAG} {run next : WorkflowRun V}

-- The calls that a step can take.
def calls (dag : WorkflowDAG) (name : String) : Nat :=
  (dag.retries name + 1).toNat

def RunStatus.left : RunStatus → Nat
  | .running => 1
  | .pending | .success | .failed => 0

-- What is left to do at most.
def work (dag : WorkflowDAG) (run : WorkflowRun V) : Nat :=
  run.status.left +
    (run.remaining.map fun name => calls dag name + 1).sum +
    (run.running.map fun entry => calls dag entry.1 - entry.2).sum

-- The loop goes on as long as there is something to go on with.
structure Live (dag : WorkflowDAG) (run : WorkflowRun V) : Prop where
  ended : run.status ≠ .running → run.running = []
  going : run.status = .running → run.raised = false → run.running = [] → run.remaining ≠ []
  bounded : ∀ entry ∈ run.running, (entry.2 : Int) ≤ dag.retries entry.1

section Sums

variable {α : Type} (f : α → Nat) {p q : α → Bool}

theorem sum_filter_le (l : List α) : ((l.filter p).map f).sum ≤ (l.map f).sum := by
  induction l with
  | nil => exact Nat.le_refl _
  | cons a l ih =>
      simp only [List.filter_cons]
      split <;> simp only [List.map_cons, List.sum_cons] <;> omega

theorem sum_filter_lt {l : List α} {a : α} (ha : a ∈ l) (hp : p a = false) (hf : 0 < f a) :
    ((l.filter p).map f).sum < (l.map f).sum := by
  induction l with
  | nil => cases ha
  | cons b l ih =>
      rcases List.mem_cons.mp ha with rfl | ha
      · have hle := sum_filter_le f (p := p) l
        simp only [List.filter_cons, hp, List.map_cons, List.sum_cons]
        simp only [Bool.false_eq_true, if_false]
        omega
      · have hlt := ih ha
        simp only [List.filter_cons]
        split <;> simp only [List.map_cons, List.sum_cons] <;> omega

theorem sum_filter_add_le (l : List α) (hpq : ∀ a ∈ l, p a = true → q a = true → False) :
    ((l.filter p).map f).sum + ((l.filter q).map f).sum ≤ (l.map f).sum := by
  induction l with
  | nil => exact Nat.le_refl _
  | cons a l ih =>
      have hle := ih fun b hb => hpq b (List.mem_cons_of_mem a hb)
      have ha := hpq a List.mem_cons_self
      simp only [List.filter_cons]
      cases hp : p a with
      | true =>
          have hq : q a = false := Bool.eq_false_iff.mpr fun h => ha hp h
          simp only [hq, if_true, Bool.false_eq_true, if_false, List.map_cons, List.sum_cons]
          omega
      | false =>
          simp only [Bool.false_eq_true, if_false]
          split <;> simp only [List.map_cons, List.sum_cons] <;> omega

theorem sum_map_lt {g : α → α} {l : List α} {a : α} (ha : a ∈ l) (hg : ∀ b, f (g b) ≤ f b)
    (hlt : f (g a) < f a) : ((l.map g).map f).sum < (l.map f).sum := by
  have hall (l : List α) : ((l.map g).map f).sum ≤ (l.map f).sum := by
    induction l with
    | nil => exact Nat.le_refl _
    | cons b l ih =>
        have hb := hg b
        simp only [List.map_cons, List.sum_cons]
        omega
  induction l with
  | nil => cases ha
  | cons b l ih =>
      have hb := hg b
      simp only [List.map_cons, List.sum_cons]
      rcases List.mem_cons.mp ha with rfl | ha
      · have hle := hall l
        omega
      · have hlt := ih ha
        omega

end Sums

theorem finish_status : (run.finish dag).status ≠ .running := by
  simp only [finish]
  split <;> intro h <;> cases h

theorem work_finish : work dag (run.finish dag) =
    (run.remaining.map fun name => calls dag name + 1).sum +
      (run.running.map fun entry => calls dag entry.1 - entry.2).sum := by
  have hstatus : (run.finish dag).status.left = 0 := by
    simp only [finish]
    split <;> rfl
  rw [work, hstatus, Nat.zero_add]
  rfl

theorem work_closeRound_le : work dag (run.closeRound dag) ≤ work dag run := by
  simp only [closeRound]
  split
  · split
    · rw [work_finish]
      simp only [work]
      omega
    · exact Nat.le_refl _
  · exact Nat.le_refl _

theorem Live.closeRound (hended : run.status ≠ .running → run.running = [])
    (hbounded : ∀ entry ∈ run.running, (entry.2 : Int) ≤ dag.retries entry.1) :
    Live dag (run.closeRound dag) := by
  simp only [WorkflowRun.closeRound]
  split
  · rename_i hopen
    split
    · exact ⟨fun _ => hopen.2, fun hstatus => absurd hstatus finish_status, hbounded⟩
    · rename_i hremaining
      exact ⟨hended, fun _ _ _ => hremaining, hbounded⟩
  · rename_i hbusy
    exact ⟨hended, fun _ hraised hrunning => absurd ⟨hraised, hrunning⟩ hbusy, hbounded⟩

theorem live_initial (context : String → Option V) : Live dag (initial dag context) :=
  Live.closeRound (fun h => absurd rfl h) fun _ h => by cases h

theorem calls_pos {name : String} {attempt : Nat} (h : (attempt : Int) ≤ dag.retries name) :
    attempt < calls dag name := by
  simp only [calls]
  omega

theorem live_schedule {order uncopied : List String} (hrunning : run.running = [])
    (hstatus : run.status = .running) : Live dag (run.schedule dag order uncopied) := by
  simp only [WorkflowRun.schedule]
  split
  · exact ⟨fun _ => hrunning, fun hstatus => absurd hstatus finish_status,
      by simp [finish, hrunning]⟩
  · refine Live.closeRound (fun h => absurd hstatus h) fun entry hentry => ?_
    obtain ⟨name, hname, rfl⟩ := List.mem_map.mp hentry
    exact (of_decide_eq_true (List.mem_filter.mp hname).2).1

theorem work_schedule_lt {order uncopied : List String} (hrunning : run.running = [])
    (hstatus : run.status = .running) : work dag (run.schedule dag order uncopied) < work dag run := by
  have hblocked := sum_filter_le (fun name => calls dag name + 1)
    (p := fun name => name ∉ (block dag order run.steps).2) run.remaining
  simp only [WorkflowRun.schedule]
  split
  · rw [work_finish]
    simp only [work, hrunning, hstatus, RunStatus.left]
    omega
  · rename_i hready
    refine Nat.lt_of_le_of_lt work_closeRound_le ?_
    simp only [work, hrunning, hstatus, RunStatus.left, List.map_nil, List.sum_nil]
    -- what is started weighs one less than it did while it waited
    have hstarted : ((run.ready dag).map fun name => calls dag name + 1).sum =
        ((run.ready dag).map (calls dag)).sum + (run.ready dag).length := by
      rw [List.sum_map_add]
      simp
    have hcalled := sum_filter_le (calls dag)
      (p := fun name => 0 ≤ dag.retries name ∧ name ∉ uncopied) (run.ready dag)
    have hsplit := sum_filter_add_le (fun name => calls dag name + 1)
      (p := fun name => name ∉ run.ready dag) (q := run.isReady dag) run.remaining
      fun name hname hnot hready => by
        simp [ready, hname, hready] at hnot
    have hwaiting : (((run.remaining.filter fun name => name ∉ (block dag order run.steps).2).filter
        fun name => name ∉ run.ready dag).map fun name => calls dag name + 1).sum ≤
        ((run.remaining.filter fun name => name ∉ run.ready dag).map
          fun name => calls dag name + 1).sum := by
      rw [List.filter_comm]
      exact sum_filter_le _ _
    have hpos := List.length_pos_iff.mpr hready
    have hrun : ((((run.ready dag).filter fun name => 0 ≤ dag.retries name ∧ name ∉ uncopied).map
        fun name => (name, 0)).map fun entry => calls dag entry.1 - entry.2).sum =
        (((run.ready dag).filter fun name => 0 ≤ dag.retries name ∧ name ∉ uncopied).map
          (calls dag)).sum := by
      rw [List.map_map]
      rfl
    rw [hrun]
    simp only [ready] at *
    omega

theorem Live.failAttempt (h : Live dag run) {name : String} {attempt : Nat}
    (hactive : (name, attempt) ∈ run.running) (error : String) (outcome : Outcome V) :
    let failed := (run.record name outcome).failAttempt dag name attempt error
    failed.status = run.status ∧ (∀ entry ∈ failed.running, (entry.2 : Int) ≤ dag.retries entry.1) ∧
      work dag failed < work dag run := by
  have hbound := h.bounded _ hactive
  have hpos := calls_pos hbound
  simp only [WorkflowRun.failAttempt]
  split
  · refine ⟨rfl, fun entry hentry => h.bounded entry (List.mem_filter.mp hentry).1, ?_⟩
    have hlt := sum_filter_lt (fun entry : String × Nat => calls dag entry.1 - entry.2)
      (p := fun entry => entry.1 ≠ name) hactive (by simp) (Nat.sub_pos_of_lt hpos)
    simp only [work, record] at hlt ⊢
    omega
  · rename_i hmore
    refine ⟨rfl, fun entry hentry => ?_, ?_⟩
    · obtain ⟨before, hbefore, rfl⟩ := List.mem_map.mp hentry
      split
      · simp only at hbound ⊢
        omega
      · exact h.bounded before hbefore
    · have hlt := sum_map_lt (fun entry : String × Nat => calls dag entry.1 - entry.2)
        (g := fun entry => if entry = (name, attempt) then (name, attempt + 1) else entry) hactive
        (fun entry => by
          split
          · rename_i heq
            simp only [heq]
            omega
          · exact Nat.le_refl _)
        (by simp only [if_true] at hpos ⊢; omega)
      simp only [work, record] at hlt ⊢
      omega

-- A step that has ended is not called again.
theorem work_end_lt (h : Live dag run) {name : String} {attempt : Nat}
    (hactive : (name, attempt) ∈ run.running) :
    ((run.running.filter fun entry => entry.1 ≠ name).map
      fun entry => calls dag entry.1 - entry.2).sum <
    (run.running.map fun entry => calls dag entry.1 - entry.2).sum :=
  sum_filter_lt (fun entry : String × Nat => calls dag entry.1 - entry.2)
    (p := fun entry => entry.1 ≠ name) hactive (by simp)
    (Nat.sub_pos_of_lt (calls_pos (h.bounded _ hactive)))

theorem Live.endAttempt (h : Live dag run) {name : String} {attempt : Nat}
    (hactive : (name, attempt) ∈ run.running) (outcome : Outcome V) (value : Except Failure V) :
    let ended := (run.record name outcome).endAttempt dag name attempt value
    ended.status = run.status ∧ (∀ entry ∈ ended.running, (entry.2 : Int) ≤ dag.retries entry.1) ∧
      work dag ended < work dag run := by
  have hlt := work_end_lt h hactive
  match value with
  | .ok result =>
      refine ⟨rfl, fun entry hentry => h.bounded entry (List.mem_filter.mp hentry).1, ?_⟩
      simp only [work, WorkflowRun.endAttempt, record] at hlt ⊢
      omega
  | .error (.raises (some error)) => exact h.failAttempt hactive error _
  | .error (.raises none) =>
      refine ⟨rfl, fun entry hentry => h.bounded entry (List.mem_filter.mp hentry).1, ?_⟩
      simp only [work, WorkflowRun.endAttempt, record] at hlt ⊢
      omega
  | .error .timesOut => exact h.failAttempt hactive _ _

theorem Live.step {event : Event V} (h : Live dag run)
    (he : Workflow.step objects dag run event = some next) :
    Live dag next ∧ work dag next < work dag run := by
  rcases step_cases he with ⟨order, uncopied, rfl, hstatus, -, hrunning, -, -, rfl⟩ |
    ⟨name, outcome, attempt, rfl, -, hmem, rfl⟩
  · exact ⟨live_schedule hrunning hstatus, work_schedule_lt hrunning hstatus⟩
  · obtain ⟨hstatus, hbounded, hlt⟩ := h.endAttempt hmem outcome (outcome.value objects)
    refine ⟨Live.closeRound (fun hended => ?_) hbounded,
      Nat.lt_of_le_of_lt work_closeRound_le hlt⟩
    rw [hstatus] at hended
    rw [h.ended hended] at hmem
    cases hmem

-- `run` returns, or an exception leaves it.
def Ended (run : WorkflowRun V) : Prop := run.status ≠ .running ∨ run.raised = true

theorem progress (objects : Objects V) (dag : WorkflowDAG) (run : WorkflowRun V) :
    Ended run ∨ ∃ event next, Workflow.step objects dag run event = some next := by
  by_cases hended : Ended run
  · exact .inl hended
  · obtain ⟨hstatus, hraised⟩ := not_or.mp hended
    right
    cases hrunning : run.running with
    | nil =>
        exact ⟨.schedule (run.notReady dag) [], _,
          if_pos ⟨not_not.mp hstatus, Bool.eq_false_iff.mpr hraised, hrunning, List.Perm.refl _,
            List.nil_subset _⟩⟩
    | cons entry rest =>
        obtain ⟨name, attempt⟩ := entry
        refine ⟨.attempt name (.fails .timesOut), Option.isSome_iff_exists.mp ?_⟩
        simp only [Workflow.step, hrunning, List.lookup_cons_self, Option.isSome_some]

-- The run ends whatever the steps come to. It keeps to the law exactly when no exception leaves it,
-- no step fails that has returned, and each pass that finds nothing ready gets to its steps in an
-- order that shows all of them to be blocked.
theorem run_terminates_and_orderly_iff (objects : Objects V) (dag : WorkflowDAG)
    (context : String → Option V) :
    Terminates (step objects dag) Ended (initial dag context) ∧
    ∀ events, Always (step objects dag) (Orderly dag) (initial dag context) events ↔
      Along (step objects dag) (Proceeds objects dag) (initial dag context) events :=
  ⟨terminates_of_measure (Live dag) (work dag) (fun _ _ _ hlive he => hlive.step he)
      (fun run _ => progress objects dag run) (live_initial context),
    fun _ => always_iff_along (Consistent dag) (fun _ _ _ h hguard he => h.step hguard he)
      (fun _ h => h.orderly) (fun _ _ _ h he hnext => proceeds_of_orderly h he hnext)
      (consistent_initial context)⟩

def chain : WorkflowDAG where
  name := "release"
  steps := [{ name := "build" }, { name := "test", dependsOn := ["build"] },
    { name := "deploy", dependsOn := ["test"] }]
  distinct := by decide

-- The build fails, and the pass that follows gets to the deployment before the test.
theorem chain_deploy_failed :
    chain.validate = .ok () ∧
    ∃ run : WorkflowRun String,
      EventSystem.run (step ⟨.ok, id⟩ chain) (initial chain fun _ => none)
        [.schedule ["test", "deploy"] [], .attempt "build" (.fails (.raises "no compiler")),
          .schedule ["deploy", "test"] []] = some run ∧
      (run.steps "build").status = .failed ∧ (run.steps "test").status = .skipped ∧
      (run.steps "deploy").status = .failed ∧ run.attempts "deploy" = [] := by
  refine ⟨by decide +kernel, ?_⟩
  refine ⟨_, rfl, ?_⟩
  decide +kernel

end EvoClaw.Workflow
