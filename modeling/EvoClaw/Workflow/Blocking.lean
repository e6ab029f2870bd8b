import EvoClaw.Workflow.Model
import EvoClaw.EventSystem.Runs
import Mathlib.Data.List.Perm.Subperm
import Mathlib.Logic.Relation

namespace EvoClaw.Workflow

open EventSystem WorkflowRun

variable {V : Type} {objects : Objects V} {dag : WorkflowDAG} {run next : WorkflowRun V}

-- Every dependency of the step has succeeded.
def Satisfied (dag : WorkflowDAG) (run : WorkflowRun V) (name : String) : Prop :=
  ∀ dep ∈ dag.dependsOn name, (run.steps dep).status = .success

def NoReturn (outcomes : List (Outcome V)) : Prop :=
  ∀ outcome ∈ outcomes, ∀ result, outcome ≠ .returns result

-- The step was called, and no call returned.
def OwnFailure (run : WorkflowRun V) (name : String) : Prop :=
  run.attempts name ≠ [] ∧ NoReturn (run.attempts name)

def DependsOn (dag : WorkflowDAG) (name dep : String) : Prop :=
  dep ∈ dag.dependsOn name

-- The scheduling law, of a run that no exception has left.
structure Orderly (dag : WorkflowDAG) (run : WorkflowRun V) : Prop where
  called : ∀ name, run.attempts name ≠ [] → Satisfied dag run name
  skipped : run.status ≠ .running → ∀ name dep, Relation.TransGen (DependsOn dag) name dep →
    (run.steps dep).status.failedOrSkipped →
    (run.steps name).status = .skipped ∧ run.attempts name = []
  failed : ∀ name, (run.steps name).status = .failed → OwnFailure run name
  completes : run.raised = false

-- A pass that finds no step ready gets to each step after one that shows it to be blocked.
def BlocksInTime (dag : WorkflowDAG) (run : WorkflowRun V) (order : List String) : Prop :=
  run.ready dag = [] → ∀ before name after, order = before ++ name :: after →
    ∃ dep ∈ dag.dependsOn name, (run.steps dep).status.failedOrSkipped ∨ dep ∈ before

-- The context can be copied, a try that fails has an error, and a step whose last try fails has had
-- no call that returned.
def Proceeds (objects : Objects V) (dag : WorkflowDAG) (run : WorkflowRun V) : Event V → Prop
  | .schedule order uncopied => uncopied = [] ∧ BlocksInTime dag run order
  | .attempt name outcome => ∀ attempt failure, run.running.lookup name = some attempt →
      outcome.value objects = .error failure →
      failure ≠ .raises none ∧
        ((attempt : Int) = dag.retries name → NoReturn (run.attempts name ++ [outcome]))

structure Consistent (dag : WorkflowDAG) (run : WorkflowRun V) : Prop where
  distinct : run.remaining.Nodup
  waiting : ∀ name ∈ run.remaining,
    (run.steps name).status = .pending ∧ run.attempts name = []
  active : ∀ name attempt, (name, attempt) ∈ run.running →
    (run.steps name).status = .running ∧ name ∉ run.remaining ∧ Satisfied dag run name
  called : ∀ name, run.attempts name ≠ [] → Satisfied dag run name
  settled : ∀ name, name ∉ run.remaining → Satisfied dag run name ∨
    ((run.steps name).status = .skipped ∧ run.attempts name = [])
  failed : ∀ name, (run.steps name).status = .failed → OwnFailure run name
  ended : run.status ≠ .running → run.remaining = []
  completes : run.raised = false

section Block

variable {order : List String} {steps : String → StepRun V}

theorem block_sublist : (block dag order steps).2.Sublist order := by
  induction order generalizing steps with
  | nil => exact List.Sublist.refl _
  | cons name rest ih =>
      simp only [block]
      split
      · exact ih.cons_cons name
      · exact ih.cons name

theorem block_steps (name : String) :
    (block dag order steps).1 name =
      if name ∈ (block dag order steps).2 then { steps name with status := .skipped }
      else steps name := by
  induction order generalizing steps with
  | nil => simp [block]
  | cons first rest ih =>
      simp only [block]
      split
      · rw [ih]
        by_cases hname : name = first
        · subst hname
          simp [setStatus]
        · simp [setStatus, hname]
      · exact ih

theorem setStatus_failedOrSkipped (first dep : String) :
    ((setStatus steps first .skipped) dep).status.failedOrSkipped = true ↔
      (steps dep).status.failedOrSkipped = true ∨ dep = first := by
  by_cases h : dep = first
  · subst h
    simp [setStatus, StepStatus.failedOrSkipped]
  · simp [setStatus, h]

-- The whole order is blocked when each step of it comes after what blocks it.
theorem block_eq_order_iff :
    (block dag order steps).2 = order ↔ ∀ before name after, order = before ++ name :: after →
      ∃ dep ∈ dag.dependsOn name, (steps dep).status.failedOrSkipped ∨ dep ∈ before := by
  induction order generalizing steps with
  | nil => simp [block]
  | cons first rest ih =>
      simp only [block]
      split
      · rename_i hany
        have hfirst : ∃ dep ∈ dag.dependsOn first, (steps dep).status.failedOrSkipped = true := by
          simpa using hany
        rw [List.cons.injEq, ih]
        constructor
        · rintro ⟨-, h⟩ before name after hsplit
          cases before with
          | nil =>
              obtain ⟨rfl, -⟩ := List.cons.inj hsplit
              obtain ⟨dep, hdep, hdead⟩ := hfirst
              exact ⟨dep, hdep, .inl hdead⟩
          | cons head before =>
              obtain ⟨rfl, hrest⟩ := List.cons.inj hsplit
              obtain ⟨dep, hdep, hdead⟩ := h before name after hrest
              rw [setStatus_failedOrSkipped, or_assoc] at hdead
              exact ⟨dep, hdep, hdead.imp_right List.mem_cons.mpr⟩
        · intro h
          refine ⟨rfl, fun before name after hrest => ?_⟩
          obtain ⟨dep, hdep, hdead⟩ := h (first :: before) name after (by rw [hrest]; rfl)
          refine ⟨dep, hdep, ?_⟩
          rw [setStatus_failedOrSkipped, or_assoc]
          exact hdead.imp_right List.mem_cons.mp
      · rename_i hany
        refine ⟨fun h => ?_, fun h => absurd (h [] first rest rfl) (by simpa using hany)⟩
        have hlength : (block dag rest steps).2.length ≤ rest.length := block_sublist.length_le
        rw [h, List.length_cons] at hlength
        omega

end Block

section Consistency

theorem Satisfied.mono {name : String} (h : Satisfied dag run name)
    (hkept : ∀ dep, (run.steps dep).status = .success → (next.steps dep).status = .success) :
    Satisfied dag next name :=
  fun dep hdep => hkept dep (h dep hdep)

theorem mem_remaining_iff_of_ready_nil (hready : run.ready dag = []) :
    run.notReady dag = run.remaining := by
  rw [notReady, List.filter_eq_self]
  intro name hname
  have h := List.filter_eq_nil_iff.mp hready name hname
  simpa using h

theorem Consistent.finish (h : Consistent dag run) (hremaining : run.remaining = []) :
    Consistent dag (run.finish dag) :=
  ⟨h.distinct, h.waiting, h.active, h.called, h.settled, h.failed, fun _ => hremaining,
    h.completes⟩

theorem Consistent.closeRound (h : Consistent dag run) :
    Consistent dag (run.closeRound dag) := by
  have hmerged (context : String → Option V) (results : List (String × V)) :
      Consistent dag { run with context := context, results := results } :=
    ⟨h.distinct, h.waiting, h.active, h.called, h.settled, h.failed, h.ended, h.completes⟩
  simp only [WorkflowRun.closeRound]
  split
  · split
    · rename_i hremaining
      exact (hmerged _ _).finish hremaining
    · exact hmerged _ _
  · exact h

theorem consistent_initial (context : String → Option V) :
    Consistent dag (initial dag context) := by
  refine Consistent.closeRound ⟨dag.distinct, fun _ _ => ⟨rfl, rfl⟩, ?_, ?_, ?_, ?_, ?_, rfl⟩
  · intro name attempt h
    cases h
  · intro name h
    exact absurd rfl h
  · intro name hname
    refine .inl fun dep hdep => ?_
    have hget : dag.get name = none := by
      rw [WorkflowDAG.get, List.find?_eq_none]
      intro step hstep heq
      exact hname (List.mem_map.mpr ⟨step, hstep, of_decide_eq_true heq⟩)
    simp [WorkflowDAG.dependsOn, hget] at hdep
  · intro name h
    cases h
  · intro h
    exact absurd rfl h

-- A call has ended. `entry` and `running` are what its step and the round are left as.
theorem Consistent.afterCall (h : Consistent dag run) {name : String} {attempt : Nat}
    (hactive : (name, attempt) ∈ run.running) {outcome : Outcome V} {entry : StepRun V}
    {running : List (String × Nat)} {results : List (String × V)}
    (hrunning : ∀ other k, (other, k) ∈ running →
      if other = name then entry.status = .running else (other, k) ∈ run.running)
    (hentry : entry.status = .failed → NoReturn (run.attempts name ++ [outcome])) :
    Consistent dag { run.record name outcome with
      steps := Function.update run.steps name entry, running := running, results := results } := by
  obtain ⟨hstatus, hgone, hsatisfied⟩ := h.active name attempt hactive
  have hkept (dep : String) (hdep : (run.steps dep).status = .success) :
      (Function.update run.steps name entry dep).status = .success := by
    have hne : dep ≠ name := by
      rintro rfl
      rw [hstatus] at hdep
      cases hdep
    rw [Function.update_of_ne hne]
    exact hdep
  refine ⟨h.distinct, ?_, ?_, ?_, ?_, ?_, h.ended, h.completes⟩
  · intro other hother
    have hne : other ≠ name := fun heq => hgone (heq ▸ hother)
    simpa [record, Function.update_of_ne hne] using h.waiting other hother
  · intro other k hmem
    have hcase := hrunning other k hmem
    by_cases heq : other = name
    · subst heq
      rw [if_pos rfl] at hcase
      exact ⟨by simpa using hcase, hgone, hsatisfied.mono hkept⟩
    · rw [if_neg heq] at hcase
      obtain ⟨hs, hr, hsat⟩ := h.active other k hcase
      exact ⟨by simpa [Function.update_of_ne heq] using hs, hr, hsat.mono hkept⟩
  · intro other hcalled
    by_cases heq : other = name
    · subst heq
      exact hsatisfied.mono hkept
    · exact (h.called other (by simpa [record, Function.update_of_ne heq] using hcalled)).mono hkept
  · intro other hother
    rcases h.settled other hother with hsat | hskip
    · exact .inl (hsat.mono hkept)
    · by_cases heq : other = name
      · subst heq
        exact .inl (hsatisfied.mono hkept)
      · exact .inr (by simpa [record, Function.update_of_ne heq] using hskip)
  · intro other hfailed
    by_cases heq : other = name
    · subst heq
      have hout := hentry (by simpa using hfailed)
      exact ⟨by simp [record], by simpa [record] using hout⟩
    · have hown := h.failed other (by simpa [Function.update_of_ne heq] using hfailed)
      simpa [OwnFailure, record, Function.update_of_ne heq] using hown

theorem Consistent.failAttempt (h : Consistent dag run) {name : String} {attempt : Nat}
    (hactive : (name, attempt) ∈ run.running) {outcome : Outcome V}
    (hlast : (attempt : Int) = dag.retries name → NoReturn (run.attempts name ++ [outcome]))
    (error : String) :
    Consistent dag ((run.record name outcome).failAttempt dag name attempt error) := by
  have hstatus := (h.active name attempt hactive).1
  simp only [WorkflowRun.failAttempt]
  split
  · next hretries =>
      refine h.afterCall hactive ?_ fun _ => hlast hretries
      intro other k hmem
      have hne : other ≠ name := by simpa using (List.mem_filter.mp hmem).2
      simpa [hne, record] using (List.mem_filter.mp hmem).1
  · refine h.afterCall hactive ?_ fun hfailed => ?_
    · intro other k hmem
      obtain ⟨entry, hentry, heq⟩ := List.mem_map.mp hmem
      split
      · exact hstatus
      · rename_i hne
        by_cases hsame : entry = (name, attempt)
        · rw [if_pos hsame] at heq
          exact absurd (congrArg Prod.fst heq).symm hne
        · rw [if_neg hsame] at heq
          exact heq ▸ hentry
    · have hrunning : (run.steps name).status = .failed := hfailed
      rw [hstatus] at hrunning
      cases hrunning

theorem Consistent.endAttempt (h : Consistent dag run) {name : String} {attempt : Nat}
    (hlookup : run.running.lookup name = some attempt) (hactive : (name, attempt) ∈ run.running)
    (outcome : Outcome V) (hguard : Proceeds objects dag run (.attempt name outcome)) :
    Consistent dag ((run.record name outcome).endAttempt dag name attempt
      (outcome.value objects)) := by
  cases hvalue : outcome.value objects with
  | ok result =>
      refine h.afterCall hactive ?_ fun hstatus => by cases hstatus
      intro other k hmem
      have hne : other ≠ name := by simpa using (List.mem_filter.mp hmem).2
      simpa [hne, record] using (List.mem_filter.mp hmem).1
  | error failure =>
      obtain ⟨hstays, hlast⟩ := hguard attempt failure hlookup hvalue
      match failure with
      | .raises (some error) => exact h.failAttempt hactive hlast error
      | .raises none => exact absurd rfl hstays
      | .timesOut => exact h.failAttempt hactive hlast _

-- The pass marks steps of `remaining` only.
theorem Consistent.afterBlock (h : Consistent dag run) {order : List String}
    (horder : order ⊆ run.remaining) :
    Consistent dag { run with
      steps := (block dag order run.steps).1
      remaining := run.remaining.filter fun name => name ∉ (block dag order run.steps).2 } := by
  have hblocked (name : String) (hname : name ∈ (block dag order run.steps).2) :
      name ∈ run.remaining := horder (block_sublist.subset hname)
  have hsame (name : String) (hname : name ∉ (block dag order run.steps).2) :
      (block dag order run.steps).1 name = run.steps name := by
    rw [block_steps, if_neg hname]
  have hkept (dep : String) (hdep : (run.steps dep).status = .success) :
      ((block dag order run.steps).1 dep).status = .success := by
    rw [hsame dep, hdep]
    intro hmem
    rw [(h.waiting dep (hblocked dep hmem)).1] at hdep
    cases hdep
  refine ⟨h.distinct.filter _, ?_, ?_, fun name hcalled => (h.called name hcalled).mono hkept,
    ?_, ?_, fun hended => by simp [h.ended hended], h.completes⟩
  · intro name hname
    obtain ⟨hremaining, hnot⟩ := List.mem_filter.mp hname
    simp only [hsame name (by simpa using hnot)]
    exact h.waiting name hremaining
  · intro name attempt hmem
    obtain ⟨hstatus, hgone, hsatisfied⟩ := h.active name attempt hmem
    simp only [hsame name fun hname => hgone (hblocked name hname)]
    exact ⟨hstatus, fun hname => hgone (List.mem_filter.mp hname).1, hsatisfied.mono hkept⟩
  · intro name hname
    by_cases hmem : name ∈ (block dag order run.steps).2
    · right
      simp only [block_steps, if_pos hmem]
      exact ⟨trivial, (h.waiting name (hblocked name hmem)).2⟩
    · simp only [hsame name hmem]
      have hgone : name ∉ run.remaining := fun hr =>
        hname (List.mem_filter.mpr ⟨hr, by simpa using hmem⟩)
      exact (h.settled name hgone).imp_left fun hsat => hsat.mono hkept
  · intro name hfailed
    simp only [block_steps] at hfailed
    split at hfailed
    · cases hfailed
    · exact h.failed name hfailed

-- The ready steps are started.
theorem Consistent.afterStart (h : Consistent dag run)
    {names : List String} (hready : ∀ name ∈ names, name ∈ run.remaining ∧ Satisfied dag run name)
    {running : List (String × Nat)} (hstarted : ∀ entry ∈ running, entry.1 ∈ names) :
    Consistent dag { run with
      steps := startAll names run.steps
      remaining := run.remaining.filter fun name => name ∉ names
      running := running } := by
  have hkept (dep : String) (hdep : (run.steps dep).status = .success) :
      (startAll names run.steps dep).status = .success := by
    rw [startAll, if_neg]
    · exact hdep
    · intro hmem
      rw [(h.waiting dep (hready dep hmem).1).1] at hdep
      cases hdep
  refine ⟨h.distinct.filter _, ?_, ?_, fun name hcalled => (h.called name hcalled).mono hkept,
    ?_, ?_, fun hended => by simp [h.ended hended], h.completes⟩
  · intro name hname
    obtain ⟨hremaining, hnot⟩ := List.mem_filter.mp hname
    simp only [startAll, if_neg (show name ∉ names by simpa using hnot)]
    exact h.waiting name hremaining
  · intro name attempt hmem
    have hname : name ∈ names := hstarted (name, attempt) hmem
    exact ⟨by simp [startAll, hname], by simp [hname], (hready name hname).2.mono hkept⟩
  · intro name hname
    by_cases hmem : name ∈ names
    · exact .inl ((hready name hmem).2.mono hkept)
    · have hgone : name ∉ run.remaining := fun hr =>
        hname (List.mem_filter.mpr ⟨hr, by simpa using hmem⟩)
      simp only [startAll, if_neg hmem]
      exact (h.settled name hgone).imp_left fun hsat => hsat.mono hkept
  · intro name hfailed
    simp only [startAll] at hfailed
    split at hfailed
    · cases hfailed
    · exact h.failed name hfailed

end Consistency

section Steps

theorem satisfied_of_mem_ready {name : String} (h : name ∈ run.ready dag) :
    name ∈ run.remaining ∧ Satisfied dag run name := by
  obtain ⟨hremaining, hready⟩ := List.mem_filter.mp h
  refine ⟨hremaining, fun dep hdep => ?_⟩
  exact of_decide_eq_true (List.all_eq_true.mp hready dep hdep)

theorem notReady_subset : run.notReady dag ⊆ run.remaining :=
  fun _ hname => (List.mem_filter.mp hname).1

-- A step that is ready is in no pass over the others.
theorem not_mem_order_of_mem_ready {order : List String} (horder : order.Perm (run.notReady dag))
    {name : String} (hname : name ∈ run.ready dag) : name ∉ order := by
  intro hmem
  have hnot := (List.mem_filter.mp (horder.mem_iff.mp hmem)).2
  simp [(List.mem_filter.mp hname).2] at hnot

theorem Consistent.schedule (h : Consistent dag run)
    {order : List String} (horder : order.Perm (run.notReady dag))
    (hguard : BlocksInTime dag run order) : Consistent dag (run.schedule dag order []) := by
  have hsubset : order ⊆ run.remaining := List.Subset.trans horder.subset notReady_subset
  have hblock := h.afterBlock hsubset
  simp only [WorkflowRun.schedule]
  split
  · rename_i hready
    have hall : (block dag order run.steps).2 = order := block_eq_order_iff.mpr (hguard hready)
    have hempty : (run.remaining.filter fun name => name ∉ (block dag order run.steps).2) = [] := by
      rw [hall, List.filter_eq_nil_iff]
      intro name hname
      rw [mem_remaining_iff_of_ready_nil hready] at horder
      simpa using horder.mem_iff.mpr hname
    have hnone : failAll (run.remaining.filter fun name => name ∉ (block dag order run.steps).2)
        (block dag order run.steps).1 = (block dag order run.steps).1 := by
      funext name
      rw [failAll, hempty]
      rfl
    rw [hnone]
    exact hblock.finish hempty
  · have hcopied : decide (([] : List String) ≠ []) = run.raised := by
      rw [h.completes]
      rfl
    rw [hcopied]
    refine Consistent.closeRound (hblock.afterStart ?_ ?_)
    · intro name hname
      obtain ⟨hremaining, hsatisfied⟩ := satisfied_of_mem_ready hname
      have hout : name ∉ (block dag order run.steps).2 := fun hmem =>
        not_mem_order_of_mem_ready horder hname (block_sublist.subset hmem)
      refine ⟨List.mem_filter.mpr ⟨hremaining, by simpa using hout⟩, hsatisfied.mono ?_⟩
      intro dep hdep
      have hdep' : dep ∉ (block dag order run.steps).2 := fun hmem => by
        rw [(h.waiting dep (hsubset (block_sublist.subset hmem))).1] at hdep
        cases hdep
      simpa [block_steps, hdep'] using hdep
    · intro entry hentry
      obtain ⟨name, hname, rfl⟩ := List.mem_map.mp hentry
      exact (List.mem_filter.mp hname).1

-- What an enabled event does.
theorem step_cases {event : Event V} (he : step objects dag run event = some next) :
    (∃ order uncopied, event = .schedule order uncopied ∧ run.status = .running ∧
      run.raised = false ∧ run.running = [] ∧ order.Perm (run.notReady dag) ∧
      uncopied ⊆ run.ready dag ∧ next = run.schedule dag order uncopied) ∨
    (∃ name outcome attempt, event = .attempt name outcome ∧
      run.running.lookup name = some attempt ∧ (name, attempt) ∈ run.running ∧
      next = ((run.record name outcome).endAttempt dag name attempt
        (outcome.value objects)).closeRound dag) := by
  cases event with
  | schedule order uncopied =>
      simp only [step] at he
      split at he
      · rename_i hen
        exact .inl ⟨order, uncopied, rfl, hen.1, hen.2.1, hen.2.2.1, hen.2.2.2.1, hen.2.2.2.2,
          (Option.some.inj he).symm⟩
      · cases he
  | attempt name outcome =>
      simp only [step] at he
      split at he
      · cases he
      · rename_i attempt hlookup
        refine .inr ⟨name, outcome, attempt, rfl, hlookup, ?_, (Option.some.inj he).symm⟩
        obtain ⟨before, after, hsplit, -⟩ := List.lookup_eq_some_iff.mp hlookup
        simp [hsplit]

theorem Consistent.step {event : Event V} (h : Consistent dag run)
    (hguard : Proceeds objects dag run event)
    (he : Workflow.step objects dag run event = some next) : Consistent dag next := by
  rcases step_cases he with ⟨order, uncopied, rfl, -, -, -, horder, -, rfl⟩ |
    ⟨name, outcome, attempt, rfl, hlookup, hmem, rfl⟩
  · obtain ⟨rfl, hblocks⟩ := hguard
    exact h.schedule horder hblocks
  · exact (h.endAttempt hlookup hmem outcome hguard).closeRound

theorem Consistent.orderly (h : Consistent dag run) : Orderly dag run := by
  refine ⟨h.called, fun hended name dep htrans hdead => ?_, h.failed, h.completes⟩
  have hremaining := h.ended hended
  -- one dependency at a time, from the last one up
  have hstep (name dep : String) (hdep : DependsOn dag name dep)
      (hdead : (run.steps dep).status.failedOrSkipped) :
      (run.steps name).status = .skipped ∧ run.attempts name = [] := by
    refine (h.settled name (by simp [hremaining])).resolve_left fun hsat => ?_
    rw [hsat dep hdep] at hdead
    cases hdead
  induction htrans using Relation.TransGen.head_induction_on with
  | single hdep => exact hstep _ _ hdep hdead
  | head hdep _ ih => exact hstep _ _ hdep (by rw [ih.1]; rfl)

theorem closeRound_eq (run : WorkflowRun V) :
    (run.closeRound dag).steps = run.steps ∧ (run.closeRound dag).attempts = run.attempts ∧
      (run.closeRound dag).raised = run.raised := by
  simp only [WorkflowRun.closeRound]
  split
  · split <;> exact ⟨rfl, rfl, rfl⟩
  · exact ⟨rfl, rfl, rfl⟩

-- A pass that leaves a step over when none is ready ends it as failed without a call.
theorem blocksInTime_of_orderly (h : Consistent dag run) {order : List String}
    (horder : order.Perm (run.notReady dag)) {uncopied : List String}
    (hnext : Orderly dag (run.schedule dag order uncopied)) : BlocksInTime dag run order := by
  intro hready
  rw [← block_eq_order_iff]
  rw [mem_remaining_iff_of_ready_nil hready] at horder
  refine block_sublist.eq_of_length (Nat.le_antisymm block_sublist.length_le ?_)
  refine (List.subperm_of_subset (horder.nodup_iff.mpr h.distinct) fun name hname => ?_).length_le
  by_contra hout
  have hleft : name ∈ run.remaining.filter fun name =>
      name ∉ (block dag order run.steps).2 :=
    List.mem_filter.mpr ⟨horder.mem_iff.mp hname, by simpa using hout⟩
  have hfailed : ((run.schedule dag order uncopied).steps name).status = .failed := by
    simp only [WorkflowRun.schedule, if_pos hready, finish, failAll, if_pos hleft]
  refine (hnext.failed name hfailed).1 ?_
  have hattempts : (run.schedule dag order uncopied).attempts = run.attempts := by
    simp only [WorkflowRun.schedule, if_pos hready, finish]
  rw [hattempts]
  exact (h.waiting name (horder.mem_iff.mp hname)).2

-- A copy that raises leaves the run.
theorem copied_of_orderly {order uncopied : List String} (hready : uncopied ⊆ run.ready dag)
    (hnext : Orderly dag (run.schedule dag order uncopied)) : uncopied = [] := by
  by_contra hne
  have hsome : run.ready dag ≠ [] := by
    intro hnone
    rw [hnone] at hready
    exact hne (List.subset_nil.mp hready)
  have hraised := hnext.completes
  simp only [WorkflowRun.schedule, if_neg hsome, (closeRound_eq _).2.2] at hraised
  exact of_decide_eq_false hraised hne

-- A failing try without an error leaves the run, and the last one ends the step as failed.
theorem ends_of_orderly {name : String} {attempt : Nat} {outcome : Outcome V} {failure : Failure}
    (hnext : Orderly dag (((run.record name outcome).endAttempt dag name attempt
      (.error failure)).closeRound dag)) :
    failure ≠ .raises none ∧
      ((attempt : Int) = dag.retries name → NoReturn (run.attempts name ++ [outcome])) := by
  have hfails (error : String) (hlast : (attempt : Int) = dag.retries name)
      (hnext : Orderly dag (((run.record name outcome).failAttempt dag name attempt
        error).closeRound dag)) : NoReturn (run.attempts name ++ [outcome]) := by
    have hfailed := (hnext.failed name ?_).2
    · simpa [(closeRound_eq _).2.1, failAttempt, if_pos hlast, record] using hfailed
    · simp [(closeRound_eq _).1, failAttempt, if_pos hlast]
  match failure with
  | .raises (some error) => exact ⟨by simp, fun hlast => hfails error hlast hnext⟩
  | .raises none =>
      have hraised := hnext.completes
      rw [(closeRound_eq _).2.2] at hraised
      cases hraised
  | .timesOut => exact ⟨by simp, fun hlast => hfails _ hlast hnext⟩

theorem proceeds_of_orderly {event : Event V} (h : Consistent dag run)
    (he : Workflow.step objects dag run event = some next) (hnext : Orderly dag next) :
    Proceeds objects dag run event := by
  rcases step_cases he with ⟨order, uncopied, rfl, -, -, -, horder, hready, rfl⟩ |
    ⟨name, outcome, attempt, rfl, hlookup, -, rfl⟩
  · exact ⟨copied_of_orderly hready hnext, blocksInTime_of_orderly h horder hnext⟩
  · intro other failure hother hvalue
    rw [hlookup, Option.some.injEq] at hother
    subst hother
    rw [hvalue] at hnext
    exact ends_of_orderly hnext

end Steps

end EvoClaw.Workflow
