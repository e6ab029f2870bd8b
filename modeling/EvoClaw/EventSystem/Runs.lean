import Mathlib.Logic.Basic

namespace EventSystem

variable {σ ε : Type*} {step : σ → ε → Option σ}

-- A system is a partial step function. An event that is not enabled has no successor.
def run (step : σ → ε → Option σ) : σ → List ε → Option σ
  | state, [] => some state
  | state, event :: rest => (step state event).bind fun next => run step next rest

-- Every state that the run passes through satisfies `holds`, the first one included.
def Always (step : σ → ε → Option σ) (holds : σ → Prop) : σ → List ε → Prop
  | state, [] => holds state
  | state, event :: rest =>
      holds state ∧ match step state event with
        | none => True
        | some next => Always step holds next rest

-- Every enabled event of the run meets `guard` in the state it is taken from.
def Along (step : σ → ε → Option σ) (guard : σ → ε → Prop) : σ → List ε → Prop
  | _, [] => True
  | state, event :: rest =>
      match step state event with
      | none => True
      | some next => guard state event ∧ Along step guard next rest

instance decidableAlways (holds : σ → Prop) [DecidablePred holds] :
    ∀ state events, Decidable (Always step holds state events)
  | state, [] => inferInstanceAs (Decidable (holds state))
  | state, event :: rest =>
      @instDecidableAnd _ _ inferInstance <|
        match step state event with
        | none => isTrue trivial
        | some next => decidableAlways holds next rest

instance decidableAlong (guard : σ → ε → Prop) [∀ state event, Decidable (guard state event)] :
    ∀ state events, Decidable (Along step guard state events)
  | _, [] => isTrue trivial
  | state, event :: rest =>
      show Decidable (match step state event with
        | none => True
        | some next => guard state event ∧ Along step guard next rest) from
      match step state event with
      | none => isTrue trivial
      | some next => @instDecidableAnd _ _ inferInstance (decidableAlong guard next rest)

section Unfolding

variable {holds : σ → Prop} {guard : σ → ε → Prop} {state next : σ} {event : ε} {rest : List ε}

theorem run_cons_of_step (he : step state event = some next) :
    run step state (event :: rest) = run step next rest := by
  simp [run, he]

theorem run_cons_of_none (he : step state event = none) :
    run step state (event :: rest) = none := by
  simp [run, he]

theorem always_cons_of_step (he : step state event = some next) :
    Always step holds state (event :: rest) ↔ holds state ∧ Always step holds next rest := by
  simp [Always, he]

theorem always_cons_of_none (he : step state event = none) :
    Always step holds state (event :: rest) ↔ holds state := by
  simp [Always, he]

theorem along_cons_of_step (he : step state event = some next) :
    Along step guard state (event :: rest) ↔ guard state event ∧ Along step guard next rest := by
  simp [Along, he]

theorem along_cons_of_none (he : step state event = none) :
    Along step guard state (event :: rest) := by
  simp [Along, he]

end Unfolding

-- A run is empty, stuck at its first event, or a step and the run behind it.
theorem run_induction (step : σ → ε → Option σ) {motive : σ → List ε → Prop}
    (nil : ∀ state, motive state [])
    (stuck : ∀ state event rest, step state event = none → motive state (event :: rest))
    (moves : ∀ state event next rest, step state event = some next → motive next rest →
      motive state (event :: rest))
    (state : σ) (events : List ε) : motive state events := by
  induction events generalizing state with
  | nil => exact nil state
  | cons event rest ih =>
      cases he : step state event with
      | none => exact stuck state event rest he
      | some next => exact moves state event next rest he (ih next)

theorem Always.head {holds : σ → Prop} {state : σ} {events : List ε}
    (h : Always step holds state events) : holds state := by
  cases events with
  | nil => exact h
  | cons event rest => exact h.1

theorem run_append (state : σ) (events rest : List ε) :
    run step state (events ++ rest) = (run step state events).bind (run step · rest) := by
  induction state, events using run_induction step with
  | nil state => rfl
  | stuck state event events he => simp [run, he]
  | moves state event next events he ih => simp [run, he, ih]

theorem Always.reached {holds : σ → Prop} {state final : σ} {events : List ε}
    (h : Always step holds state events) (hrun : run step state events = some final) :
    holds final := by
  induction state, events using run_induction step with
  | nil state =>
      cases hrun
      exact h
  | stuck state event rest he =>
      rw [run_cons_of_none he] at hrun
      cases hrun
  | moves state event next rest he ih =>
      rw [always_cons_of_step he] at h
      rw [run_cons_of_step he] at hrun
      exact ih h.2 hrun

theorem Always.imp {holds weaker : σ → Prop} (hw : ∀ state, holds state → weaker state)
    {state : σ} {events : List ε} (h : Always step holds state events) :
    Always step weaker state events := by
  induction state, events using run_induction step with
  | nil state => exact hw state h
  | stuck state event rest he => exact (always_cons_of_none he).mpr (hw state h.head)
  | moves state event next rest he ih =>
      rw [always_cons_of_step he] at h ⊢
      exact ⟨hw state h.1, ih h.2⟩

theorem Always.along_state {holds : σ → Prop} {state : σ} {events : List ε}
    (h : Always step holds state events) :
    Along step (fun state _ => holds state) state events := by
  induction state, events using run_induction step with
  | nil state => trivial
  | stuck state event rest he => exact along_cons_of_none he
  | moves state event next rest he ih =>
      rw [always_cons_of_step he] at h
      rw [along_cons_of_step he]
      exact ⟨h.1, ih h.2⟩

section Invariants

variable {guard : σ → ε → Prop} {holds : σ → Prop} (inv : σ → Prop)

theorem Along.always
    (hstep : ∀ state event next, inv state → guard state event →
      step state event = some next → inv next)
    (hholds : ∀ state, inv state → holds state)
    {state : σ} {events : List ε} (hinv : inv state) (hguard : Along step guard state events) :
    Always step holds state events := by
  induction state, events using run_induction step with
  | nil state => exact hholds state hinv
  | stuck state event rest he => exact (always_cons_of_none he).mpr (hholds state hinv)
  | moves state event next rest he ih =>
      rw [along_cons_of_step he] at hguard
      rw [always_cons_of_step he]
      exact ⟨hholds state hinv, ih (hstep state event next hinv hguard.1 he) hguard.2⟩

-- What holds of each event that the guard admits.
theorem Along.along {other : σ → ε → Prop}
    (hstep : ∀ state event next, inv state → guard state event →
      step state event = some next → inv next)
    (hother : ∀ state event, inv state → guard state event → other state event)
    {state : σ} {events : List ε} (hinv : inv state) (hguard : Along step guard state events) :
    Along step other state events := by
  induction state, events using run_induction step with
  | nil state => trivial
  | stuck state event rest he => exact along_cons_of_none he
  | moves state event next rest he ih =>
      rw [along_cons_of_step he] at hguard ⊢
      exact ⟨hother state event hinv hguard.1,
        ih (hstep state event next hinv hguard.1 he) hguard.2⟩

theorem run_invariant
    (hstep : ∀ state event next, inv state → step state event = some next → inv next)
    {state final : σ} {events : List ε} (hinv : inv state)
    (hrun : run step state events = some final) : inv final := by
  induction state, events using run_induction step with
  | nil state => cases hrun; exact hinv
  | stuck state event rest he => rw [run_cons_of_none he] at hrun; cases hrun
  | moves state event next rest he ih =>
      rw [run_cons_of_step he] at hrun
      exact ih (hstep state event next hinv he) hrun

-- When leaving the guard leaves `holds` at once, a run that always keeps `holds` has kept
-- to the guard. `extra` is what the run is known to keep to besides.
theorem Always.along {extra : σ → ε → Prop}
    (hstep : ∀ state event next, inv state → guard state event → extra state event →
      step state event = some next → inv next)
    (hexact : ∀ state event next, inv state → step state event = some next →
      holds next → guard state event)
    {state : σ} {events : List ε} (hinv : inv state) (hextra : Along step extra state events)
    (h : Always step holds state events) : Along step guard state events := by
  induction state, events using run_induction step with
  | nil state => trivial
  | stuck state event rest he => exact along_cons_of_none he
  | moves state event next rest he ih =>
      rw [always_cons_of_step he] at h
      rw [along_cons_of_step he] at hextra ⊢
      have hg := hexact state event next hinv he h.2.head
      exact ⟨hg, ih (hstep state event next hinv hg hextra.1 he) hextra.2 h.2⟩

theorem along_of_mem {events : List ε} (hguard : ∀ event ∈ events, ∀ state, guard state event)
    (state : σ) : Along step guard state events := by
  induction state, events using run_induction step with
  | nil state => trivial
  | stuck state event rest he => exact along_cons_of_none he
  | moves state event next rest he ih =>
      have hrest := ih fun other hmem => hguard other (List.mem_cons_of_mem event hmem)
      exact (along_cons_of_step he).mpr ⟨hguard event List.mem_cons_self state, hrest⟩

theorem along_of_forall (hguard : ∀ state event, guard state event) (state : σ)
    (events : List ε) : Along step guard state events :=
  along_of_mem (fun event _ state => hguard state event) state

-- Then the guard is the exact condition on runs.
theorem always_iff_along
    (hstep : ∀ state event next, inv state → guard state event →
      step state event = some next → inv next)
    (hholds : ∀ state, inv state → holds state)
    (hexact : ∀ state event next, inv state → step state event = some next →
      holds next → guard state event)
    {state : σ} {events : List ε} (hinv : inv state) :
    Always step holds state events ↔ Along step guard state events := by
  refine ⟨fun h => ?_, fun h => h.always inv hstep hholds hinv⟩
  have htrue : Along step (fun _ _ => True) state events :=
    along_of_forall (fun _ _ => trivial) state events
  exact h.along inv (fun state event next hinv hg _ => hstep state event next hinv hg) hexact
    hinv htrue

-- Where a law of the steps and a guard say the same, they do so along the run.
theorem along_iff {law extra : σ → ε → Prop}
    (hstep : ∀ state event next, inv state → guard state event → extra state event →
      step state event = some next → inv next)
    (hiff : ∀ state event next, inv state → extra state event → step state event = some next →
      (law state event ↔ guard state event))
    {state : σ} {events : List ε} (hinv : inv state) (hextra : Along step extra state events) :
    Along step law state events ↔ Along step guard state events := by
  induction state, events using run_induction step with
  | nil state => exact Iff.rfl
  | stuck state event rest he =>
      exact iff_of_true (along_cons_of_none he) (along_cons_of_none he)
  | moves state event next rest he ih =>
      rw [along_cons_of_step he] at hextra
      rw [along_cons_of_step he, along_cons_of_step he,
        hiff state event next hinv hextra.1 he]
      exact and_congr_right fun hg => ih (hstep state event next hinv hg hextra.1 he) hextra.2

end Invariants

theorem along_and {guard other : σ → ε → Prop} {state : σ} {events : List ε} :
    Along step (fun state event => guard state event ∧ other state event) state events ↔
      Along step guard state events ∧ Along step other state events := by
  induction state, events using run_induction step with
  | nil state => exact (and_self_iff).symm
  | stuck state event rest he =>
      exact iff_of_true (along_cons_of_none he) ⟨along_cons_of_none he, along_cons_of_none he⟩
  | moves state event next rest he ih =>
      rw [along_cons_of_step he, along_cons_of_step he, along_cons_of_step he, ih]
      exact and_and_and_comm

-- What holds in every state holds at the start and behind every step.
theorem always_iff_next {holds : σ → Prop} {state : σ} {events : List ε} :
    Always step holds state events ↔ holds state ∧
      Along step (fun state event => ∀ next, step state event = some next → holds next)
        state events := by
  induction state, events using run_induction step with
  | nil state => exact (and_iff_left trivial).symm
  | stuck state event rest he =>
      rw [always_cons_of_none he]
      exact (and_iff_left (along_cons_of_none he)).symm
  | moves state event next rest he ih =>
      rw [always_cons_of_step he, along_cons_of_step he, ih]
      refine and_congr_right fun _ => and_congr_left fun _ => ?_
      constructor
      · rintro h other hother
        rw [he, Option.some.injEq] at hother
        exact hother ▸ h
      · exact fun h => h next he

section Shadow

variable {mute : ε → ε}

-- An event that is not enabled is skipped.
def tryStep (step : σ → ε → Option σ) (state : σ) (event : ε) : σ :=
  (step state event).getD state

-- A run beside its shadow, to which every event comes muted.
def shadowStep (step : σ → ε → Option σ) (mute : ε → ε) (pair : σ × σ) (event : ε) :
    Option (σ × σ) :=
  (step pair.1 event).map fun next => (next, tryStep step pair.2 (mute event))

theorem shadowStep_eq_some {pair next : σ × σ} {event : ε} :
    shadowStep step mute pair event = some next ↔
      step pair.1 event = some next.1 ∧ next.2 = tryStep step pair.2 (mute event) := by
  obtain ⟨real, shadow⟩ := next
  simp only [shadowStep, Option.map_eq_some_iff, Prod.mk.injEq]
  constructor
  · rintro ⟨_, hstep, rfl, rfl⟩
    exact ⟨hstep, rfl⟩
  · rintro ⟨hstep, rfl⟩
    exact ⟨real, hstep, rfl, rfl⟩

-- The first component is the run itself, the second the run of the muted events.
theorem run_shadowStep {pair final : σ × σ} {events : List ε}
    (h : run (shadowStep step mute) pair events = some final) :
    run step pair.1 events = some final.1 ∧
      final.2 = (events.map mute).foldl (tryStep step) pair.2 := by
  induction pair, events using run_induction (shadowStep step mute) with
  | nil pair => cases h; exact ⟨rfl, rfl⟩
  | stuck pair event rest he => rw [run_cons_of_none he] at h; cases h
  | moves pair event next rest he ih =>
      rw [run_cons_of_step he] at h
      obtain ⟨hstep, hshadow⟩ := shadowStep_eq_some.mp he
      obtain ⟨hreal, hlast⟩ := ih h
      refine ⟨(run_cons_of_step hstep).trans hreal, ?_⟩
      rw [hlast, hshadow, List.map_cons, List.foldl_cons]

-- What every enabled step keeps, a tried step keeps.
theorem tryStep_invariant {inv : σ → Prop}
    (hstep : ∀ state event next, inv state → step state event = some next → inv next)
    {state : σ} {event : ε} (h : inv state) : inv (tryStep step state event) := by
  unfold tryStep
  cases he : step state event with
  | none => exact h
  | some next => exact hstep state event next h he

end Shadow

-- Every run from `start` is at most so long, and goes on unless it has finished.
def Terminates (step : σ → ε → Option σ) (finished : σ → Prop) (start : σ) : Prop :=
  ∃ bound, ∀ events final, run step start events = some final →
    events.length ≤ bound ∧ (finished final ∨ ∃ event next, step final event = some next)

section Measure

variable (inv : σ → Prop) (measure : σ → Nat)

theorem run_measure
    (hstep : ∀ state event next, inv state → step state event = some next →
      inv next ∧ measure next < measure state)
    {state final : σ} {events : List ε} (hinv : inv state)
    (hrun : run step state events = some final) :
    inv final ∧ measure final + events.length ≤ measure state := by
  induction state, events using run_induction step with
  | nil state =>
      cases hrun
      exact ⟨hinv, Nat.le_refl _⟩
  | stuck state event rest he =>
      rw [run_cons_of_none he] at hrun
      cases hrun
  | moves state event next rest he ih =>
      rw [run_cons_of_step he] at hrun
      obtain ⟨hnext, hless⟩ := hstep state event next hinv he
      obtain ⟨hfinal, hbound⟩ := ih hnext hrun
      refine ⟨hfinal, ?_⟩
      simp only [List.length_cons]
      omega

theorem terminates_of_measure {finished : σ → Prop}
    (hstep : ∀ state event next, inv state → step state event = some next →
      inv next ∧ measure next < measure state)
    (hprogress : ∀ state, inv state → finished state ∨ ∃ event next, step state event = some next)
    {start : σ} (hinv : inv start) : Terminates step finished start := by
  refine ⟨measure start, fun events final hrun => ?_⟩
  obtain ⟨hfinal, hbound⟩ := run_measure inv measure hstep hinv hrun
  exact ⟨by omega, hprogress final hfinal⟩

end Measure

end EventSystem
