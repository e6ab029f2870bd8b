import EvoClaw.DevEngine.Model

namespace EvoClaw.DevEngine

open EventSystem State

variable {state next : State} {event : Event} {object : Nat} {session : DevSession}

-- Once a cancel has returned True the row is cancelled, and no stage and no file has been begun.
structure StaysCancelled (state : State) : Prop where
  stored : state.cancelled = true → state.stored.map DevSession.status = some .cancelled
  started : state.startedLate = []
  touched : state.touchedLate = []

-- Once a cancel has returned True, run is not called, and a call of run that is waiting only
-- goes on from its last notification.
def LetsRest (state : State) : Event → Prop
  | .run _ | .executed _ _ => state.cancelled = false
  | .notified index _ => state.cancelled = true →
      ∃ object result, state.runs[index]? = some ⟨object, .leaving result⟩
  | .resume | .cancel => True

-- The object is there, and it is not a cancelled one.
def Live (state : State) (object : Nat) : Prop :=
  ∃ session, state.session? object = some session ∧ session.status ≠ .cancelled

structure Running (state : State) : Prop where
  stays : StaysCancelled state
  live : ∀ run ∈ state.runs, Live state run.object

-- What a call of run does between two notifications.
inductive Segment (state : State) (object : Nat) (session : DevSession) : State × Point → Prop
  | execute (stage : DevStage) (disk : Disk) :
      Segment state object session (state.execute object session stage disk)
  | proceed (stage : DevStage) : Segment state object session (state.proceed object session stage)
  | endStage (stage : DevStage) (result : Option String) :
      Segment state object session (state.endStage object session stage result)

theorem step_cases (he : step state event = some next) :
    (event = .resume ∧ next = state.resume) ∨ (event = .cancel ∧ next = state.cancel) ∨
    (∃ object session, event = .run object ∧ state.session? object = some session ∧
      next = state.run object session) ∨
    (∃ index disk object result, event = .notified index disk ∧
      state.runs[index]? = some ⟨object, .leaving result⟩ ∧
      next = moveRun index object (state, .returned result)) ∨
    ∃ index object point session reached, state.runs[index]? = some ⟨object, point⟩ ∧
      state.session? object = some session ∧ Segment state object session reached ∧
      next = moveRun index object reached ∧ ((∃ result, event = .executed index result) ∨
        (∃ disk, event = .notified index disk) ∧ ∀ result, point ≠ .leaving result) := by
  cases event with
  | run object =>
      obtain ⟨session, hsession, rfl⟩ := Option.map_eq_some_iff.mp he
      exact .inr (.inr (.inl ⟨object, session, rfl, hsession, rfl⟩))
  | resume => exact .inl ⟨rfl, (Option.some.inj he).symm⟩
  | cancel => exact .inr (.inl ⟨rfl, (Option.some.inj he).symm⟩)
  | notified index disk =>
      obtain ⟨⟨object, point⟩, hrun, he⟩ := Option.bind_eq_some_iff.mp he
      obtain ⟨session, hsession, he⟩ := Option.bind_eq_some_iff.mp he
      refine .inr (.inr (.inr ?_))
      cases point with
      | starting stage =>
          exact .inr ⟨index, object, _, session, _, hrun, hsession, .execute stage disk,
            (Option.some.inj he).symm, .inr ⟨⟨disk, rfl⟩, nofun⟩⟩
      | done stage =>
          exact .inr ⟨index, object, _, session, _, hrun, hsession, .proceed stage,
            (Option.some.inj he).symm, .inr ⟨⟨disk, rfl⟩, nofun⟩⟩
      | leaving result =>
          exact .inl ⟨index, disk, object, result, rfl, hrun, (Option.some.inj he).symm⟩
      | executing stage => cases he
      | returned result => cases he
  | executed index result =>
      obtain ⟨⟨object, point⟩, hrun, he⟩ := Option.bind_eq_some_iff.mp he
      obtain ⟨session, hsession, he⟩ := Option.bind_eq_some_iff.mp he
      refine .inr (.inr (.inr (.inr ?_)))
      cases point with
      | executing stage =>
          exact ⟨index, object, _, session, _, hrun, hsession, .endStage stage result,
            (Option.some.inj he).symm, .inl ⟨result, rfl⟩⟩
      | starting stage => cases he
      | done stage => cases he
      | leaving result => cases he
      | returned result => cases he

section Segments

-- The state before the save differs in what is kept about stages and files at most.
structure SameBut (base state : State) : Prop where
  objects : base.objects = state.objects
  runs : base.runs = state.runs
  cancelled : base.cancelled = state.cancelled
  before : state.cancelled = false → base = state

-- The object is saved, and not as a cancelled one.
def Saves (state : State) (object : Nat) (reached : State × Point) : Prop :=
  ∃ base saved, SameBut base state ∧ saved.status ≠ .cancelled ∧
    reached.1 = base.saveSession object saved

theorem SameBut.refl (state : State) : SameBut state state :=
  ⟨rfl, rfl, rfl, fun _ => rfl⟩

theorem SameBut.startStage {base : State} (h : SameBut base state) (stage : DevStage) :
    SameBut (base.startStage stage) state := by
  unfold State.startStage
  split
  · rename_i hcancelled
    rw [h.cancelled] at hcancelled
    exact ⟨h.objects, h.runs, h.cancelled, fun hnot => by rw [hnot] at hcancelled; cases hcancelled⟩
  · exact h

theorem SameBut.touch {base : State} (h : SameBut base state) (targets : List Posix.AbsPath) :
    SameBut (base.touch targets) state := by
  unfold State.touch
  split
  · rename_i hcancelled
    rw [h.cancelled] at hcancelled
    exact ⟨h.objects, h.runs, h.cancelled, fun hnot => by rw [hnot] at hcancelled; cases hcancelled⟩
  · exact h

theorem Saves.mono {base : State} {reached : State × Point} (h : SameBut base state)
    (hsaves : Saves base object reached) : Saves state object reached := by
  obtain ⟨inner, saved, hinner, hstatus, heq⟩ := hsaves
  refine ⟨inner, saved, ⟨hinner.objects.trans h.objects, hinner.runs.trans h.runs,
    hinner.cancelled.trans h.cancelled, fun hnot => ?_⟩, hstatus, heq⟩
  rw [hinner.before (h.cancelled.trans hnot), h.before hnot]

theorem runStages_saves (hstatus : session.status ≠ .cancelled) (stages : List DevStage) :
    Saves state object (state.runStages object session stages) := by
  induction stages with
  | nil =>
      exact ⟨state, { session with status := .completed, currentStage := none }, .refl state,
        by simp, rfl⟩
  | cons stage rest ih =>
      simp only [runStages]
      split
      · exact ih
      · exact ⟨state, { session with currentStage := some stage.value }, .refl state, hstatus, rfl⟩

theorem failStage_saves (error : String) :
    Saves state object (state.failStage object session error) :=
  ⟨state, { session with status := .failed, error := some error }, .refl state, by simp, rfl⟩

theorem finishStage_saves (hstatus : session.status ≠ .cancelled) (stage : DevStage)
    (artifact : String) : Saves state object (state.finishStage object session stage artifact) :=
  ⟨state, { session with artifacts := session.artifacts.set stage.value artifact }, .refl state,
    hstatus, rfl⟩

theorem deploy_saves (hstatus : session.status ≠ .cancelled) (disk : Disk) :
    Saves state object (state.deploy object session disk) := by
  have htouch := (SameBut.refl state).touch (deployFiles disk session.artifacts).1.touched
  unfold State.deploy
  simp only
  split
  · exact (finishStage_saves hstatus _ _).mono htouch
  · exact (failStage_saves _).mono htouch

-- A call of run that goes on starts a stage or saves its object.
theorem Segment.effect {reached : State × Point} (h : Segment state object session reached)
    (hstatus : session.status ≠ .cancelled) :
    (∃ stage, reached.1 = state.startStage stage) ∨ Saves state object reached := by
  cases h with
  | execute stage disk =>
      unfold State.execute
      simp only
      split
      · exact .inr ((deploy_saves hstatus disk).mono ((SameBut.refl state).startStage stage))
      · exact .inl ⟨stage, rfl⟩
  | proceed stage =>
      unfold State.proceed
      split
      · exact .inr ⟨state, { session with status := .paused }, .refl state, by simp, rfl⟩
      · exact .inr (runStages_saves hstatus _)
  | endStage stage result =>
      unfold State.endStage
      split
      · exact .inr (failStage_saves _)
      · exact .inr (finishStage_saves hstatus stage _)

end Segments

section Steps

theorem mem_addRun {reached : State × Point} {run : Run}
    (h : run ∈ (addRun object reached).runs) : run ∈ reached.1.runs ∨ run.object = object := by
  rcases List.mem_append.mp h with hold | hnew
  · exact .inl hold
  · exact .inr (by rw [List.mem_singleton.mp hnew])

theorem mem_moveRun {reached : State × Point} {index : Nat} {run : Run}
    (h : run ∈ (moveRun index object reached).runs) :
    run ∈ reached.1.runs ∨ run.object = object := by
  rcases List.mem_or_eq_of_mem_set h with hold | hnew
  · exact .inl hold
  · exact .inr (by rw [hnew])

theorem Saves.live {reached : State × Point} (h : Saves state object reached) {other : Nat}
    (hsession : state.session? object = some session) (hother : Live state other ∨ other = object) :
    Live reached.1 other := by
  obtain ⟨base, saved, hbase, hstatus, heq⟩ := h
  have hlt : object < state.objects.length := (List.getElem?_eq_some_iff.mp hsession).1
  have hget : reached.1.session? other =
      if object = other then some saved else state.session? other := by
    rw [heq, State.session?, saveSession, hbase.objects, List.getElem?_set]
    simp only [hlt, if_true, State.session?]
  by_cases hsame : object = other
  · exact ⟨saved, by rw [hget, if_pos hsame], hstatus⟩
  · obtain ⟨found, hfound, hlive⟩ := hother.resolve_right (Ne.symm hsame)
    exact ⟨found, by rw [hget, if_neg hsame, hfound], hlive⟩

-- Nothing is kept before the first cancel.
theorem Saves.running {reached : State × Point} (h : Saves state object reached)
    (hsafe : Running state) (hbefore : state.cancelled = false) :
    StaysCancelled reached.1 := by
  obtain ⟨base, saved, hbase, -, heq⟩ := h
  rw [heq, hbase.before hbefore]
  refine ⟨fun hcancelled => ?_, hsafe.stays.started, hsafe.stays.touched⟩
  rw [show (state.saveSession object saved).cancelled = state.cancelled from rfl, hbefore]
    at hcancelled
  cases hcancelled

theorem Saves.not_stays {reached : State × Point} (h : Saves state object reached)
    (hcancelled : state.cancelled = true) : ¬ StaysCancelled reached.1 := by
  obtain ⟨base, saved, hbase, hstatus, heq⟩ := h
  rw [heq]
  intro hstays
  exact hstatus (Option.some.inj (hstays.stored (hbase.cancelled.trans hcancelled)))

theorem runStages_saveSession {earlier : DevSession} (stages : List DevStage) :
    (state.saveSession object earlier).runStages object session stages =
      state.runStages object session stages := by
  induction stages with
  | nil => simp [runStages, saveSession]
  | cons stage rest ih =>
      simp only [runStages, ih]
      split
      · rfl
      · simp [saveSession]

theorem run_eq : state.run object session = addRun object
    (state.runStages object { session with status := .running } STAGE_ORDER) := by
  rw [State.run, runStages_saveSession]

theorem run_saves : Saves state object
    (state.runStages object { session with status := .running } STAGE_ORDER) :=
  runStages_saves (by simp) STAGE_ORDER

theorem Saves.runs {reached : State × Point} (h : Saves state object reached) :
    reached.1.runs = state.runs := by
  obtain ⟨base, saved, hbase, -, heq⟩ := h
  rw [heq]
  exact hbase.runs

theorem Running.run (h : Running state) (hsession : state.session? object = some session)
    (hbefore : state.cancelled = false) : Running (state.run object session) := by
  have hsaves := @run_saves state object session
  have hstays := hsaves.running h hbefore
  rw [run_eq]
  refine ⟨⟨hstays.stored, hstays.started, hstays.touched⟩, fun run hrun => ?_⟩
  refine hsaves.live hsession ((mem_addRun hrun).imp_left fun hold => ?_)
  rw [hsaves.runs] at hold
  exact h.live run hold

theorem Running.resume (h : Running state) : Running state.resume := by
  unfold State.resume
  cases hstored : state.loadSession with
  | none => exact h
  | some session =>
      simp only
      split
      · rename_i hstatus
        -- a cancelled row is neither paused nor failed
        have hbefore : state.cancelled = false := by
          cases hcancelled : state.cancelled with
          | false => rfl
          | true =>
              have hrow := h.stays.stored hcancelled
              rw [show state.stored = some session from hstored] at hrow
              rw [Option.some.inj hrow] at hstatus
              simp at hstatus
        refine Running.run ⟨⟨h.stays.stored, h.stays.started, h.stays.touched⟩, ?_⟩ ?_ hbefore
        · intro run hrun
          obtain ⟨found, hfound, hlive⟩ := h.live run hrun
          refine ⟨found, ?_, hlive⟩
          rw [State.session?, List.getElem?_append_left (List.getElem?_eq_some_iff.mp hfound).1]
          exact hfound
        · simp [State.session?]
      · exact h

theorem Running.cancel (h : Running state) : Running state.cancel := by
  unfold State.cancel
  cases state.loadSession with
  | none => exact h
  | some session => exact ⟨⟨fun _ => rfl, h.stays.started, h.stays.touched⟩, h.live⟩

-- A call of run that goes on before the first cancel.
theorem Running.moveRun (h : Running state) (hbefore : state.cancelled = false) {index : Nat}
    {point : Point} {reached : State × Point} (hrun : state.runs[index]? = some ⟨object, point⟩)
    (hsession : state.session? object = some session)
    (hsegment : Segment state object session reached) : Running (moveRun index object reached) := by
  obtain ⟨hindex, hmem⟩ := List.getElem?_eq_some_iff.mp hrun
  have hobject : Live state object := h.live ⟨object, point⟩ (hmem ▸ List.getElem_mem hindex)
  have hstatus : session.status ≠ .cancelled := by
    obtain ⟨found, hfound, hlive⟩ := hobject
    rw [hsession] at hfound
    rwa [Option.some.inj hfound]
  rcases hsegment.effect hstatus with ⟨stage, heq⟩ | hsaves
  · have hsame : reached.1 = state := by
      rw [heq, startStage, hbefore]
      simp
    refine ⟨⟨?_, ?_, ?_⟩, fun run hmem => ?_⟩
    · rw [State.moveRun, hsame]
      exact h.stays.stored
    · rw [State.moveRun, hsame]
      exact h.stays.started
    · rw [State.moveRun, hsame]
      exact h.stays.touched
    · have hin := mem_moveRun hmem
      rw [hsame] at hin
      have hlive : Live state run.object := hin.elim (h.live run) fun heq => heq ▸ hobject
      rw [State.moveRun, hsame]
      exact hlive
  · have hstays := hsaves.running h hbefore
    refine ⟨⟨hstays.stored, hstays.started, hstays.touched⟩, fun run hmem => ?_⟩
    refine hsaves.live hsession ((mem_moveRun hmem).imp_left fun hold => ?_)
    rw [hsaves.runs] at hold
    exact h.live run hold

theorem Running.step (h : Running state) (hguard : LetsRest state event)
    (he : step state event = some next) : Running next := by
  rcases step_cases he with ⟨-, rfl⟩ | ⟨-, rfl⟩ | ⟨object, session, rfl, hsession, rfl⟩ |
    ⟨index, disk, object, result, rfl, hrun, rfl⟩ |
    ⟨index, object, point, session, reached, hrun, hsession, hsegment, rfl, hevent⟩
  · exact h.resume
  · exact h.cancel
  · exact h.run hsession hguard
  · refine ⟨⟨h.stays.stored, h.stays.started, h.stays.touched⟩, fun run hmem => ?_⟩
    rcases mem_moveRun hmem with hold | heq
    · exact h.live run hold
    · obtain ⟨hindex, hmem⟩ := List.getElem?_eq_some_iff.mp hrun
      have hobject : Live state object := h.live ⟨object, _⟩ (hmem ▸ List.getElem_mem hindex)
      exact heq ▸ hobject
  · refine h.moveRun ?_ hrun hsession hsegment
    rcases hevent with ⟨result, rfl⟩ | ⟨⟨disk, rfl⟩, hpoint⟩
    · exact hguard
    · cases hcancelled : state.cancelled with
      | false => rfl
      | true =>
          obtain ⟨other, result, hleaving⟩ := hguard hcancelled
          rw [hrun] at hleaving
          exact absurd (congrArg Run.point (Option.some.inj hleaving)) (hpoint result)

theorem letsRest_of_step (h : Running state) (he : step state event = some next)
    (hnext : StaysCancelled next) : LetsRest state event := by
  rcases step_cases he with ⟨rfl, -⟩ | ⟨rfl, -⟩ | ⟨object, session, rfl, hsession, rfl⟩ |
    ⟨index, disk, object, result, rfl, hrun, -⟩ |
    ⟨index, object, point, session, reached, hrun, hsession, hsegment, rfl, hevent⟩
  · trivial
  · trivial
  · rw [run_eq] at hnext
    refine Bool.eq_false_iff.mpr fun hcancelled => ?_
    exact run_saves.not_stays hcancelled ⟨hnext.stored, hnext.started, hnext.touched⟩
  · exact fun _ => ⟨object, result, hrun⟩
  · have hbefore : state.cancelled = false := by
      refine Bool.eq_false_iff.mpr fun hcancelled => ?_
      obtain ⟨hindex, hmem⟩ := List.getElem?_eq_some_iff.mp hrun
      obtain ⟨found, hfound, hstatus⟩ := h.live ⟨object, point⟩ (hmem ▸ List.getElem_mem hindex)
      rw [hsession] at hfound
      rw [← Option.some.inj hfound] at hstatus
      rcases hsegment.effect hstatus with ⟨stage, heq⟩ | hsaves
      · have hstarted : reached.1.startedLate = [] := hnext.started
        rw [heq, startStage, if_pos hcancelled] at hstarted
        simp at hstarted
      · exact hsaves.not_stays hcancelled ⟨hnext.stored, hnext.started, hnext.touched⟩
    rcases hevent with ⟨result, rfl⟩ | ⟨⟨disk, rfl⟩, -⟩
    · exact hbefore
    · intro hcancelled
      rw [hbefore] at hcancelled
      cases hcancelled

theorem running_initial (session : DevSession) : Running (initial session) :=
  ⟨⟨nofun, rfl, rfl⟩, nofun⟩

-- A session stays cancelled exactly when, once a cancel has returned True, run is not called and
-- no call of run that is waiting goes on, but for the one that only has to return.
theorem staysCancelled_iff_letsRest (session : DevSession) (events : List Event) :
    Always step StaysCancelled (initial session) events ↔
      Along step LetsRest (initial session) events :=
  always_iff_along Running (fun _ _ _ h hguard he => h.step hguard he) (fun _ h => h.stays)
    (fun _ _ _ h he hnext => letsRest_of_step h he hnext) (running_initial session)

end Steps

section Examples

def asked : DevSession :=
  start "tg:1" "dev_1700000000_0a1b2c" "Add a metrics endpoint" .auto

-- Every path is its own resolution, and a write works unless a file is in its way.
def plainDisk : Disk where
  base := ⟨.slash, ["app".toList]⟩
  resolve := fun path => .ok path.normalise
  write := fun stored target _ =>
    if Clear stored target then .ok () else .error ("Not a directory", none)
  repr := id

-- A stage with its two notifications.
def stageEvents (text : String) : List Event :=
  [.notified 0 plainDisk, .executed 0 (some text), .notified 0 plainDisk]

-- The cancel comes while the notification that the deploy stage starts is sent.
def lateCancel : List Event :=
  [.run 0] ++ stageEvents "requirements" ++ stageEvents "design" ++
    stageEvents "--- FILE: host/metrics.py ---\nimport time\n--- END FILE ---" ++
    stageEvents "tests" ++ stageEvents "## Overall Assessment\nPASS" ++ stageEvents "readme" ++
    [.cancel, .notified 0 plainDisk, .notified 0 plainDisk]

theorem cancelled_session_deployed :
    ¬ Always step StaysCancelled (initial asked) lateCancel ∧
    ∃ final, run step (initial asked) lateCancel = some final ∧ final.cancelled = true ∧
      final.stored.map DevSession.status = some .completed ∧ final.startedLate = [.DEPLOY] ∧
      final.touchedLate = [⟨.slash, ["app".toList, "host".toList, "metrics.py".toList]⟩] := by
  have hrun : ∃ final, run step (initial asked) lateCancel = some final ∧ final.cancelled = true ∧
      final.stored.map DevSession.status = some .completed ∧ final.startedLate = [.DEPLOY] ∧
      final.touchedLate = [⟨.slash, ["app".toList, "host".toList, "metrics.py".toList]⟩] := by
    refine ⟨_, rfl, ?_⟩
    decide +kernel
  refine ⟨fun halways => ?_, hrun⟩
  obtain ⟨final, hfinal, hcancelled, hstored, -⟩ := hrun
  have hstays := (halways.reached hfinal).stored hcancelled
  rw [hstored] at hstays
  cases hstays

end Examples

end EvoClaw.DevEngine
