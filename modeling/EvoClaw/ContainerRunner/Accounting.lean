import EvoClaw.ContainerRunner.Framing
import EvoClaw.ContainerRunner.Model

namespace EvoClaw.ContainerRunner

open JsonText

variable {α β : Type} {faults : Call → Option Fault} {floatOf : List Char → BitVec 64}
  {group : Group} {ts : Int} {fields : Payload} {host after : Host} {made : Call} {fault : Fault}

namespace Script

-- The state in which a script ends, also by an exception.
def final (script : Script α) (host : Host) : Host :=
  match script host with
  | .ok _ after => after
  | .error _ after => after

-- Nothing is taken out of the history.
def Appends (script : Script α) : Prop :=
  ∀ host, host.calls <+: (script.final host).calls

theorem final_bind (script : Script α) (rest : α → Script β) (host : Host) :
    (script >>= rest).final host =
      match script host with
      | .ok a after => (rest a).final after
      | .error _ after => after := by
  cases h : script host <;> simp [final, bind, EStateM.bind, h]

theorem Appends.bind {script : Script α} {rest : α → Script β} (h : Appends script)
    (hrest : ∀ a, Appends (rest a)) : Appends (script >>= rest) := by
  intro host
  have hscript := h host
  rw [final_bind]
  unfold final at hscript
  cases hrun : script host with
  | ok a after =>
      rw [hrun] at hscript
      exact hscript.trans (hrest a after)
  | error fault after =>
      rw [hrun] at hscript
      exact hscript

theorem Appends.pure (a : α) : Appends (pure a) := fun _ => List.prefix_rfl

theorem Appends.throw (fault : Fault) : Appends (throw fault : Script α) :=
  fun _ => List.prefix_rfl

theorem Appends.get : Appends (get : Script Host) := fun _ => List.prefix_rfl

theorem Appends.modify {change : Host → Host} (h : ∀ host, (change host).calls = host.calls) :
    Appends (modify change : Script Unit) := by
  intro host
  change host.calls <+: (change host).calls
  rw [h]

theorem Appends.note (made : Call) : Appends (note made) :=
  fun host => List.prefix_append host.calls [made]

theorem Appends.call (faults : Call → Option Fault) (made : Call) :
    Appends (call faults made) := by
  refine (Appends.note made).bind fun _ => ?_
  split
  · exact Appends.pure ()
  · exact Appends.throw _

theorem final_tryCatch (script : Script α) (handler : Fault → Script α) (host : Host) :
    (tryCatch script handler).final host =
      match script host with
      | .ok _ after => after
      | .error fault after => (handler fault).final after := by
  cases h : script host with
  | ok a after => simp [final, tryCatch, tryCatchThe, MonadExceptOf.tryCatch, EStateM.tryCatch, h]
  | error fault after =>
      simp only [final, tryCatch, tryCatchThe, MonadExceptOf.tryCatch, EStateM.tryCatch, h]
      rfl

theorem Appends.tryCatch {script : Script α} {handler : Fault → Script α} (h : Appends script)
    (hhandler : ∀ fault, Appends (handler fault)) : Appends (tryCatch script handler) := by
  intro host
  have hscript := h host
  rw [final_tryCatch]
  unfold final at hscript
  cases hrun : script host with
  | ok a after =>
      rw [hrun] at hscript
      exact hscript
  | error fault after =>
      rw [hrun] at hscript
      exact hscript.trans (hhandler fault after)

theorem Appends.quietly (faults : Call → Option Fault) (made : Call) :
    Appends (quietly faults made) :=
  (Appends.call faults made).tryCatch fun _ => Appends.pure ()

theorem mem_bind {script : Script α} {rest : α → Script β} (h : made ∈ (script.final host).calls)
    (hrest : ∀ a, Appends (rest a)) : made ∈ ((script >>= rest).final host).calls := by
  rw [final_bind]
  unfold final at h
  cases hrun : script host with
  | ok a after =>
      rw [hrun] at h
      exact (hrest a after).subset h
  | error fault after =>
      rw [hrun] at h
      exact h

theorem mem_tryCatch {script : Script α} {handler : Fault → Script α}
    (h : made ∈ (script.final host).calls) (hhandler : ∀ fault, Appends (handler fault)) :
    made ∈ ((tryCatch script handler).final host).calls := by
  rw [final_tryCatch]
  unfold final at h
  cases hrun : script host with
  | ok a after =>
      rw [hrun] at h
      exact h
  | error fault after =>
      rw [hrun] at h
      exact (hhandler fault after).subset h

theorem run_bind_ok {script : Script α} {rest : α → Script β} {a : α}
    (h : script host = .ok a after) : (script >>= rest) host = rest a after := by
  simp [bind, EStateM.bind, h]

theorem run_bind_error {script : Script α} {rest : α → Script β}
    (h : script host = .error fault after) : (script >>= rest) host = .error fault after := by
  simp [bind, EStateM.bind, h]

theorem run_tryCatch_ok {script : Script α} {handler : Fault → Script α} (a : α) (after : Host)
    (h : script host = .ok a after) : (tryCatch script handler) host = .ok a after := by
  simp [tryCatch, tryCatchThe, MonadExceptOf.tryCatch, EStateM.tryCatch, h]

theorem run_tryCatch_error {script : Script α} {handler : Fault → Script α}
    (h : script host = .error fault after) :
    (tryCatch script handler) host = handler fault after := by
  simp only [tryCatch, tryCatchThe, MonadExceptOf.tryCatch, EStateM.tryCatch, h]
  rfl

end Script

def Host.add (host : Host) (new : List Call) : Host :=
  { host with calls := host.calls ++ new }

@[simp] theorem Host.add_add (host : Host) (new later : List Call) :
    (host.add new).add later = host.add (new ++ later) := by
  simp [Host.add]

theorem call_ok (h : faults made = none) : call faults made host = .ok () (host.add [made]) := by
  have hnote : note made host = .ok () (host.add [made]) := rfl
  unfold call
  rw [Script.run_bind_ok hnote, h]
  rfl

theorem call_error (h : faults made = some fault) :
    call faults made host = .error fault (host.add [made]) := by
  have hnote : note made host = .ok () (host.add [made]) := rfl
  unfold call
  rw [Script.run_bind_ok hnote, h]
  rfl

theorem quietly_ok (faults : Call → Option Fault) (made : Call) (host : Host) :
    quietly faults made host = .ok () (host.add [made]) := by
  unfold quietly
  cases h : faults made with
  | none =>
      simp only [tryCatch, tryCatchThe, MonadExceptOf.tryCatch, EStateM.tryCatch, call_ok h]
  | some fault =>
      simp only [tryCatch, tryCatchThe, MonadExceptOf.tryCatch, EStateM.tryCatch, call_error h]
      rfl

-- A call that neither settles the outcome nor tells anybody of it.
def Call.Silent : Call → Prop
  | .recordRun _ => True
  | .logContainerFinish _ => True
  | .setSession _ _ => True
  | .updateHotMemory _ => True
  | .recordDockerSuccess _ => False
  | .recordDockerFailure _ => False
  | .onSuccess => False
  | .setState _ => False
  | .onOutput _ => False
  | .onError _ => False
  | .userHint => False

theorem updateMemory_ok (faults : Call → Option Fault) (fields : Payload) (host : Host) :
    ∃ new, updateMemory faults fields host = .ok () (host.add new) ∧
      ∀ made ∈ new, made.Silent := by
  have hnone : (pure () : Script Unit) host = .ok () (host.add []) := by
    simp [Host.add, pure, EStateM.pure]
  unfold updateMemory
  cases fields.get "memory_patch" .null with
  | str patch =>
      by_cases hpatch : patch ≠ ""
      · exact ⟨[.updateHotMemory patch], by simp only [if_pos hpatch, quietly_ok],
          by simp [Call.Silent]⟩
      · exact ⟨[], by simp only [if_neg hpatch, hnone], by simp⟩
  | null | bool _ | int _ | float _ | arr _ | obj _ => exact ⟨[], hnone, by simp⟩

-- What the database raises for the session of a dictionary.
def sessionFault (faults : Call → Option Fault) (group : Group) (fields : Payload) :
    Option Fault :=
  if (fields.get "newSessionId" .null).truthy then
    faults (.setSession group.folder (fields.get "newSessionId" .null))
  else none

theorem recordSession_ok (h : sessionFault faults group fields = none) (host : Host) :
    ∃ new, recordSession faults group fields host = .ok () (host.add new) ∧
      ∀ made ∈ new, made.Silent := by
  unfold sessionFault at h
  unfold recordSession
  split_ifs at h ⊢
  · exact ⟨_, call_ok h, by simp [Call.Silent]⟩
  · exact ⟨[], by simp [Host.add, pure, EStateM.pure], by simp⟩

theorem recordSession_error (h : sessionFault faults group fields = some fault) (host : Host) :
    ∃ new, recordSession faults group fields host = .error fault (host.add new) ∧
      ∀ made ∈ new, made.Silent := by
  unfold sessionFault at h
  unfold recordSession
  split_ifs at h ⊢
  exact ⟨_, call_error h, by simp [Call.Silent]⟩

-- What it raises before the run counts as a success of docker.
def accountingFault (faults : Call → Option Fault) (group : Group) (fields : Payload) :
    Option Fault :=
  (sessionFault faults group fields).or (faults (.logContainerFinish "success"))

theorem accepted_error (h : accountingFault faults group fields = some fault) (ts : Int)
    (host : Host) :
    ∃ new, accepted faults group ts fields host = .error fault (host.add new) ∧
      ∀ made ∈ new, made.Silent := by
  obtain ⟨memory, hmemory, hsilent⟩ := updateMemory_ok faults fields host
  unfold accepted
  rw [Script.run_bind_ok hmemory]
  unfold accountingFault at h
  cases hsession : sessionFault faults group fields with
  | some raised =>
      rw [hsession] at h
      cases h
      obtain ⟨session, herror, hsilent'⟩ := recordSession_error hsession (host.add memory)
      refine ⟨memory ++ session, by rw [Script.run_bind_error herror, Host.add_add], ?_⟩
      intro made hmade
      exact (List.mem_append.mp hmade).elim (hsilent made) (hsilent' made)
  | none =>
      rw [hsession, Option.none_or] at h
      obtain ⟨session, hok, hsilent'⟩ := recordSession_ok hsession (host.add memory)
      rw [Script.run_bind_ok hok]
      unfold succeeded
      rw [Script.run_bind_ok (quietly_ok ..), Script.run_bind_error (call_error h)]
      simp only [Host.add_add]
      refine ⟨_, rfl, fun made hmade => ?_⟩
      simp only [List.mem_append, List.mem_singleton] at hmade
      rcases hmade with ((hmade | hmade) | rfl) | rfl
      · exact hsilent made hmade
      · exact hsilent' made hmade
      · trivial
      · trivial

namespace Script

theorem appends_advance : Appends (advance faults group ts) := by
  unfold advance
  refine (Appends.modify (by intro host; rfl)).bind fun _ => (Appends.call _ _).bind fun _ =>
    Appends.get.bind fun host => ?_
  split_ifs
  · exact (Appends.modify (by intro host; rfl)).bind fun _ => Appends.call _ _
  · exact Appends.pure ()

theorem appends_onSuccess : Appends (onSuccess faults group ts) :=
  (Appends.note _).bind fun _ => (Appends.modify (by intro host; rfl)).bind fun _ => appends_advance

theorem appends_recordDockerFailure : Appends (recordDockerFailure group) :=
  (Appends.note _).bind fun _ => Appends.modify (by intro host; rfl)

theorem appends_handled (fault : Fault) : Appends (handled faults group fault) := by
  unfold handled
  refine (Appends.quietly _ _).bind fun _ => ?_
  cases fault with
  | timeout | other =>
      exact (Appends.call _ _).bind fun _ => appends_recordDockerFailure.bind fun _ =>
        (Appends.quietly _ _).bind fun _ => Appends.pure _

theorem appends_countFailure : Appends (countFailure group) :=
  Appends.modify (by intro host; rfl)

end Script

-- Otherwise the run is a success of docker, whatever happens later.
theorem accepted_success (h : accountingFault faults group fields = none) (host : Host) :
    .recordDockerSuccess group.folder ∈ ((accepted faults group ts fields).final host).calls := by
  obtain ⟨hsession, hlog⟩ := Option.or_eq_none_iff.mp h
  obtain ⟨memory, hmemory, -⟩ := updateMemory_ok faults fields host
  obtain ⟨session, hok, -⟩ := recordSession_ok hsession (host.add memory)
  have hrun : accepted faults group ts fields host =
      (do
        recordDockerSuccess group
        onSuccess faults group ts
        let text := fields.get "result" .null
        if text.truthy then call faults (.onOutput text)
        return fields) (((host.add memory).add session).add
          [.recordRun true] |>.add [.logContainerFinish "success"]) := by
    unfold accepted
    rw [Script.run_bind_ok hmemory, Script.run_bind_ok hok]
    unfold succeeded
    rw [Script.run_bind_ok (quietly_ok ..), Script.run_bind_ok (call_ok hlog)]
  unfold Script.final
  rw [hrun]
  have hrecord (host : Host) : Call.recordDockerSuccess group.folder ∈
      ((recordDockerSuccess group).final host).calls :=
    List.mem_append_right _ (List.mem_singleton.mpr rfl)
  refine Script.mem_bind (hrecord _) fun _ => Script.appends_onSuccess.bind fun _ => ?_
  · simp only
    split_ifs
    · exact (Script.Appends.call _ _).bind fun _ => Script.Appends.pure _
    · exact Script.Appends.pure _

-- The status that the handler of an exception writes to the log.
def handlerStatus : Fault → String
  | .timeout => "timeout"
  | .other => "error"

-- A handler whose log can be written reports an error and counts it for docker.
theorem handled_ok (group : Group)
    (h : faults (.logContainerFinish (handlerStatus fault)) = none) (host : Host) :
    ∃ result notice after, handled faults group fault host = .ok result after ∧
      result.get "status" .null = .str "error" ∧
      after.calls = host.calls ++ [.recordRun false, .logContainerFinish (handlerStatus fault),
        .recordDockerFailure group.folder, .onError notice] ∧
      after.failCounts = host.failCounts ∧ after.cursors = host.cursors ∧
      after.runSucceeded = host.runSucceeded := by
  have hdocker (host : Host) : ∃ docker, recordDockerFailure group host =
      .ok () { host.add [.recordDockerFailure group.folder] with dockerFailures := docker } :=
    ⟨_, rfl⟩
  unfold handled
  rw [Script.run_bind_ok (quietly_ok ..)]
  cases fault with
  | timeout =>
      change faults (.logContainerFinish "timeout") = none at h
      obtain ⟨docker, hrun⟩ := hdocker ((host.add [.recordRun false]).add
        [.logContainerFinish "timeout"])
      simp only
      rw [Script.run_bind_ok (call_ok h), Script.run_bind_ok hrun,
        Script.run_bind_ok (quietly_ok ..)]
      exact ⟨_, .timedOut, _, rfl, rfl, by simp [Host.add, handlerStatus], rfl, rfl, rfl⟩
  | other =>
      change faults (.logContainerFinish "error") = none at h
      obtain ⟨docker, hrun⟩ := hdocker ((host.add [.recordRun false]).add
        [.logContainerFinish "error"])
      simp only
      rw [Script.run_bind_ok (call_ok h), Script.run_bind_ok hrun,
        Script.run_bind_ok (quietly_ok ..)]
      exact ⟨_, .raised, _, rfl, rfl, by simp [Host.add, handlerStatus], rfl, rfl, rfl⟩

-- Otherwise it raises before anybody hears of the error.
theorem handled_error {second : Fault}
    (h : faults (.logContainerFinish (handlerStatus fault)) = some second) (host : Host) :
    handled faults group fault host =
      .error second (host.add [.recordRun false, .logContainerFinish (handlerStatus fault)]) := by
  unfold handled
  rw [Script.run_bind_ok (quietly_ok ..)]
  cases fault with
  | timeout =>
      change faults (.logContainerFinish "timeout") = some second at h
      simp only
      rw [Script.run_bind_error (call_error h), Host.add_add]
      rfl
  | other =>
      change faults (.logContainerFinish "error") = some second at h
      simp only
      rw [Script.run_bind_error (call_error h), Host.add_add]
      rfl

-- The claim on a failure that the agent reports, for one run of _process_group_messages.
structure AccountedAsFailure (group : Group) (before after : Host) : Prop where
  noSuccess : Call.onSuccess ∉ after.calls
  noDockerSuccess : Call.recordDockerSuccess group.folder ∉ after.calls
  notified : ∃ notice, Call.onError notice ∈ after.calls
  cursor : after.cursors = before.cursors
  counted : after.failCounts group.jid = some ((before.failCounts group.jid).getD 0 + 1)

theorem runContainerAgent_result {stdout : List Char} {exitCode : Option Int}
    (hresult : Output.ofStdout floatOf stdout = .result fields) :
    runContainerAgent faults floatOf group ts (.collected stdout exitCode) =
      tryCatch (accepted faults group ts fields) (handled faults group) := by
  unfold runContainerAgent collectedOutput
  simp only [hresult]

def Host.begun (host : Host) : Host :=
  { host with runSucceeded := false, calls := [] }

def Host.counted (host : Host) (jid : String) : Host :=
  { host with
    failCounts := Function.update host.failCounts jid (some ((host.failCounts jid).getD 0 + 1)) }

theorem processGroupMessages_begun {container : Container} :
    (processGroupMessages faults floatOf group ts container).final host =
      (tryCatch
        (do
          let result ← runContainerAgent faults floatOf group ts container
          if (← get).runSucceeded = false ∧ result.get "status" .null = .str "error" then
            countFailure group
            quietly faults .userHint)
        fun fault =>
          match fault with
          | .timeout => do
              countFailure group
              quietly faults .userHint
          | .other => throw .other : Script Unit).final host.begun := by
  unfold processGroupMessages
  rw [Script.final_bind]
  rfl

theorem countFailure_hint (host : Host) :
    (do countFailure group; quietly faults .userHint : Script Unit) host =
      .ok () ((host.counted group.jid).add [.userHint]) := by
  have hcount : countFailure group host = .ok () (host.counted group.jid) := rfl
  rw [Script.run_bind_ok hcount, quietly_ok]

-- A result with the status of an error counts, unless on_success has been called.
theorem processGroupMessages_ok {container : Container} {result : Payload}
    (hrun : runContainerAgent faults floatOf group ts container host.begun = .ok result after)
    (hstatus : result.get "status" .null = .str "error") (hflag : after.runSucceeded = false) :
    (processGroupMessages faults floatOf group ts container).final host =
      (after.counted group.jid).add [.userHint] := by
  have hget : (get : Script Host) after = .ok after after := rfl
  rw [processGroupMessages_begun]
  unfold Script.final
  rw [Script.run_tryCatch_ok () ((after.counted group.jid).add [.userHint])]
  rw [Script.run_bind_ok hrun, Script.run_bind_ok hget, if_pos ⟨hflag, hstatus⟩,
    countFailure_hint]

theorem processGroupMessages_error {container : Container}
    (hrun : runContainerAgent faults floatOf group ts container host.begun = .error fault after) :
    ∃ new, ((processGroupMessages faults floatOf group ts container).final host).calls =
      after.calls ++ new ∧ ∀ notice, Call.onError notice ∉ new := by
  rw [processGroupMessages_begun]
  unfold Script.final
  rw [Script.run_tryCatch_error (Script.run_bind_error hrun)]
  cases fault with
  | timeout =>
      simp only [countFailure_hint]
      exact ⟨[.userHint], rfl, by simp⟩
  | other => exact ⟨[], (List.append_nil _).symm, by simp⟩

theorem Call.Silent.not_told (h : made.Silent) :
    made ≠ .onSuccess ∧ (∀ folder, made ≠ .recordDockerSuccess folder) ∧
      ∀ notice, made ≠ .onError notice := by
  refine ⟨?_, fun folder => ?_, fun notice => ?_⟩ <;> rintro rfl <;> exact h

section Dictionary

variable {faults : Call → Option Fault} {floatOf : List Char → BitVec 64} {group : Group}
  {ts : Int} {host : Host} {fields : Payload} {stdout : List Char} {exitCode : Option Int}
  {fault : Fault}

-- Docker's success is in the history, and nothing takes it out.
theorem not_accounted_of_accepted
    (hresult : Output.ofStdout floatOf stdout = .result fields)
    (hfault : accountingFault faults group fields = none) :
    ¬AccountedAsFailure group host
      ((processGroupMessages faults floatOf group ts (.collected stdout exitCode)).final host) := by
  refine fun h => absurd ?_ h.noDockerSuccess
  rw [processGroupMessages_begun, runContainerAgent_result hresult]
  refine Script.mem_tryCatch (Script.mem_bind (Script.mem_tryCatch
    (accepted_success hfault host.begun) fun _ => Script.appends_handled _) ?_) ?_
  · intro result
    refine Script.Appends.get.bind fun host => ?_
    split_ifs
    · exact Script.appends_countFailure.bind fun _ => Script.Appends.quietly _ _
    · exact Script.Appends.pure _
  · intro fault
    cases fault with
    | timeout => exact Script.appends_countFailure.bind fun _ => Script.Appends.quietly _ _
    | other => exact Script.Appends.throw _

-- The handler comes to its end: the run, the log, docker and the failures of the group know.
theorem accounted_of_logged (hresult : Output.ofStdout floatOf stdout = .result fields)
    (hfault : accountingFault faults group fields = some fault)
    (hlog : faults (.logContainerFinish (handlerStatus fault)) = none) :
    AccountedAsFailure group host
      ((processGroupMessages faults floatOf group ts (.collected stdout exitCode)).final host) := by
  obtain ⟨new, herror, hsilent⟩ := accepted_error hfault ts host.begun
  obtain ⟨result, notice, after, hok, hstatus, hcalls, hcounts, hcursors, hflag⟩ :=
    handled_ok group hlog (host.begun.add new)
  have hrun : runContainerAgent faults floatOf group ts (.collected stdout exitCode)
      host.begun = .ok result after := by
    rw [runContainerAgent_result hresult, Script.run_tryCatch_error herror, hok]
  rw [processGroupMessages_ok hrun hstatus hflag]
  have hall : ((after.counted group.jid).add [.userHint]).calls =
      new ++ [.recordRun false, .logContainerFinish (handlerStatus fault),
        .recordDockerFailure group.folder, .onError notice, .userHint] := by
    change after.calls ++ [.userHint] = _
    rw [hcalls]
    simp [Host.begun, Host.add]
  refine ⟨?_, ?_, ⟨notice, ?_⟩, hcursors, ?_⟩
  · rw [hall, List.mem_append, not_or]
    exact ⟨fun h => (hsilent _ h).not_told.1 rfl, by simp⟩
  · rw [hall, List.mem_append, not_or]
    exact ⟨fun h => (hsilent _ h).not_told.2.1 _ rfl, by simp⟩
  · rw [hall]
    simp
  · change (after.counted group.jid).failCounts group.jid = _
    simp [Host.counted, hcounts, Host.begun, Host.add]

-- The handler fails at its log, before anyone is told.
theorem not_accounted_of_unlogged {second : Fault}
    (hresult : Output.ofStdout floatOf stdout = .result fields)
    (hfault : accountingFault faults group fields = some fault)
    (hlog : faults (.logContainerFinish (handlerStatus fault)) = some second) :
    ¬AccountedAsFailure group host
      ((processGroupMessages faults floatOf group ts (.collected stdout exitCode)).final host) := by
  obtain ⟨new, herror, hsilent⟩ := accepted_error hfault ts host.begun
  have hrun : runContainerAgent faults floatOf group ts (.collected stdout exitCode)
      host.begun = .error second ((host.begun.add new).add
        [.recordRun false, .logContainerFinish (handlerStatus fault)]) := by
    rw [runContainerAgent_result hresult, Script.run_tryCatch_error herror, handled_error hlog]
  obtain ⟨later, hcalls, hnot⟩ := processGroupMessages_error hrun
  intro h
  obtain ⟨notice, hnotice⟩ := h.notified
  rw [hcalls] at hnotice
  simp only [Host.begun, Host.add, List.nil_append, List.mem_append] at hnotice
  rcases hnotice with (hnotice | hnotice) | hnotice
  · exact (hsilent _ hnotice).not_told.2.2 _ rfl
  · simp at hnotice
  · exact hnot _ hnotice

end Dictionary

-- A dictionary is accounted as a failure only by an exception of the database before docker's
-- success is recorded, and only if the handler of the exception can write its log.
theorem failure_accounted_iff (faults : Call → Option Fault) (floatOf : List Char → BitVec 64)
    (group : Group) (ts : Int) (host : Host) (fields : Payload) (stdout : List Char)
    (exitCode : Option Int) (hresult : Output.ofStdout floatOf stdout = .result fields) :
    AccountedAsFailure group host
        ((processGroupMessages faults floatOf group ts (.collected stdout exitCode)).final host) ↔
      ∃ fault, accountingFault faults group fields = some fault ∧
        faults (.logContainerFinish (handlerStatus fault)) = none := by
  cases hfault : accountingFault faults group fields with
  | none =>
      refine iff_of_false (not_accounted_of_accepted hresult hfault) ?_
      rintro ⟨fault, hsome, -⟩
      cases hsome
  | some fault =>
      cases hlog : faults (.logContainerFinish (handlerStatus fault)) with
      | none => exact iff_of_true (accounted_of_logged hresult hfault hlog) ⟨fault, rfl, hlog⟩
      | some second =>
          refine iff_of_false (not_accounted_of_unlogged hresult hfault hlog) ?_
          rintro ⟨_, ⟨⟩, hnone⟩
          rw [hlog] at hnone
          cases hnone

-- What the exception handler of the agent's main() emits.
def errorReply : Payload :=
  [("status", .str "error"), ("result", .null), ("error", .str "ValueError: no such tool")]

theorem errorReply_read :
    Output.ofStdout (fun _ => 0) (frame (dumps (fun _ => []) (.obj errorReply))) =
      .result errorReply := by
  refine result_of_clean [] ?_ ?_ ?_ ?_
  · simp [errorReply, Readable, ReadableFields]
  · decide +kernel
  · decide +kernel
  · decide +kernel

-- A log that cannot be written once turns it into a failure.
theorem errorReply_counted_after_locked_log :
    AccountedAsFailure ⟨"g", "team"⟩ {}
      ((processGroupMessages
        (fun | .logContainerFinish "success" => some .other | _ => none)
        (fun _ => 0) ⟨"g", "team"⟩ 7
        (.collected (frame (dumps (fun _ => []) (.obj errorReply))) (some 0))).final {}) :=
  (failure_accounted_iff _ _ _ _ _ errorReply _ _ errorReply_read).mpr ⟨.other, rfl, rfl⟩

-- Without an exception the reported error moves the cursor.
theorem errorReply_moves_cursor :
    ((processGroupMessages (fun _ => none) (fun _ => 0) ⟨"g", "team"⟩ 7
        (.collected (frame (dumps (fun _ => []) (.obj errorReply))) (some 0))).final {}).cursors
      "g" = some 7 ∧
    ¬ AccountedAsFailure ⟨"g", "team"⟩ {}
      ((processGroupMessages (fun _ => none) (fun _ => 0) ⟨"g", "team"⟩ 7
        (.collected (frame (dumps (fun _ => []) (.obj errorReply))) (some 0))).final {}) := by
  have hcursor : ((processGroupMessages (fun _ => none) (fun _ => 0) ⟨"g", "team"⟩ 7
      (.collected (frame (dumps (fun _ => []) (.obj errorReply))) (some 0))).final {}).cursors
      "g" = some 7 := by
    decide +kernel
  refine ⟨hcursor, fun h => ?_⟩
  rw [h.cursor] at hcursor
  cases hcursor

end EvoClaw.ContainerRunner
