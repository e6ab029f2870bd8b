import EvoClaw.Ipc.Jobs

namespace EvoClaw.Ipc

open Posix
open MessageLoop (Group)

-- DATA_DIR may be relative, and is read from the working directory.
def resultsRoot (settings : Settings) (cwd : AbsPath) (folder : Folder) : AbsPath :=
  (cwd.join (resultDir settings folder)).normalise

def ResultsContained (settings : Settings) (cwd : AbsPath) (folder : Folder)
    (effects : List Effect) : Prop :=
  ∀ path, Effect.writeResult path ∈ effects →
    IsAncestor (resultsRoot settings cwd folder) (cwd.join path).normalise

-- A request id is joined to the results folder as it comes. Its directories may climb, but
-- must enter what they leave.
def IdStays (runtime : Runtime) (settings : Settings) (cwd : AbsPath) (folder : Folder)
    (requestId : Json) : Prop :=
  let text := (requestId.format runtime.repr).toList
  StaysBelow (resultsRoot settings cwd folder) (rootOf text) (Path.folders text)

-- A response file is compared with the folder that the results folder resolves to.
def ResponseStays (runtime : Runtime) (settings : Settings) (cwd : AbsPath) (folder : Folder)
    (responseFile : Json) : Prop :=
  match responseFile with
  | .str text =>
      ∀ target resolved, runtime.resolve (resultDir settings folder) = some target →
        runtime.resolve (Path.parse text.toList) = some resolved → '\x00' ∉ text.toList →
        suffix resolved.name = ".json".toList → resolved.isRelativeTo target = true →
          resolved.isRelativeTo (resultsRoot settings cwd folder) = true
  | _ => True

-- What each type asks of the payload before it writes, and of the name that it writes to.
def ResultsStay (runtime : Runtime) (settings : Settings) (cwd : AbsPath) (host : Host)
    (folder : Folder) (isMain : Bool) (payload : Payload) : MsgType → Prop
  | .applySkill =>
      isMain = true → (payload.get "skill_path" (.str "")).truthy = true →
        (payload.get "requestId" (.str "")).truthy = true →
          IdStays runtime settings cwd folder (payload.get "requestId" (.str ""))
  | .uninstallSkill =>
      isMain = true → (payload.get "skill_name" (.str "")).truthy = true →
        (payload.get "requestId" (.str "")).truthy = true →
          IdStays runtime settings cwd folder (payload.get "requestId" (.str ""))
  | .listSkills =>
      (payload.get "requestId" (.str "")).truthy = true →
        IdStays runtime settings cwd folder (payload.get "requestId" (.str ""))
  | .spawnAgent =>
      (payload.get "requestId" (.str "")).truthy = true →
        (payload.get "prompt" (.str "")).truthy = true →
          IdStays runtime settings cwd folder (payload.get "requestId" (.str ""))
  | .memorySearch =>
      (payload.get "query" (.str "")).truthy = true →
        ((host.ownGroup folder).map Group.jid).getD "" ≠ "" →
        (payload.get "requestId" (.str "")).truthy = true →
          IdStays runtime settings cwd folder (payload.get "requestId" (.str ""))
  | .memoryRecall =>
      (payload.get "query" (.str "")).truthy = true →
        (payload.get "response_file" (.str "")).truthy = true →
          ResponseStays runtime settings cwd folder (payload.get "response_file" (.str ""))
  | .memoryRemember =>
      (payload.get "content" (.str "")).truthy = true →
        (payload.get "response_file" (.str "")).truthy = true →
          ResponseStays runtime settings cwd folder (payload.get "response_file" (.str ""))
  | _ => True

-- Surroundings in which every job runs to its end and can write what it likes.
def willing : Surroundings :=
  { groups := [], skill := .finished { success := true } false }

section Containment

variable {runtime : Runtime} {settings : Settings} {cwd : AbsPath} {host : Host}
  {around : Surroundings} {folder : Folder} {isMain : Bool} {payload : Payload}

@[simp] theorem resultsContained_nil : ResultsContained settings cwd folder [] := by
  simp [ResultsContained]

theorem resultsContained_append {first second : List Effect} :
    ResultsContained settings cwd folder (first ++ second) ↔
      ResultsContained settings cwd folder first ∧ ResultsContained settings cwd folder second := by
  simp only [ResultsContained, List.mem_append, or_imp, forall_and]

-- Whatever is routed writes no file.
theorem resultsContained_map_route (jid : Json) (texts : List String) :
    ResultsContained settings cwd folder (texts.map (route jid)) := by
  intro path hpath
  obtain ⟨text, -, heq⟩ := List.mem_map.mp hpath
  cases heq

theorem resultsContained_routeIfKnown (jid text : String) :
    ResultsContained settings cwd folder (routeIfKnown jid text) := by
  unfold routeIfKnown
  split_ifs
  · exact resultsContained_nil
  · exact resultsContained_map_route (.str jid) [text]

theorem resultsContained_writeFiles {tmp out : Path} (canWrite : Path → Bool)
    (htmp : IsAncestor (resultsRoot settings cwd folder) (cwd.join tmp).normalise)
    (hout : IsAncestor (resultsRoot settings cwd folder) (cwd.join out).normalise) :
    ResultsContained settings cwd folder (writeFiles canWrite tmp out) := by
  intro path hpath
  obtain ⟨written, hwritten, heq⟩ := List.mem_map.mp hpath
  cases heq
  have hmem := (List.takeWhile_sublist _).subset hwritten
  rcases List.mem_pair.mp hmem with rfl | rfl
  · exact htmp
  · exact hout

theorem writes_out (tmp out : Path) :
    Effect.writeResult out ∈ writeFiles (fun _ => true) tmp out := by
  simp [writeFiles]

theorem ne_dotdot_of_length {name : Name} (h : 2 < name.length) : name ≠ dotdot := by
  rintro rfl
  exact absurd h (by decide)

-- Both files lie in the directory that the request id names.
theorem resultFiles_eq (runtime : Runtime) (settings : Settings) (folder : Folder)
    (requestId : Json) :
    let text := (requestId.format runtime.repr).toList
    ∃ tmpName outName, tmpName ≠ dotdot ∧ outName ≠ dotdot ∧
      resultFiles runtime settings folder requestId =
        some ((resultDir settings folder).join ⟨rootOf text, Path.folders text ++ [tmpName]⟩,
          (resultDir settings folder).join ⟨rootOf text, Path.folders text ++ [outName]⟩) := by
  intro text
  have hslash : '/' ∉ '.' :: ['j', 's', 'o', 'n'] := by decide
  obtain ⟨last, hparse⟩ := parse_append text hslash (by decide)
  have hsuffix : ".json".toList = ['.', 'j', 's', 'o', 'n'] := by decide
  have htmp : ".json.tmp".toList.length = 9 := by decide
  refine ⟨(splitSuffix (last ++ ['.', 'j', 's', 'o', 'n'])).1 ++ ".json.tmp".toList,
    last ++ ['.', 'j', 's', 'o', 'n'], ?_, ?_, ?_⟩
  · apply ne_dotdot_of_length
    rw [List.length_append, htmp]
    omega
  · apply ne_dotdot_of_length
    simp only [List.length_append, List.length_cons, List.length_nil]
    omega
  · simp only [resultFiles, Path.child, hsuffix]
    rw [hparse, Path.withSuffix_join]
    rfl

theorem isAncestor_resultsRoot_iff {root : Option Root} {dirs : List Name} {name : Name}
    (hname : name ≠ dotdot) :
    IsAncestor (resultsRoot settings cwd folder)
        (cwd.join ((resultDir settings folder).join ⟨root, dirs ++ [name]⟩)).normalise ↔
      StaysBelow (resultsRoot settings cwd folder) root dirs := by
  rw [AbsPath.join_join]
  exact isAncestor_join_iff hname

theorem resultsContained_writeResult (canWrite : Path → Bool) {requestId : Json}
    (h : IdStays runtime settings cwd folder requestId) :
    ResultsContained settings cwd folder
      (writeResult runtime settings canWrite folder requestId) := by
  obtain ⟨tmpName, outName, htmp, hout, hfiles⟩ :=
    resultFiles_eq runtime settings folder requestId
  rw [writeResult, hfiles]
  exact resultsContained_writeFiles canWrite ((isAncestor_resultsRoot_iff htmp).mpr h)
    ((isAncestor_resultsRoot_iff hout).mpr h)

theorem idStays_of_contained {requestId : Json}
    (h : ResultsContained settings cwd folder
      (writeResult runtime settings (fun _ => true) folder requestId)) :
    IdStays runtime settings cwd folder requestId := by
  obtain ⟨tmpName, outName, -, hout, hfiles⟩ := resultFiles_eq runtime settings folder requestId
  rw [writeResult, hfiles] at h
  exact (isAncestor_resultsRoot_iff hout).mp (h _ (writes_out _ _))

-- Three of the coroutines write only when the request has an id.
theorem writeIfAsked_contained_iff {requestId : Json} :
    (∀ canWrite, ResultsContained settings cwd folder
        (writeIfAsked runtime settings canWrite folder requestId)) ↔
      (requestId.truthy = true → IdStays runtime settings cwd folder requestId) := by
  unfold writeIfAsked
  split_ifs with htruthy
  · exact ⟨fun h _ => idStays_of_contained (h _),
      fun h canWrite => resultsContained_writeResult canWrite (h htruthy)⟩
  · simp [htruthy]

theorem resultsRoot_parts (settings : Settings) (cwd : AbsPath) (folder : Folder) :
    ∃ front, (resultsRoot settings cwd folder).parts = front ++ ["results".toList] := by
  have hparse : Path.parse "results".toList = ⟨none, [] ++ ["results".toList]⟩ := by decide
  refine ⟨reduce (cwd.join ((settings.dataDir.child "ipc".toList).child folder.toList)).parts, ?_⟩
  have hname : "results".toList ≠ dotdot := by decide
  simp only [resultsRoot, resultDir]
  rw [Path.child, AbsPath.join_join, hparse]
  exact reduce_append_singleton hname

-- The results folder is no JSON file, so a file in it that is one lies below it.
theorem isRelativeTo_resultsRoot_iff {resolved : AbsPath} {dirs : List Name} {name : Name}
    (hparts : resolved.parts = dirs ++ [name]) (hsuffix : suffix name = ".json".toList) :
    resolved.isRelativeTo (resultsRoot settings cwd folder) = true ↔
      (resultsRoot settings cwd folder).root = resolved.root ∧
        (resultsRoot settings cwd folder).parts <+: dirs := by
  have hne : (resultsRoot settings cwd folder).parts ≠ dirs ++ [name] := by
    intro h
    obtain ⟨front, hfront⟩ := resultsRoot_parts settings cwd folder
    have hlast : "results".toList = name := (List.append_inj' (hfront.symm.trans h) rfl).2 |>
      List.singleton_inj.mp
    rw [← hlast] at hsuffix
    exact absurd hsuffix (by decide)
  simp only [AbsPath.isRelativeTo, hparts, decide_eq_true_eq, List.prefix_concat_iff, hne, false_or]
  exact and_congr_left fun _ => eq_comm

theorem parts_eq_of_suffix {resolved : AbsPath} (hsuffix : suffix resolved.name = ".json".toList) :
    resolved.parts = resolved.parts.dropLast ++ [resolved.name] := by
  have hne : resolved.parts ≠ [] := by
    intro h
    rw [AbsPath.name, h] at hsuffix
    exact absurd hsuffix (by decide)
  rw [AbsPath.name, List.getLastD_eq_getLast?, List.getLast?_eq_some_getLast hne, Option.getD_some,
    List.dropLast_append_getLast hne]

-- What Path.resolve promises: the path that it returns is free of "..".
def ResolvesDotdot (runtime : Runtime) : Prop :=
  ∀ path resolved, runtime.resolve path = some resolved → dotdot ∉ resolved.parts

theorem isAncestor_resolved_iff {start : Root} {dirs : List Name} {name : Name}
    (hdirs : dotdot ∉ dirs) (hname : name ≠ dotdot) :
    IsAncestor (resultsRoot settings cwd folder)
        (cwd.join ⟨some start, dirs ++ [name]⟩).normalise ↔
      (resultsRoot settings cwd folder).root = start ∧
        (resultsRoot settings cwd folder).parts <+: dirs := by
  have hparts : (cwd.join ⟨some start, dirs ++ [name]⟩).normalise.parts = dirs ++ [name] := by
    rw [AbsPath.join, AbsPath.normalise, reduce_append_singleton hname, reduce_of_notMem hdirs]
  rw [isAncestor_iff hparts]
  rfl

theorem resolveIpcResponseFile_eq_some_iff {text : String} {resolved : AbsPath} :
    resolveIpcResponseFile runtime settings (.str text) folder = some resolved ↔
      (text ≠ "" ∧ '\x00' ∉ text.toList) ∧
      ∃ target, runtime.resolve (resultDir settings folder) = some target ∧
        runtime.resolve (Path.parse text.toList) = some resolved ∧
        resolved.isRelativeTo target = true ∧ suffix resolved.name = ".json".toList := by
  simp only [resolveIpcResponseFile, ← not_or]
  by_cases hbad : text = "" ∨ '\x00' ∈ text.toList
  · simp [hbad]
  · rw [if_neg hbad]
    simp only [hbad, not_false_eq_true, true_and, Option.bind_eq_some_iff,
      Option.ite_none_right_eq_some, Option.some.injEq]
    constructor
    · rintro ⟨target, htarget, path, hpath, haccept, rfl⟩
      exact ⟨target, htarget, hpath, haccept⟩
    · rintro ⟨target, htarget, hpath, haccept⟩
      exact ⟨target, htarget, resolved, hpath, haccept, rfl⟩

-- A response file that is accepted is written where it resolves to, after a temporary file
-- beside it.
theorem writeIpcResponse_eq {text : String} {resolved : AbsPath}
    (hsuffix : suffix resolved.name = ".json".toList)
    (h : resolveIpcResponseFile runtime settings (.str text) folder = some resolved) :
    ∃ tmpName, tmpName ≠ dotdot ∧ ∀ canWrite,
      writeIpcResponse runtime settings canWrite (.str text) folder =
        writeFiles canWrite ⟨some resolved.root, resolved.parts.dropLast ++ [tmpName]⟩
          ⟨some resolved.root, resolved.parts.dropLast ++ [resolved.name]⟩ := by
  have htmp : (".json".toList ++ ".tmp".toList).length = 9 := by decide
  refine ⟨(splitSuffix resolved.name).1 ++ (".json".toList ++ ".tmp".toList), ?_, ?_⟩
  · apply ne_dotdot_of_length
    rw [List.length_append, htmp]
    omega
  · intro canWrite
    have hpath : resolved.toPath =
        (⟨none, []⟩ : Path).join ⟨some resolved.root, resolved.parts.dropLast ++ [resolved.name]⟩ := by
      rw [← parts_eq_of_suffix hsuffix]
      rfl
    simp only [writeIpcResponse, h]
    rw [hsuffix, hpath, Path.withSuffix_join]
    rfl

theorem writeIpcResponse_contained_iff (hresolve : ResolvesDotdot runtime) {responseFile : Json}
    (htruthy : responseFile.truthy = true) :
    (∀ canWrite, ResultsContained settings cwd folder
        (writeIpcResponse runtime settings canWrite responseFile folder)) ↔
      ResponseStays runtime settings cwd folder responseFile := by
  cases responseFile with
  | str text =>
      have htext : text ≠ "" := (Json.truthy_str text).mp htruthy
      have hplain {resolved : AbsPath} (hfile : runtime.resolve (Path.parse text.toList) = some resolved)
          (hsuffix : suffix resolved.name = ".json".toList) :
          dotdot ∉ resolved.parts.dropLast ∧ resolved.name ≠ dotdot := by
        have hnone := hresolve _ _ hfile
        rw [parts_eq_of_suffix hsuffix, List.mem_append, not_or, List.mem_singleton] at hnone
        exact ⟨hnone.1, fun h => hnone.2 h.symm⟩
      constructor
      · intro h target resolved htarget hfile hnull hsuffix hbelow
        have haccept := resolveIpcResponseFile_eq_some_iff.mpr
          ⟨⟨htext, hnull⟩, target, htarget, hfile, hbelow, hsuffix⟩
        obtain ⟨tmpName, -, hwrites⟩ := writeIpcResponse_eq hsuffix haccept
        obtain ⟨hdirs, hname⟩ := hplain hfile hsuffix
        have hout := h (fun _ => true) _ (hwrites _ ▸ writes_out _ _)
        rw [isAncestor_resolved_iff hdirs hname] at hout
        exact (isRelativeTo_resultsRoot_iff (parts_eq_of_suffix hsuffix) hsuffix).mpr hout
      · intro h canWrite
        cases haccept : resolveIpcResponseFile runtime settings (.str text) folder with
        | none => simp [writeIpcResponse, haccept]
        | some resolved =>
            obtain ⟨⟨-, hnull⟩, target, htarget, hfile, hbelow, hsuffix⟩ :=
              resolveIpcResponseFile_eq_some_iff.mp haccept
            obtain ⟨tmpName, htmp, hwrites⟩ := writeIpcResponse_eq hsuffix haccept
            obtain ⟨hdirs, hname⟩ := hplain hfile hsuffix
            have hinside := (isRelativeTo_resultsRoot_iff (parts_eq_of_suffix hsuffix) hsuffix).mp
              (h target resolved htarget hfile hnull hsuffix hbelow)
            rw [hwrites]
            exact resultsContained_writeFiles canWrite
              ((isAncestor_resolved_iff hdirs htmp).mpr hinside)
              ((isAncestor_resolved_iff hdirs hname).mpr hinside)
  | _ => simp [writeIpcResponse, resolveIpcResponseFile, ResponseStays]

theorem runSkill_contained_iff {requestId : Json} (text : SkillResult → String) :
    (∀ around, ResultsContained settings cwd folder
        (runSkill runtime settings around folder requestId text)) ↔
      (requestId.truthy = true → IdStays runtime settings cwd folder requestId) := by
  rw [← writeIfAsked_contained_iff]
  constructor
  · intro h canWrite
    simpa [runSkill, willing, routeIfKnown] using h { willing with canWrite := canWrite }
  · intro h around
    unfold runSkill
    split
    · exact resultsContained_nil
    · exact resultsContained_routeIfKnown _ _
    · refine resultsContained_append.mpr ⟨resultsContained_routeIfKnown _ _, ?_⟩
      split_ifs
      · exact resultsContained_nil
      · exact h _

-- A coroutine that writes once it gets so far.
theorem gated_contained_iff {requestId : Json} {gate : Surroundings → Bool}
    (hgate : ∀ canWrite, gate { willing with canWrite := canWrite } = true) :
    (∀ around, ResultsContained settings cwd folder
        (if gate around then writeIfAsked runtime settings around.canWrite folder requestId
          else [])) ↔
      (requestId.truthy = true → IdStays runtime settings cwd folder requestId) := by
  rw [← writeIfAsked_contained_iff]
  constructor
  · intro h canWrite
    have hwrite := h { willing with canWrite := canWrite }
    rwa [if_pos (hgate canWrite)] at hwrite
  · intro h around
    split_ifs
    · exact h _
    · exact resultsContained_nil

theorem runSubagent_contained_iff {requestId : Json} :
    (∀ around, ResultsContained settings cwd folder
        (runSubagent runtime settings around folder requestId)) ↔
      IdStays runtime settings cwd folder requestId := by
  constructor
  · intro h
    exact idStays_of_contained (h willing)
  · intro h around
    unfold runSubagent
    split_ifs
    · exact resultsContained_nil
    · exact resultsContained_writeResult _ h

theorem runDevTask_contained (prompt mode sessionId : Json) (groupJid : String) :
    ResultsContained settings cwd folder
      (runDevTask runtime around prompt mode sessionId groupJid) := by
  unfold runDevTask
  split_ifs
  · exact resultsContained_map_route _ [_]
  · dsimp only
    split
    · exact resultsContained_nil
    · exact resultsContained_map_route _ _

-- Jobs that only route.
def Job.Silent : Job → Prop
  | .devTask _ _ _ _ | .sendAndCleanup _ _ _ | .routeText _ _ | .startRemoteControl _
  | .selfUpdate _ | .restartHost _ => True
  | _ => False

structure Handled.Silent (handled : Handled) : Prop where
  effects : ∀ path, Effect.writeResult path ∉ handled.effects
  jobs : ∀ job ∈ handled.jobs, job.Silent

theorem Job.Silent.contained {job : Job} (h : job.Silent) :
    ResultsContained settings cwd folder (job.run runtime settings around folder) := by
  cases job with
  | devTask prompt mode sessionId groupJid => exact runDevTask_contained _ _ _ _
  | sendAndCleanup jid path caption => simp [Job.run, ResultsContained]
  | routeText jid text => exact resultsContained_map_route jid [text]
  | startRemoteControl jid => exact resultsContained_map_route jid _
  | selfUpdate jid =>
      rw [Job.run, runSelfUpdate]
      split_ifs
      · exact resultsContained_map_route jid _
      · exact resultsContained_nil
  | restartHost jid =>
      rw [Job.run, doRestartHost]
      split_ifs <;> cases around.restartError <;> simp [ResultsContained, route]
  | _ => exact h.elim

theorem Handled.Silent.contained {handled : Handled} (h : handled.Silent) :
    ResultsContained settings cwd folder (handled.total runtime settings around folder) := by
  refine resultsContained_append.mpr ⟨fun path hpath => absurd hpath (h.effects path), ?_⟩
  intro path hpath
  obtain ⟨job, hjob, hwrite⟩ := List.mem_flatMap.mp hpath
  exact (h.jobs job hjob).contained path hwrite

theorem silent_empty : ({} : Handled).Silent := ⟨by simp, by simp⟩

theorem silent_raise (error : Error) : (Handled.raise error).Silent :=
  ⟨fun _ h => absurd h List.not_mem_nil, fun _ h => absurd h List.not_mem_nil⟩

theorem silent_effect {effect : Effect} (h : ∀ path, effect ≠ .writeResult path) :
    ({ effects := [effect] } : Handled).Silent :=
  ⟨fun path hpath => h path (List.mem_singleton.mp hpath).symm,
    fun _ hjob => absurd hjob List.not_mem_nil⟩

theorem silent_job {job : Job} (h : job.Silent) : ({ jobs := [job] } : Handled).Silent :=
  ⟨fun _ hpath => absurd hpath List.not_mem_nil,
    fun _ hother => List.mem_singleton.mp hother ▸ h⟩

theorem silent_manageTask {manage : TaskId → Effect}
    (hmanage : ∀ id path, manage id ≠ .writeResult path) :
    (Handler.manageTask host folder isMain payload manage).Silent := by
  unfold Handler.manageTask
  split
  · exact silent_empty
  · exact silent_effect (hmanage _)

theorem silent_sendFile :
    (Handler.sendFile runtime settings host folder isMain payload).Silent := by
  simp only [Handler.sendFile]
  split
  · exact silent_raise _
  · split
    · exact silent_job trivial
    · split
      · exact silent_job trivial
      · exact silent_raise _

theorem silent_registerGroup :
    (Handler.registerGroup runtime settings host isMain payload).Silent := by
  simp only [Handler.registerGroup]
  split_ifs
  · exact silent_raise _
  · split
    · split_ifs
      · exact silent_raise _
      · split
        · split_ifs
          · exact silent_raise _
          · exact silent_effect nofun
        · exact silent_raise _
      · exact silent_empty
    · split_ifs
      · exact silent_raise _
      · exact silent_empty

-- The types that write no result file.
theorem silent_dispatch {type : MsgType}
    (htype : type ∉ [.applySkill, .uninstallSkill, .listSkills, .spawnAgent, .memoryRecall,
      .memoryRemember, .memorySearch]) :
    (dispatch runtime settings host folder isMain payload type).Silent := by
  cases type with
  | message =>
      simp only [dispatch, Handler.message]
      split_ifs
      · exact silent_empty
      · exact silent_effect nofun
      · exact silent_empty
  | scheduleTask =>
      simp only [dispatch, Handler.scheduleTask]
      split_ifs
      · split
        · exact silent_raise _
        · split_ifs
          · exact silent_raise _
          · exact silent_effect nofun
      · exact silent_raise _
  | pauseTask =>
      rw [dispatch, Handler.pauseTask]
      exact silent_manageTask (by simp)
  | resumeTask =>
      rw [dispatch, Handler.resumeTask]
      exact silent_manageTask (by simp)
  | cancelTask =>
      rw [dispatch, Handler.cancelTask]
      exact silent_manageTask (by simp)
  | updateTask =>
      simp only [dispatch, Handler.updateTask]
      split
      · exact silent_empty
      · split
        · exact silent_raise _
        · split_ifs
          · exact silent_empty
          · exact silent_effect nofun
  | registerGroup => exact silent_registerGroup
  | refreshGroups => exact silent_effect nofun
  | resetGroup =>
      simp only [dispatch, Handler.resetGroup]
      split_ifs
      · exact silent_raise _
      · exact silent_effect nofun
      · exact silent_raise _
  | devTask =>
      simp only [dispatch, Handler.devTask]
      split_ifs
      · exact silent_job trivial
      · exact silent_empty
  | sendFile => exact silent_sendFile
  | startRemoteControl =>
      simp only [dispatch, Handler.startRemoteControl]
      split_ifs
      · exact silent_job trivial
      · exact silent_empty
  | selfUpdate =>
      simp only [dispatch, Handler.selfUpdate]
      split_ifs
      · exact silent_job trivial
      · exact silent_empty
      · exact silent_job trivial
      · exact silent_empty
  | restartHost => exact silent_job trivial
  | _ => simp at htype

-- A job that only writes a response.
theorem response_contained_iff (hresolve : ResolvesDotdot runtime) {responseFile : Json}
    (htruthy : responseFile.truthy = true) :
    (∀ around : Surroundings, ResultsContained settings cwd folder
        (writeIpcResponse runtime settings around.canWrite responseFile folder)) ↔
      ResponseStays runtime settings cwd folder responseFile := by
  rw [← writeIpcResponse_contained_iff hresolve htruthy]
  exact ⟨fun h canWrite => h { willing with canWrite := canWrite },
    fun h around => h around.canWrite⟩

theorem contained_dispatch_iff (hresolve : ResolvesDotdot runtime) (type : MsgType) :
    (∀ around, ResultsContained settings cwd folder
        ((dispatch runtime settings host folder isMain payload type).total runtime settings around
          folder)) ↔
      ResultsStay runtime settings cwd host folder isMain payload type := by
  cases type with
  | applySkill =>
      simp only [dispatch, Handler.applySkill, ResultsStay]
      split_ifs with hmain hpath
      · simp [hmain]
      · rw [Bool.not_eq_false] at hmain
        simp only [total_job, Job.run, runApplySkill, hmain, hpath, true_imp_iff]
        exact runSkill_contained_iff _
      · simp [hpath]
  | uninstallSkill =>
      simp only [dispatch, Handler.uninstallSkill, ResultsStay]
      split_ifs with hmain hname
      · simp [hmain]
      · rw [Bool.not_eq_false] at hmain
        simp only [total_job, Job.run, runUninstallSkill, hmain, hname, true_imp_iff]
        exact runSkill_contained_iff _
      · simp [hname]
  | listSkills =>
      simp only [dispatch, Handler.listSkills, ResultsStay, total_job, Job.run, runListSkills]
      exact gated_contained_iff fun _ => rfl
  | spawnAgent =>
      simp only [dispatch, Handler.spawnAgent, ResultsStay]
      split_ifs with hasked
      · simp only [total_job, Job.run, hasked, true_imp_iff]
        exact runSubagent_contained_iff
      · simp only [total_empty, resultsContained_nil, implies_true, true_iff]
        exact fun hid hprompt => absurd ⟨hid, hprompt⟩ hasked
  | memorySearch =>
      simp only [dispatch, Handler.memorySearch, ResultsStay]
      split_ifs with hasked
      · simp only [total_job, Job.run, runMemorySearch, hasked, ne_eq, not_false_eq_true, true_imp_iff]
        exact gated_contained_iff fun _ => rfl
      · simp only [total_empty, resultsContained_nil, implies_true, true_iff]
        exact fun hquery hjid => absurd ⟨hquery, hjid⟩ hasked
  | memoryRecall =>
      simp only [dispatch, Handler.memoryRecall, ResultsStay]
      split_ifs with hasked
      · simp only [total_job, Job.run, hasked, true_imp_iff]
        exact response_contained_iff hresolve hasked.2
      · simp only [total_empty, resultsContained_nil, implies_true, true_iff]
        exact fun hquery hfile => absurd ⟨hquery, hfile⟩ hasked
  | memoryRemember =>
      simp only [dispatch, Handler.memoryRemember, ResultsStay]
      split_ifs with hasked
      · simp only [total_job, Job.run, hasked, true_imp_iff]
        exact response_contained_iff hresolve hasked.2
      · simp only [total_empty, resultsContained_nil, implies_true, true_iff]
        exact fun hquery hfile => absurd ⟨hquery, hfile⟩ hasked
  | _ => exact iff_of_true (fun _ => (silent_dispatch (by simp)).contained) trivial

end Containment

section Conditions

variable {runtime : Runtime} {settings : Settings} {cwd : AbsPath} {folder : Folder}

-- An id without a slash, such as the ids that the tools generate.
theorem idStays_of_noSlash {requestId : Json}
    (h : '/' ∉ (requestId.format runtime.repr).toList) :
    IdStays runtime settings cwd folder requestId := by
  generalize htext : (requestId.format runtime.repr).toList = text at h
  simp only [IdStays, htext, rootOf_of_notMem h, Path.folders, splitOn_of_notMem h]
  exact staysBelow_nil _

-- The check of a response file is sound while no link leads away from the results folder.
theorem responseStays_of_unlinked {responseFile : Json}
    (h : runtime.resolve (resultDir settings folder) = some (resultsRoot settings cwd folder)) :
    ResponseStays runtime settings cwd folder responseFile := by
  cases responseFile with
  | str text =>
      intro target resolved htarget _ _ _ hbelow
      rw [h, Option.some.injEq] at htarget
      exact htarget ▸ hbelow
  | _ => trivial

end Conditions

-- The names in the payload keep every result file below the results folder.
def StaysInResults (runtime : Runtime) (settings : Settings) (cwd : AbsPath) (host : Host)
    (folder : Folder) (isMain : Bool) : Json → Prop
  | .obj payload =>
      ∀ type ∈ msgType payload, ResultsStay runtime settings cwd host folder isMain payload type
  | _ => True

theorem resultsContained_iff_stays (runtime : Runtime) (settings : Settings) (cwd : AbsPath)
    (host : Host) (folder : Folder) (isMain : Bool) (payload : Json)
    (hresolve : ResolvesDotdot runtime) :
    (∀ around, ResultsContained settings cwd folder
        (effects runtime settings host around folder isMain payload)) ↔
      StaysInResults runtime settings cwd host folder isMain payload := by
  cases payload with
  | obj payload =>
      simp only [effects, handleIpc, StaysInResults]
      cases htype : msgType payload with
      | none => simp
      | some type => simpa using contained_dispatch_iff hresolve type
  | _ => simp [effects, handleIpc, StaysInResults]

theorem plainRuntime_resolves : ResolvesDotdot plainRuntime := by
  intro path resolved h
  obtain rfl := Option.some.inj h
  exact dotdot_notMem_reduce _

theorem listed_skills_stay :
    ResultsContained plainSettings ⟨.slash, []⟩ "one"
      (effects plainRuntime plainSettings twoGroups { groups := twoGroups.groups } "one" false
        (.obj [("type", .str "list_skills"), ("requestId", .str "r1")])) := by
  refine (resultsContained_iff_stays _ _ _ _ _ _ _ plainRuntime_resolves).mpr ?_ _
  intro type htype
  have hlist : type = .listSkills := (Option.some.inj htype).symm
  subst hlist
  exact fun _ => idStays_of_noSlash (by decide)

def foreignResult : Payload :=
  [("type", .str "list_skills"), ("requestId", .str "../../two/results/r1")]

set_option maxRecDepth 4000 in
-- A request id can name the results of another group.
theorem listed_skills_overwrite_foreign_result :
    ¬ ResultsContained plainSettings ⟨.slash, []⟩ "one"
      (effects plainRuntime plainSettings twoGroups { groups := twoGroups.groups } "one" false
        (.obj foreignResult)) := by
  have htype : msgType foreignResult = some .listSkills := by decide
  have hid : foreignResult.get "requestId" (.str "") = .str "../../two/results/r1" := by decide
  have hasked : (Json.str "../../two/results/r1").truthy = true := by decide
  intro h
  simp only [effects, handleIpc, htype, dispatch, Handler.listSkills, total_job, Job.run,
    runListSkills, if_true, hid, writeIfAsked, hasked] at h
  have hclimbs : ¬ StaysBelow (resultsRoot plainSettings ⟨.slash, []⟩ "one")
      (rootOf "../../two/results/r1".toList) (Path.folders "../../two/results/r1".toList) := by
    decide +kernel
  have hstays : IdStays plainRuntime plainSettings ⟨.slash, []⟩ "one"
      (.str "../../two/results/r1") :=
    @idStays_of_contained plainRuntime plainSettings ⟨.slash, []⟩ "one"
      (.str "../../two/results/r1") h
  exact hclimbs hstays

end EvoClaw.Ipc
