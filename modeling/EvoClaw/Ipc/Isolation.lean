import EvoClaw.Ipc.Jobs

namespace EvoClaw.Ipc

open MessageLoop (Group upsertGroup)
open Tasks (Task)

-- The group that owns the folder is registered with this jid.
def Host.registers (host : Host) (folder : Folder) (jid : Jid) : Prop :=
  (host.ownGroup folder).map Group.jid = some jid

-- The groups change by registrations only, none is removed.
def Follows (host : Host) (around : Surroundings) : Prop :=
  ∃ registered : List Group, around.groups = registered.foldl upsertGroup host.groups

def Effect.Confined (host : Host) (folder : Folder) (jid : Jid) : Effect → Prop
  | .routeFn target _ _ => target = .str jid
  | .routeFile target _ _ => target = .str jid
  | .createTask task => task.groupFolder = folder ∧ task.chatJid = jid
  | .updateTask id _ => ∀ task, host.tasks.find id = some task → task.groupFolder = folder
  | .deleteTask id => ∀ task, host.tasks.find id = some task → task.groupFolder = folder
  | _ => True

def Isolated (host : Host) (folder : Folder) (jid : Jid) (effects : List Effect) : Prop :=
  ∀ effect ∈ effects, effect.Confined host folder jid

instance decidableConfined (host : Host) (folder : Folder) (jid : Jid) :
    ∀ effect : Effect, Decidable (effect.Confined host folder jid)
  | .routeFn target _ _ => inferInstanceAs (Decidable (target = .str jid))
  | .routeFile target _ _ => inferInstanceAs (Decidable (target = .str jid))
  | .createTask task =>
      inferInstanceAs (Decidable (task.groupFolder = folder ∧ task.chatJid = jid))
  | .updateTask id _ =>
      inferInstanceAs (Decidable (∀ task, host.tasks.find id = some task → task.groupFolder = folder))
  | .deleteTask id =>
      inferInstanceAs (Decidable (∀ task, host.tasks.find id = some task → task.groupFolder = folder))
  | .setRegisteredGroup _ => isTrue trivial
  | .writeFlag _ => isTrue trivial
  | .writeResult _ => isTrue trivial

instance (host : Host) (folder : Folder) (jid : Jid) (effects : List Effect) :
    Decidable (Isolated host folder jid effects) :=
  inferInstanceAs (Decidable (∀ effect ∈ effects, effect.Confined host folder jid))

-- A target that the payload leaves out is the group itself.
def NamesOwn (jid : Jid) (target : Json) : Prop :=
  target.truthy = true → target = .str jid

def hasFilePath (folder : Folder) : Json → Prop
  | .str _ => True
  | value => folder = "" ∧ value.truthy = false

-- The five types whose target the handler takes from the payload without a check, each
-- where it gets as far as to use it.
def TargetsOwn (runtime : Runtime) (settings : Settings) (host : Host) (around : Surroundings)
    (folder : Folder) (jid : Jid) (payload : Payload) : MsgType → Prop
  | .scheduleTask =>
      payload.get "groupFolder" (.str folder) = .str folder →
      (Handler.newTask runtime host folder payload).isSome = true →
      runtime.uuid4 ∉ host.tasks.rows.map Task.id →
      (payload.get "chatJid" (.str "")).truthy = true →
        requiredText runtime (payload.get "chatJid" (.str "")) = some jid
  | .sendFile =>
      hasFilePath folder (payload.get "filePath" (.str "")) →
        NamesOwn jid (payload.get "chatJid" (.str ""))
  | .startRemoteControl =>
      around.remote.texts ≠ [] → NamesOwn jid (payload.get "jid" (.str ""))
  | .selfUpdate =>
      (settings.selfUpdateToken ≠ "" →
        payload.get "confirm_token" (.str "") = .str settings.selfUpdateToken) →
        NamesOwn jid (payload.get "jid" (.str ""))
  | .restartHost => NamesOwn jid (payload.get "jid" (.str ""))
  | _ => True

section Confinement

variable {runtime : Runtime} {settings : Settings} {host : Host} {around : Surroundings}
  {folder : Folder} {jid : Jid} {payload : Payload}

@[simp] theorem isolated_nil : Isolated host folder jid [] := by
  simp [Isolated]

@[simp] theorem isolated_singleton {effect : Effect} :
    Isolated host folder jid [effect] ↔ effect.Confined host folder jid := by
  simp [Isolated]

theorem Host.registers.resolveJid (h : host.registers folder jid) (target : Json) :
    host.resolveJid folder target = .str jid ↔ NamesOwn jid target := by
  obtain ⟨group, hgroup, rfl⟩ := Option.map_eq_some_iff.mp h
  unfold Host.resolveJid NamesOwn
  by_cases ht : target.truthy = true
  · simp [ht]
  · simp [ht, hgroup]

theorem Host.registers.namesOwn (h : host.registers folder jid) (target : Json) :
    NamesOwn jid (host.resolveJid folder target) ↔ NamesOwn jid target := by
  by_cases ht : target.truthy = true
  · simp [Host.resolveJid, ht]
  · have hown := (h.resolveJid target).mpr fun htruthy => absurd htruthy ht
    exact ⟨fun _ htruthy => absurd htruthy ht, fun _ _ => hown⟩

theorem isolated_map_route {target : Json} {texts : List String} :
    Isolated host folder jid (texts.map (route target)) ↔ (texts ≠ [] → target = .str jid) := by
  cases texts with
  | nil => simp
  | cons text rest =>
      simp only [Isolated, List.mem_map, ne_eq, reduceCtorEq, not_false_eq_true, true_imp_iff]
      constructor
      · intro h
        exact h (route target text) ⟨text, List.mem_cons_self, rfl⟩
      · rintro h effect ⟨text, -, rfl⟩
        exact h

theorem isolated_writeFiles (canWrite : Posix.Path → Bool) (tmp out : Posix.Path) :
    Isolated host folder jid (writeFiles canWrite tmp out) := by
  intro effect heffect
  obtain ⟨path, -, rfl⟩ := List.mem_map.mp heffect
  trivial

theorem isolated_writeResult (canWrite : Posix.Path → Bool) (requestId : Json) :
    Isolated host folder jid (writeResult runtime settings canWrite folder requestId) := by
  unfold writeResult
  split
  · exact isolated_writeFiles _ _ _
  · exact isolated_nil

theorem isolated_writeIfAsked (canWrite : Posix.Path → Bool) (requestId : Json) :
    Isolated host folder jid (writeIfAsked runtime settings canWrite folder requestId) := by
  unfold writeIfAsked
  split
  · exact isolated_writeResult _ _
  · exact isolated_nil

theorem isolated_writeIpcResponse (canWrite : Posix.Path → Bool) (path : Json) :
    Isolated host folder jid (writeIpcResponse runtime settings canWrite path folder) := by
  unfold writeIpcResponse
  split
  · exact isolated_nil
  · dsimp only
    split
    · exact isolated_writeFiles _ _ _
    · exact isolated_nil

theorem mem_map_jid_upsertGroup {groups : List Group} (group : Group)
    (h : jid ∈ groups.map Group.jid) : jid ∈ (upsertGroup groups group).map Group.jid := by
  have hdemoted : (groups.map fun other =>
      if group.isMain ∧ other.jid ≠ group.jid then { other with isMain := false } else other).map
        Group.jid = groups.map Group.jid := by
    rw [List.map_map]
    apply List.map_congr_left
    intro other _
    simp only [Function.comp_apply]
    split <;> rfl
  unfold upsertGroup
  split_ifs with hconflict hknown
  · exact h
  · rw [← hdemoted] at h
    rw [List.map_map]
    convert h using 1
    apply List.map_congr_left
    intro other _
    simp only [Function.comp_apply]
    split
    · rename_i hjid
      exact hjid.symm
    · rfl
  · rw [List.map_append, List.mem_append, hdemoted]
    exact Or.inl h

theorem Follows.registered (hf : Follows host around) (h : host.registers folder jid) :
    jid ∈ around.groups.map Group.jid := by
  obtain ⟨registered, hgroups⟩ := hf
  obtain ⟨group, hgroup, hjid⟩ := Option.map_eq_some_iff.mp h
  have hmem : jid ∈ host.groups.map Group.jid :=
    hjid ▸ List.mem_map_of_mem (List.mem_of_find?_eq_some hgroup)
  rw [hgroups]
  clear hgroups hgroup h
  generalize host.groups = groups at hmem ⊢
  induction registered generalizing groups with
  | nil => exact hmem
  | cons next rest ih => exact ih _ (mem_map_jid_upsertGroup next hmem)

-- The coroutine finds the group by its jid again, whatever was registered meanwhile.
theorem isolated_runDevTask (hmem : jid ∈ around.groups.map Group.jid)
    (prompt mode sessionId : Json) :
    Isolated host folder jid (runDevTask runtime around prompt mode sessionId jid) := by
  unfold runDevTask
  split
  · exact isolated_singleton.mpr rfl
  · dsimp only
    have hfound : (around.groups.find? fun group => group.jid = jid).isSome := by
      obtain ⟨group, hgroup, hjid⟩ := List.mem_map.mp hmem
      exact List.find?_isSome.mpr ⟨group, hgroup, by simpa using hjid⟩
    obtain ⟨group, hgroup⟩ := Option.isSome_iff_exists.mp hfound
    have hjid : group.jid = jid := by simpa using List.find?_some hgroup
    rw [hgroup, Option.some_or]
    exact isolated_map_route.mpr fun _ => congrArg Json.str hjid

theorem confined_of_authorized {taskId : Json} {task : Task}
    (h : host.getAuthorizedTask taskId folder false = some task) :
    host.tasks.find task.id = some task ∧ task.groupFolder = folder := by
  unfold Host.getAuthorizedTask at h
  split at h
  · rename_i id
    obtain ⟨hfind, hfolder⟩ := Option.filter_eq_some_iff.mp h
    have hid := (Tasks.Table.find_eq_some_iff.mp hfind).2
    rw [hid]
    exact ⟨hfind, by simpa using hfolder⟩
  · cases h

theorem isolated_message (h : host.registers folder jid) :
    Isolated host folder jid
      ((Handler.message host folder false payload).total runtime settings around folder) := by
  obtain ⟨group, hgroup, rfl⟩ := Option.map_eq_some_iff.mp h
  unfold Handler.message
  dsimp only
  split_ifs with hforeign hsend
  · simp
  · rw [total_effect, isolated_singleton]
    by_contra hne
    exact hforeign ⟨hsend.1, rfl, group, hgroup, hne⟩
  · simp

-- Pausing, resuming and cancelling touch one row, which the handler has checked.
theorem isolated_manageTask {manage : TaskId → Effect}
    (hmanage : ∀ id, (manage id).Confined host folder jid ↔
      ∀ task, host.tasks.find id = some task → task.groupFolder = folder) :
    Isolated host folder jid
      ((Handler.manageTask host folder false payload manage).total runtime settings around
        folder) := by
  unfold Handler.manageTask
  split
  · simp
  · rename_i task htask
    obtain ⟨hfind, hfolder⟩ := confined_of_authorized htask
    rw [total_effect, isolated_singleton, hmanage]
    intro found hfound
    rw [hfind, Option.some.injEq] at hfound
    exact hfound ▸ hfolder

theorem isolated_updateTask :
    Isolated host folder jid
      ((Handler.updateTask runtime host folder false payload).total runtime settings around
        folder) := by
  unfold Handler.updateTask
  split
  · simp
  · rename_i task htask
    obtain ⟨hfind, hfolder⟩ := confined_of_authorized htask
    split
    · simp
    · split
      · simp
      · rw [total_effect, isolated_singleton]
        intro found hfound
        rw [hfind, Option.some.injEq] at hfound
        exact hfound ▸ hfolder

-- A new row belongs to the caller's folder. Its chat is the group's own when none is given.
theorem newTask_eq_some {task : Task} (h : host.registers folder jid)
    (hnew : Handler.newTask runtime host folder payload = some task) :
    task.id = runtime.uuid4 ∧ task.groupFolder = folder ∧
      if (payload.get "chatJid" (.str "")).truthy then
        requiredText runtime (payload.get "chatJid" (.str "")) = some task.chatJid
      else task.chatJid = jid := by
  obtain ⟨group, hgroup, hjid⟩ := Option.map_eq_some_iff.mp h
  simp only [Handler.newTask, Option.bind_eq_some_iff, Option.map_eq_some_iff] at hnew
  obtain ⟨chatJid, hchat, prompt, -, type, -, value, -, nextRun, -, mode, -, rfl⟩ := hnew
  refine ⟨rfl, rfl, ?_⟩
  split_ifs at hchat ⊢ with hgiven
  · exact hchat
  · have hown : requiredText runtime (.str group.jid) = some chatJid := by
      simpa [hgroup] using hchat
    have htext : requiredText runtime (.str group.jid) = some group.jid := rfl
    rw [htext, Option.some.injEq] at hown
    exact hown.symm.trans hjid

theorem isolated_scheduleTask_iff (h : host.registers folder jid) :
    Isolated host folder jid
        ((Handler.scheduleTask runtime host folder false payload).total runtime settings around
          folder) ↔
      TargetsOwn runtime settings host around folder jid payload .scheduleTask := by
  unfold TargetsOwn
  simp only [Handler.scheduleTask, requireOwnOrMain, Bool.false_eq_true, false_or,
    decide_eq_true_eq]
  split_ifs with howner
  · cases hnew : Handler.newTask runtime host folder payload with
    | none => simp
    | some task =>
        obtain ⟨hid, hfolder, hchat⟩ := newTask_eq_some h hnew
        dsimp only
        split_ifs with hclash
        · simp [howner, ← hid, hclash]
        · rw [total_effect, isolated_singleton]
          simp only [Effect.Confined, hfolder, true_and, howner, Option.isSome_some, true_imp_iff,
            ← hid, hclash, not_false_eq_true]
          split_ifs at hchat with hgiven
          · simp [hgiven, hchat]
          · simp [hgiven, hchat]
  · simp [howner]

theorem isolated_sendFile_iff (h : host.registers folder jid) :
    Isolated host folder jid
        ((Handler.sendFile runtime settings host folder false payload).total runtime settings
          around folder) ↔
      TargetsOwn runtime settings host around folder jid payload .sendFile := by
  have hroute := h.resolveJid (payload.get "chatJid" (.str ""))
  have htext (text : String) : Isolated host folder jid
      ((Job.routeText (host.resolveJid folder (payload.get "chatJid" (.str ""))) text).run runtime
        settings around folder) ↔ NamesOwn jid (payload.get "chatJid" (.str "")) := by
    rw [← hroute]
    exact isolated_singleton
  unfold TargetsOwn Handler.sendFile
  dsimp only
  cases hpath : payload.get "filePath" (.str "") with
  | str path =>
      dsimp only
      split
      · rename_i sent _
        rw [total_job, ← hroute]
        simp [Job.run, hasFilePath, Effect.Confined]
      · rw [Handler.missingFile]
        dsimp only
        rw [total_job, htext]
        simp [hasFilePath]
  | _ =>
      dsimp only
      split_ifs with hfolder
      · subst hfolder
        simp only [Option.filter_none, Handler.missingFile, hasFilePath, true_and]
        split_ifs with htruthy
        · simp [htruthy]
        · dsimp only
          rw [total_job, htext]
          simp [htruthy]
      · simp [hasFilePath, hfolder]

theorem isolated_startRemoteControl_iff (h : host.registers folder jid) :
    Isolated host folder jid
        ((Handler.startRemoteControl host folder payload).total runtime settings around folder) ↔
      TargetsOwn runtime settings host around folder jid payload .startRemoteControl := by
  have hroute := h.namesOwn (payload.get "jid" (.str ""))
  unfold TargetsOwn
  simp only [Handler.startRemoteControl, ← hroute]
  split_ifs with htruthy
  · rw [total_job]
    simp only [Job.run, runStartRemoteControl, isolated_map_route, NamesOwn, htruthy, true_imp_iff]
  · simp [NamesOwn, htruthy]

theorem isolated_selfUpdate_iff (h : host.registers folder jid) :
    Isolated host folder jid
        ((Handler.selfUpdate settings host folder payload).total runtime settings around folder) ↔
      TargetsOwn runtime settings host around folder jid payload .selfUpdate := by
  have hroute := h.namesOwn (payload.get "jid" (.str ""))
  unfold TargetsOwn
  simp only [Handler.selfUpdate, ← hroute]
  split_ifs with htoken htruthy hconfirm
  · rw [total_job]
    simp [Job.run, route, Effect.Confined, htoken, NamesOwn, htruthy]
  · simp [NamesOwn, htruthy]
  · rw [total_job]
    simp only [Job.run, runSelfUpdate, hconfirm, NamesOwn, implies_true, true_imp_iff]
    split_ifs with htruthy
    · rw [isolated_map_route]
      simp [htruthy]
    · simp [htruthy]
  · simp [hconfirm, htoken]

theorem isolated_restartHost_iff (h : host.registers folder jid) :
    Isolated host folder jid
        ((Handler.restartHost host folder payload).total runtime settings around folder) ↔
      TargetsOwn runtime settings host around folder jid payload .restartHost := by
  have hroute := h.namesOwn (payload.get "jid" (.str ""))
  unfold TargetsOwn
  rw [Handler.restartHost, ← hroute, total_job]
  simp only [Job.run, doRestartHost, NamesOwn]
  split_ifs with htruthy
  · cases around.restartError with
    | none => simp [Isolated, route, Effect.Confined, htruthy]
    | some exc => simp [Isolated, route, Effect.Confined, htruthy]
  · cases around.restartError with
    | none => simp [Effect.Confined, htruthy]
    | some exc => simp [htruthy]

-- One case for each message type. Only five of them can leave the group.
theorem isolated_dispatch_iff (h : host.registers folder jid) (hf : Follows host around)
    (type : MsgType) :
    Isolated host folder jid
        ((dispatch runtime settings host folder false payload type).total runtime settings around
          folder) ↔
      TargetsOwn runtime settings host around folder jid payload type := by
  have hown : ((host.ownGroup folder).map Group.jid).getD folder = jid := by
    rw [show (host.ownGroup folder).map Group.jid = some jid from h, Option.getD_some]
  cases type with
  | message => exact iff_of_true (isolated_message h) trivial
  | scheduleTask => exact isolated_scheduleTask_iff h
  | pauseTask => exact iff_of_true (isolated_manageTask fun _ => Iff.rfl) trivial
  | resumeTask => exact iff_of_true (isolated_manageTask fun _ => Iff.rfl) trivial
  | cancelTask => exact iff_of_true (isolated_manageTask fun _ => Iff.rfl) trivial
  | updateTask => exact iff_of_true isolated_updateTask trivial
  | registerGroup => simp [dispatch, Handler.registerGroup, TargetsOwn]
  | refreshGroups => simp [dispatch, Handler.refreshGroups, Effect.Confined, TargetsOwn]
  | resetGroup => simp [dispatch, Handler.resetGroup, TargetsOwn]
  | applySkill => simp [dispatch, Handler.applySkill, TargetsOwn]
  | uninstallSkill => simp [dispatch, Handler.uninstallSkill, TargetsOwn]
  | listSkills =>
      rw [dispatch, Handler.listSkills, total_job, Job.run, runListSkills]
      split_ifs <;> simp [isolated_writeIfAsked, TargetsOwn]
  | spawnAgent =>
      rw [dispatch, Handler.spawnAgent]
      split_ifs
      · rw [total_job, Job.run, runSubagent]
        split_ifs <;> simp [isolated_writeResult, TargetsOwn]
      · simp [TargetsOwn]
  | devTask =>
      rw [dispatch, Handler.devTask]
      dsimp only
      split_ifs
      · rw [total_job, Job.run, hown]
        exact iff_of_true (isolated_runDevTask (hf.registered h) _ _ _) trivial
      · simp [TargetsOwn]
  | sendFile => exact isolated_sendFile_iff h
  | memoryRecall =>
      rw [dispatch, Handler.memoryRecall]
      split_ifs
      · rw [total_job]
        exact iff_of_true (isolated_writeIpcResponse _ _) trivial
      · simp [TargetsOwn]
  | memoryRemember =>
      rw [dispatch, Handler.memoryRemember]
      split_ifs
      · rw [total_job]
        exact iff_of_true (isolated_writeIpcResponse _ _) trivial
      · simp [TargetsOwn]
  | memorySearch =>
      rw [dispatch, Handler.memorySearch]
      split_ifs
      · rw [total_job, Job.run, runMemorySearch]
        split_ifs <;> simp [isolated_writeIfAsked, TargetsOwn]
      · simp [TargetsOwn]
  | startRemoteControl => exact isolated_startRemoteControl_iff h
  | selfUpdate => exact isolated_selfUpdate_iff h
  | restartHost => exact isolated_restartHost_iff h

end Confinement

-- The payload keeps to its own group, whatever its type is.
def KeepsToGroup (runtime : Runtime) (settings : Settings) (host : Host) (around : Surroundings)
    (folder : Folder) (jid : Jid) : Json → Prop
  | .obj payload =>
      ∀ type ∈ msgType payload, TargetsOwn runtime settings host around folder jid payload type
  | _ => True

theorem isolated_iff_keepsToGroup (runtime : Runtime) (settings : Settings) (host : Host)
    (around : Surroundings) (folder : Folder) (jid : Jid) (payload : Json)
    (h : host.registers folder jid) (hf : Follows host around) :
    Isolated host folder jid (effects runtime settings host around folder false payload) ↔
      KeepsToGroup runtime settings host around folder jid payload := by
  cases payload with
  | obj payload =>
      simp only [effects, handleIpc, KeepsToGroup]
      cases htype : msgType payload with
      | none => simp
      | some type => simpa using isolated_dispatch_iff h hf type
  | _ => simp [effects, handleIpc, KeepsToGroup]

-- A file request without chatJid is answered in the group's own chat.
theorem file_notice_stays_home :
    Isolated twoGroups "one" "tg:1"
      (effects plainRuntime plainSettings twoGroups { groups := twoGroups.groups } "one" false
        (.obj [("type", .str "send_file"), ("filePath", .str "/workspace/group/a.txt")])) := by
  rw [isolated_iff_keepsToGroup _ _ _ _ _ _ _ (by rfl) ⟨[], rfl⟩]
  intro type htype
  have hsend : type = .sendFile := (Option.some.inj htype).symm
  subst hsend
  intro _ htruthy
  exact absurd htruthy (by decide)

set_option maxRecDepth 4000 in
theorem task_scheduled_into_foreign_chat :
    ¬ Isolated twoGroups "one" "tg:1"
      (effects plainRuntime plainSettings twoGroups { groups := twoGroups.groups } "one" false
        (.obj [("type", .str "schedule_task"), ("chatJid", .str "tg:2"), ("prompt", .str "hi"),
          ("schedule_type", .str "interval"), ("schedule_value", .str "60000")])) := by
  decide

end EvoClaw.Ipc
