import EvoClaw.Dream.Model
import EvoClaw.EventSystem.Runs
import Mathlib.Data.List.Nodup

namespace EvoClaw.Dream

open EventSystem
open ContainerRunner (byteLength)

variable {memoryCompress : Bool} {settings : Settings} {state next other : Scheduler} {task : Task} {lock : Nat}
  {entry : Entry} {now : ℚ}

-- The memory that a dream has read, while it waits for what the model makes of it.
def Phase.read : Phase → Option (List Char)
  | .consolidating _ current_memory => some current_memory
  | .created | .waiting _ => none

-- A dream that stores its result overwrites the memory that the result was computed from.
def Fresh (state : Scheduler) : Event → Prop
  | .answer id result true _ =>
      ∀ task ∈ state.find id, ∀ current_memory ∈ task.phase.read,
        runDreamPass current_memory result ≠ current_memory → state.hot task.jid = current_memory
  | _ => True

def Phase.begun : Phase → Bool
  | .created => false
  | .waiting _ | .consolidating _ _ => true

-- No two dreams of a group have begun and not ended.
def OneDream (state : Scheduler) : Prop :=
  ((state.tasks.filter (·.phase.begun)).map Task.jid).Nodup

-- Only the other writers change the memory.
def LeftAlone (memoryCompress : Bool) (settings : Settings) (state : Scheduler) (event : Event) :
    Prop :=
  match event with
  | .write _ _ _ => True
  | _ => ∀ next, step memoryCompress settings state event = some next → next.hot = state.hot

-- The other writers change no memory that a dream has read and is still consolidating, and no
-- group is removed while a dream of it is under way.
def Orderly (settings : Settings) (state : Scheduler) : Event → Prop
  | .write jid writer true =>
      (writer.stores settings.lower (state.hot jid)).any (· ≠ state.hot jid) = true →
        ∀ task ∈ state.tasks, task.jid = jid → task.phase.read = none
  | .removeGroup jid => ∀ task ∈ state.tasks, task.jid ≠ jid
  | _ => True

instance (state : Scheduler) : Decidable (OneDream state) :=
  inferInstanceAs (Decidable (List.Nodup _))

instance (state : Scheduler) : ∀ event, Decidable (Fresh state event)
  | .answer _ _ true _ => by unfold Fresh; infer_instance
  | .answer _ _ false _ | .write _ _ _ | .touch _ _ | .tick _ | .start _ _ _ | .acquire _ _ _ |
      .removeGroup _ => isTrue trivial

instance (settings : Settings) (state : Scheduler) :
    ∀ event, Decidable (Orderly settings state event)
  | .write jid writer true => by unfold Orderly; infer_instance
  | .removeGroup jid => by unfold Orderly; infer_instance
  | .write _ _ false | .touch _ _ | .tick _ | .start _ _ _ | .acquire _ _ _ | .answer _ _ _ _ =>
      isTrue trivial

-- What the invariant speaks of is left alone by the bookkeeping of locks and times.
structure Same (state next : Scheduler) : Prop where
  hot : next.hot = state.hot
  tasks : next.tasks = state.tasks
  dreaming : next.dreaming = state.dreaming
  created : next.created = state.created

theorem Same.trans (h : Same state next) (h' : Same next other) : Same state other :=
  ⟨h'.hot.trans h.hot, h'.tasks.trans h.tasks, h'.dreaming.trans h.dreaming,
    h'.created.trans h.created⟩

theorem same_setLock (state : Scheduler) (lock : Nat) (value : Lock) :
    Same state (state.setLock lock value) := ⟨rfl, rfl, rfl, rfl⟩

theorem same_noteDream (state : Scheduler) (jid : String) (now : ℚ) :
    Same state (state.noteDream jid now) := ⟨rfl, rfl, rfl, rfl⟩

theorem same_release (state : Scheduler) (lock : Nat) : Same state (state.release lock) := by
  unfold Scheduler.release
  split
  · exact same_setLock ..
  · exact ⟨rfl, rfl, rfl, rfl⟩

theorem same_getHotLock (state : Scheduler) (jid : String) : Same state (state.getHotLock jid).1 := by
  unfold Scheduler.getHotLock
  split <;> exact ⟨rfl, rfl, rfl, rfl⟩

structure Inv (state : Scheduler) : Prop where
  ids : (state.tasks.map Task.id).Nodup
  created : ∀ task ∈ state.tasks, task.id < state.created
  jids : (state.tasks.map Task.jid).Nodup
  flagged : ∀ task ∈ state.tasks, state.dreaming task.jid = true
  fresh : ∀ task ∈ state.tasks, ∀ current_memory ∈ task.phase.read,
    state.hot task.jid = current_memory

-- The task is the only one with its id, and the only one of its group.
def Owns (state : Scheduler) (task : Task) : Prop :=
  ∀ found ∈ state.tasks, found.id = task.id ↔ found.jid = task.jid

theorem Inv.same (h : Inv state) (hsame : Same state next) : Inv next where
  ids := by rw [hsame.tasks]; exact h.ids
  created := by rw [hsame.tasks, hsame.created]; exact h.created
  jids := by rw [hsame.tasks]; exact h.jids
  flagged := by rw [hsame.tasks, hsame.dreaming]; exact h.flagged
  fresh := by rw [hsame.tasks, hsame.hot]; exact h.fresh

theorem Owns.same (h : Owns state task) (hsame : Same state next) : Owns next task := by
  unfold Owns
  rw [hsame.tasks]
  exact h

theorem Inv.owns (h : Inv state) (htask : task ∈ state.tasks) : Owns state task :=
  fun found hfound =>
  ⟨fun hid => by rw [List.inj_on_of_nodup_map h.ids hfound htask hid],
    fun hjid => by rw [List.inj_on_of_nodup_map h.jids hfound htask hjid]⟩

-- A task that ends may have changed the memory of its group.
theorem Inv.finish (h : Inv state) (howns : Owns state task) (htasks : next.tasks = state.tasks)
    (hdreaming : next.dreaming = state.dreaming) (hcreated : next.created = state.created)
    (hhot : ∀ jid, jid ≠ task.jid → next.hot jid = state.hot jid) : Inv (next.finish task) := by
  have hleft : ∀ found ∈ (next.finish task).tasks, found ∈ state.tasks ∧ found.jid ≠ task.jid := by
    intro found hfound
    simp only [Scheduler.finish, htasks, List.mem_filter, decide_eq_true_eq] at hfound
    exact ⟨hfound.1, fun hjid => hfound.2 ((howns found hfound.1).mpr hjid)⟩
  have hsub : ((next.finish task).tasks).Sublist state.tasks := by
    rw [← htasks]
    exact List.filter_sublist
  exact
    { ids := h.ids.sublist (hsub.map _)
      created := fun found hfound => by
        rw [show (next.finish task).created = next.created from rfl, hcreated]
        exact h.created found (hleft found hfound).1
      jids := h.jids.sublist (hsub.map _)
      flagged := fun found hfound => by
        obtain ⟨hmem, hjid⟩ := hleft found hfound
        simp only [Scheduler.finish]
        rw [Function.update_of_ne hjid, hdreaming]
        exact h.flagged found hmem
      fresh := fun found hfound current_memory hread => by
        obtain ⟨hmem, hjid⟩ := hleft found hfound
        exact (hhot found.jid hjid).trans (h.fresh found hmem current_memory hread) }

theorem Inv.finish_same (h : Inv state) (howns : Owns state task) (hsame : Same state next) :
    Inv (next.finish task) :=
  h.finish howns hsame.tasks hsame.dreaming hsame.created fun jid _ => by rw [hsame.hot]

theorem Inv.setPhase (h : Inv state) (howns : Owns state task) {phase : Phase}
    (hphase : ∀ current_memory ∈ phase.read, state.hot task.jid = current_memory) :
    Inv (state.setPhase task.id phase) := by
  have hids : (state.setPhase task.id phase).tasks.map Task.id = state.tasks.map Task.id := by
    simp only [Scheduler.setPhase, List.map_map]
    exact List.map_congr_left fun found _ => by dsimp; split <;> rfl
  have hjids : (state.setPhase task.id phase).tasks.map Task.jid = state.tasks.map Task.jid := by
    simp only [Scheduler.setPhase, List.map_map]
    exact List.map_congr_left fun found _ => by dsimp; split <;> rfl
  have hfrom : ∀ found ∈ (state.setPhase task.id phase).tasks, ∃ before ∈ state.tasks,
      found.id = before.id ∧ found.jid = before.jid ∧
        (found.phase = before.phase ∨ before.id = task.id ∧ found.phase = phase) := by
    intro found hfound
    obtain ⟨before, hbefore, rfl⟩ := List.mem_map.mp hfound
    refine ⟨before, hbefore, ?_⟩
    split
    · next hid => exact ⟨rfl, rfl, .inr ⟨hid, rfl⟩⟩
    · exact ⟨rfl, rfl, .inl rfl⟩
  exact
    { ids := by rw [hids]; exact h.ids
      created := fun found hfound => by
        obtain ⟨before, hbefore, hid, -, -⟩ := hfrom found hfound
        rw [hid]
        exact h.created before hbefore
      jids := by rw [hjids]; exact h.jids
      flagged := fun found hfound => by
        obtain ⟨before, hbefore, -, hjid, -⟩ := hfrom found hfound
        rw [hjid]
        exact h.flagged before hbefore
      fresh := fun found hfound current_memory hread => by
        obtain ⟨before, hbefore, -, hjid, hcase⟩ := hfrom found hfound
        rw [hjid]
        cases hcase with
        | inl hsame => exact h.fresh before hbefore current_memory (hsame ▸ hread)
        | inr hset =>
            rw [(howns before hbefore).mp hset.1]
            exact hphase current_memory (hset.2 ▸ hread) }

theorem Inv.enter (h : Inv state) (howns : Owns state task) :
    Inv (state.enter memoryCompress task lock entry now) := by
  unfold Scheduler.enter
  dsimp only
  split_ifs
  · exact h.finish_same howns (same_release ..)
  · exact h.finish_same howns (same_release ..)
  · exact h.finish_same howns ((same_release ..).trans (same_noteDream ..))
  · exact h.finish_same howns (same_release ..)
  · exact h.setPhase howns fun _ hread => Option.mem_some_iff.mp hread

theorem Inv.start (h : Inv state) (howns : Owns state task) : Inv (state.start memoryCompress task entry now) := by
  have hlock := same_getHotLock state task.jid
  unfold Scheduler.start
  dsimp only
  split
  · have hsame := hlock.trans (same_setLock _ (state.getHotLock task.jid).2 ⟨true, []⟩)
    exact (h.same hsame).enter (howns.same hsame)
  · next locked waiters _ _ =>
      have hsame := hlock.trans
        (same_setLock _ (state.getHotLock task.jid).2 ⟨locked, waiters ++ [task.id]⟩)
      exact (h.same hsame).setPhase (howns.same hsame) fun _ hread => nomatch hread
  · exact h.same hlock

theorem Inv.answer (h : Inv state) (howns : Owns state task) {current_memory : List Char}
    {result : Option (List Char)} {stored : Bool} :
    Inv (state.answer task lock current_memory result stored now) := by
  unfold Scheduler.answer
  dsimp only
  split_ifs
  · exact h.finish_same howns ((same_release ..).trans (same_noteDream ..))
  · have hsame := (same_release { state with
      hot := Function.update state.hot task.jid
        (updateHotMemory (runDreamPass current_memory result)) } lock).trans
      (same_noteDream _ task.jid now)
    refine h.finish howns hsame.tasks hsame.dreaming hsame.created fun jid hjid => ?_
    rw [hsame.hot]
    exact Function.update_of_ne hjid _ _
  · exact h.finish_same howns (same_release ..)

theorem Inv.tickGroup (h : Inv state) (group : String × ℚ) :
    Inv (state.tickGroup settings now group) := by
  unfold Scheduler.tickGroup
  split_ifs with hdreaming
  · exact h
  · exact h
  · have hnone : ∀ task ∈ state.tasks, task.jid ≠ group.1 := fun task htask hjid =>
      hdreaming (hjid ▸ h.flagged task htask)
    exact
      { ids := by
          rw [List.map_append, List.map_singleton]
          refine List.Nodup.append h.ids (List.nodup_singleton _) fun id hid hnew => ?_
          obtain ⟨task, htask, rfl⟩ := List.mem_map.mp hid
          exact absurd (List.mem_singleton.mp hnew) (Nat.ne_of_lt (h.created task htask))
        created := fun task htask => by
          cases List.mem_append.mp htask with
          | inl hold => exact Nat.lt_succ_of_lt (h.created task hold)
          | inr hnew =>
              cases List.mem_singleton.mp hnew
              exact Nat.lt_succ_self _
        jids := by
          rw [List.map_append, List.map_singleton]
          refine List.Nodup.append h.jids (List.nodup_singleton _) fun jid hjid hnew => ?_
          obtain ⟨task, htask, rfl⟩ := List.mem_map.mp hjid
          exact hnone task htask (List.mem_singleton.mp hnew)
        flagged := fun task htask => by
          cases List.mem_append.mp htask with
          | inl hold =>
              exact (Function.update_of_ne (hnone task hold) _ _).trans (h.flagged task hold)
          | inr hnew =>
              cases List.mem_singleton.mp hnew
              exact Function.update_self ..
        fresh := fun task htask current_memory hread => by
          cases List.mem_append.mp htask with
          | inl hold => exact h.fresh task hold current_memory hread
          | inr hnew =>
              cases List.mem_singleton.mp hnew
              cases hread }
  · exact h

theorem Inv.tick (h : Inv state) : Inv (state.tick settings now) := by
  unfold Scheduler.tick
  split
  · generalize state.lastActive = groups
    induction groups generalizing state with
    | nil => exact h
    | cons group rest ih => exact ih (h.tickGroup group)
  · exact h

theorem Inv.write (h : Inv state) {jid : String} {writer : Writer} {stored : Bool}
    (horderly : Orderly settings state (.write jid writer stored)) :
    Inv (state.write settings.lower jid writer stored) := by
  unfold Scheduler.write
  split
  · next content hcontent =>
      split
      · next hstored =>
          subst hstored
          refine { h with fresh := fun task htask current_memory hread => ?_ }
          have hfresh := h.fresh task htask current_memory hread
          by_cases hjid : task.jid = jid
          · -- the writer stores what was there
            by_cases heq : content = state.hot jid
            · dsimp only
              rw [heq, Function.update_eq_self]
              exact hfresh
            · have hchanges :
                  (writer.stores settings.lower (state.hot jid)).any (· ≠ state.hot jid) = true := by
                simp [hcontent, heq]
              have hidle := horderly hchanges task htask hjid
              rw [hidle] at hread
              cases hread
          · exact (Function.update_of_ne hjid _ _).trans hfresh
      · exact h
  · exact h

theorem Inv.removeGroup (h : Inv state) {jid : String}
    (horderly : ∀ task ∈ state.tasks, task.jid ≠ jid) : Inv (state.removeGroup jid) :=
  { ids := h.ids, created := h.created, jids := h.jids, fresh := h.fresh
    flagged := fun task htask =>
      (Function.update_of_ne (horderly task htask) _ _).trans (h.flagged task htask) }

theorem inv_step {event : Event} (h : Inv state) (horderly : Orderly settings state event)
    (hstep : step memoryCompress settings state event = some next) : Inv next := by
  cases event with
  | touch jid now =>
      cases hstep
      exact h.same ⟨rfl, rfl, rfl, rfl⟩
  | tick now =>
      cases hstep
      exact h.tick
  | start id entry now =>
      simp only [step] at hstep
      split at hstep
      · next hfind =>
          cases hstep
          exact h.start (h.owns (List.mem_of_find?_eq_some hfind))
      · cases hstep
  | acquire id entry now =>
      simp only [step] at hstep
      split at hstep
      · next hfind =>
          split at hstep
          · split_ifs at hstep
            cases hstep
            have howns := h.owns (List.mem_of_find?_eq_some hfind)
            exact (h.same (same_setLock ..)).enter (howns.same (same_setLock ..))
          · cases hstep
      · cases hstep
  | answer id result stored now =>
      simp only [step] at hstep
      split at hstep
      · next hfind =>
          cases hstep
          exact h.answer (h.owns (List.mem_of_find?_eq_some hfind))
      · cases hstep
  | write jid writer stored =>
      cases hstep
      exact h.write horderly
  | removeGroup jid =>
      cases hstep
      exact h.removeGroup horderly

theorem inv_started (hot : String → List Char) : Inv (Scheduler.started hot) where
  ids := List.nodup_nil
  created _ htask := nomatch htask
  jids := List.nodup_nil
  flagged _ htask := nomatch htask
  fresh _ htask := nomatch htask

theorem fresh_of_inv (h : Inv state) (event : Event) : Fresh state event := by
  unfold Fresh
  split
  · intro task hfind current_memory hread _
    exact h.fresh task (List.mem_of_find?_eq_some hfind) current_memory hread
  · trivial

theorem Inv.oneDream (h : Inv state) : OneDream state :=
  h.jids.sublist (List.filter_sublist.map Task.jid)

-- As long as the hot lock of a group is respected by everybody, no update is lost to a dream,
-- and a group has one dream at a time, whether the model can be called or not.
theorem orderly_dreams_lose_nothing (memoryCompress : Bool) (settings : Settings)
    (hot : String → List Char) (events : List Event)
    (horderly : Along (step memoryCompress settings) (Orderly settings) (Scheduler.started hot)
      events) :
    Along (step memoryCompress settings) Fresh (Scheduler.started hot) events ∧
      Always (step memoryCompress settings) OneDream (Scheduler.started hot) events :=
  ⟨horderly.along Inv (fun _ _ _ h hg hstep => inv_step h hg hstep)
      (fun _ event h _ => fresh_of_inv h event) (inv_started hot),
    horderly.always Inv (fun _ _ _ h hg hstep => inv_step h hg hstep) (fun _ h => h.oneDream)
      (inv_started hot)⟩

theorem hot_enter : (state.enter memoryCompress task lock entry now).hot = state.hot := by
  have hrelease := (same_release state lock).hot
  unfold Scheduler.enter
  dsimp only
  split_ifs
  · exact hrelease
  · exact hrelease
  · exact hrelease
  · exact hrelease
  · rfl

theorem hot_start : (state.start memoryCompress task entry now).hot = state.hot := by
  have hlock := (same_getHotLock state task.jid).hot
  unfold Scheduler.start
  dsimp only
  split
  · exact hot_enter.trans hlock
  · exact hlock
  · exact hlock

theorem hot_tick : (state.tick settings now).hot = state.hot := by
  unfold Scheduler.tick
  split
  · generalize state.lastActive = groups
    induction groups generalizing state with
    | nil => rfl
    | cons group rest ih =>
        have hrest : (rest.foldl (Scheduler.tickGroup settings now)
            (state.tickGroup settings now group)).hot = (state.tickGroup settings now group).hot := ih
        refine hrest.trans ?_
        unfold Scheduler.tickGroup
        split_ifs <;> rfl
  · rfl

section Idle

-- Between two steps no dream has begun, and every lock is free.
structure Idle (state : Scheduler) : Prop where
  created : ∀ task ∈ state.tasks, task.phase = .created
  free : ∀ value ∈ state.locks, value = ⟨false, []⟩

theorem Idle.oneDream (h : Idle state) : OneDream state := by
  have hnone : state.tasks.filter (·.phase.begun) = [] := by
    refine List.filter_eq_nil_iff.mpr fun task htask => ?_
    rw [h.created task htask]
    decide
  rw [OneDream, hnone]
  exact List.nodup_nil

theorem Idle.phase (h : Idle state) {id : Nat} (hfind : state.find id = some task) :
    task.phase = .created :=
  h.created task (List.mem_of_find?_eq_some hfind)

theorem Idle.finish (h : Idle state) : Idle (state.finish task) :=
  ⟨fun found hfound => h.created found (List.mem_of_mem_filter hfound), h.free⟩

theorem Idle.noteDream (h : Idle state) (jid : String) : Idle (state.noteDream jid now) :=
  ⟨h.created, h.free⟩

theorem Idle.getHotLock (h : Idle state) (jid : String) : Idle (state.getHotLock jid).1 := by
  unfold Scheduler.getHotLock
  split
  · exact h
  · refine ⟨h.created, fun value hvalue => ?_⟩
    cases List.mem_append.mp hvalue with
    | inl hold => exact h.free value hold
    | inr hnew => exact List.mem_singleton.mp hnew

-- A lock that a task takes and releases at once is free again.
theorem Idle.release (h : Idle state) (hlock : lock < state.locks.length) :
    Idle ((state.setLock lock ⟨true, []⟩).release lock) := by
  have hheld : (state.setLock lock ⟨true, []⟩).locks[lock]? = some ⟨true, []⟩ := by
    simp only [Scheduler.setLock]
    exact List.getElem?_set_self hlock
  simp only [Scheduler.release, hheld]
  refine ⟨h.created, fun value hvalue => ?_⟩
  simp only [Scheduler.setLock, List.set_set] at hvalue
  rcases List.mem_or_eq_of_mem_set hvalue with hold | rfl
  · exact h.free value hold
  · rfl

-- Without the module, a dream ends before its first await.
theorem Idle.enter (h : Idle state) (hlock : lock < state.locks.length) :
    Idle ((state.setLock lock ⟨true, []⟩).enter false task lock entry now) := by
  have hreleased := h.release hlock
  unfold Scheduler.enter
  dsimp only
  split_ifs with hread hshort hkey hmissing
  · exact hreleased.finish
  · exact hreleased.finish
  · exact (hreleased.noteDream task.jid).finish
  · exact hreleased.finish
  · exact absurd (.inl rfl) hmissing

theorem Idle.start (h : Idle state) : Idle (state.start false task entry now) := by
  have hidle := h.getHotLock task.jid
  unfold Scheduler.start
  dsimp only
  split
  · next hfree =>
      obtain ⟨hlock, -⟩ := List.getElem?_eq_some_iff.mp hfree
      exact hidle.enter hlock
  · next locked waiters hbusy hheld =>
      have hvalue := hidle.free _ (List.mem_of_getElem? hheld)
      simp only [Lock.mk.injEq] at hvalue
      exact absurd hvalue.2 (hbusy hvalue.1)
  · exact hidle

theorem Idle.tickGroup (h : Idle state) (group : String × ℚ) :
    Idle (state.tickGroup settings now group) := by
  unfold Scheduler.tickGroup
  split_ifs
  · exact h
  · exact h
  · refine ⟨fun task htask => ?_, h.free⟩
    cases List.mem_append.mp htask with
    | inl hold => exact h.created task hold
    | inr hnew => rw [List.mem_singleton.mp hnew]
  · exact h

theorem Idle.tick (h : Idle state) : Idle (state.tick settings now) := by
  unfold Scheduler.tick
  split
  · generalize state.lastActive = groups
    induction groups generalizing state with
    | nil => exact h
    | cons group rest ih => exact ih (h.tickGroup group)
  · exact h

-- No waiter and no dream that waits for an answer is there to go on.
theorem idle_step {event : Event} (h : Idle state)
    (hstep : step false settings state event = some next) : Idle next := by
  cases event with
  | touch jid now =>
      cases hstep
      exact ⟨h.created, h.free⟩
  | tick now =>
      cases hstep
      exact h.tick
  | start id entry now =>
      simp only [step] at hstep
      split at hstep
      · cases hstep
        exact h.start
      · cases hstep
  | acquire id entry now =>
      simp only [step] at hstep
      split at hstep
      · next hfind => cases h.phase hfind
      · cases hstep
  | answer id result stored now =>
      simp only [step] at hstep
      split at hstep
      · next hfind => cases h.phase hfind
      · cases hstep
  | write jid writer stored =>
      cases hstep
      unfold Scheduler.write
      split
      · split
        · exact ⟨h.created, h.free⟩
        · exact h
      · exact h
  | removeGroup jid =>
      cases hstep
      exact ⟨h.created, h.free⟩

theorem Idle.leftAlone (h : Idle state) (event : Event) : LeftAlone false settings state event := by
  cases event with
  | write jid writer stored => trivial
  | touch jid now | removeGroup jid =>
      intro next hnext
      cases hnext
      rfl
  | tick now =>
      intro next hnext
      cases hnext
      exact hot_tick
  | start id entry now =>
      intro next hnext
      simp only [step] at hnext
      split at hnext
      · cases hnext
        exact hot_start
      · cases hnext
  | acquire id entry now =>
      intro next hnext
      simp only [step] at hnext
      split at hnext
      · next hfind => cases h.phase hfind
      · cases hnext
  | answer id result stored now =>
      intro next hnext
      simp only [step] at hnext
      split at hnext
      · next hfind => cases h.phase hfind
      · cases hnext

theorem Idle.fresh (h : Idle state) (event : Event) : Fresh state event := by
  unfold Fresh
  split
  · intro task hfind current_memory hread
    rw [h.phase hfind] at hread
    cases hread
  · trivial

theorem idle_started (hot : String → List Char) : Idle (Scheduler.started hot) where
  created _ htask := nomatch htask
  free _ hvalue := nomatch hvalue

-- Without the module no update is lost to a dream, as no dream gets to change the memory, and a
-- group has one dream at a time.
theorem dreams_lose_nothing (settings : Settings) (hot : String → List Char)
    (events : List Event) :
    Along (step MEMORY_COMPRESS settings) Fresh (Scheduler.started hot) events ∧
      Along (step MEMORY_COMPRESS settings) (LeftAlone MEMORY_COMPRESS settings)
        (Scheduler.started hot) events ∧
      Always (step MEMORY_COMPRESS settings) OneDream (Scheduler.started hot) events := by
  have hall : Along (step MEMORY_COMPRESS settings) (fun _ _ => True) (Scheduler.started hot)
      events := along_of_forall (fun _ _ => trivial) _ _
  have hstep (state : Scheduler) (event : Event) (next : Scheduler) (h : Idle state) (_ : True)
      (hstep : step MEMORY_COMPRESS settings state event = some next) : Idle next :=
    idle_step h hstep
  exact ⟨hall.along Idle hstep (fun _ event h _ => h.fresh event) (idle_started hot),
    hall.along Idle hstep (fun _ event h _ => h.leftAlone event) (idle_started hot),
    hall.always Idle hstep (fun _ h => h.oneDream) (idle_started hot)⟩

end Idle

section Bounded

def Bounded (state : Scheduler) : Prop := ∀ jid, byteLength (state.hot jid) ≤ HOT_MEMORY_MAX_BYTES

theorem Bounded.update (h : Bounded state) {jid : String} {content : List Char}
    (hcontent : byteLength content ≤ HOT_MEMORY_MAX_BYTES)
    (hhot : next.hot = Function.update state.hot jid content) : Bounded next := by
  intro group
  rw [hhot]
  by_cases hjid : group = jid
  · rw [hjid, Function.update_self]
    exact hcontent
  · rw [Function.update_of_ne hjid]
    exact h group

theorem Bounded.same (h : Bounded state) (hhot : next.hot = state.hot) : Bounded next := by
  unfold Bounded
  rw [hhot]
  exact h

theorem bounded_answer (h : Bounded state) {current_memory : List Char}
    {result : Option (List Char)} {stored : Bool} :
    Bounded (state.answer task lock current_memory result stored now) := by
  unfold Scheduler.answer
  dsimp only
  split_ifs
  · exact h.same (same_release state lock).hot
  · exact h.update (byteLength_updateHotMemory_le _) (same_release { state with
      hot := Function.update state.hot task.jid
        (updateHotMemory (runDreamPass current_memory result)) } lock).hot
  · exact h.same (same_release state lock).hot

theorem bounded_step {event : Event} (h : Bounded state)
    (hstep : step memoryCompress settings state event = some next) : Bounded next := by
  cases event with
  | touch jid now =>
      cases hstep
      exact h
  | tick now =>
      cases hstep
      exact h.same hot_tick
  | start id entry now =>
      simp only [step] at hstep
      split at hstep
      · cases hstep
        exact h.same hot_start
      · cases hstep
  | acquire id entry now =>
      simp only [step] at hstep
      split at hstep
      · split at hstep
        · split_ifs at hstep
          cases hstep
          exact h.same hot_enter
        · cases hstep
      · cases hstep
  | answer id result stored now =>
      simp only [step] at hstep
      split at hstep
      · cases hstep
        exact bounded_answer h
      · cases hstep
  | write jid writer stored =>
      cases hstep
      unfold Scheduler.write
      split
      · next hcontent =>
          split
          · exact h.update (byteLength_stores_le hcontent) rfl
          · exact h
      · exact h
  | removeGroup jid =>
      cases hstep
      exact h

-- Whoever writes, no hot memory comes to be larger than its limit.
theorem hot_bounded {events : List Event} (h : Bounded state)
    (hrun : run (step memoryCompress settings) state events = some next) : Bounded next :=
  run_invariant Bounded (fun _ _ _ h hstep => bounded_step h hstep) h hrun

end Bounded

def asciiLower : Settings := { enabled := true, idleMinutes := 15, lower := List.map Char.toLower }

-- Two hundred bytes, which is just enough for a dream.
def notes : String → List Char := fun _ => List.replicate 200 'a'

def summary : List Char := "[Key Facts]\n- alice reviews".toList

-- With the module, a dream that is over before the next message loses nothing.
theorem dream_then_message :
    Along (step true asciiLower) Fresh (Scheduler.started notes)
        [.touch "tg:7" 10, .tick 5000, .start 0 .calls 5000, .answer 0 (some summary) true 5060,
          .write "tg:7" (.appendWarmLog "we decided".toList []) true, .removeGroup "tg:7"] ∧
      Always (step true asciiLower) OneDream (Scheduler.started notes)
        [.touch "tg:7" 10, .tick 5000, .start 0 .calls 5000, .answer 0 (some summary) true 5060,
          .write "tg:7" (.appendWarmLog "we decided".toList []) true, .removeGroup "tg:7"] :=
  orderly_dreams_lose_nothing true asciiLower notes _ (by decide +kernel)

-- With it, the decision that the fast path stores while the model is called is overwritten by what
-- the model made of the memory before it.
theorem decision_lost :
    (run (step true asciiLower) (Scheduler.started notes)
        [.touch "tg:7" 10, .tick 5000, .start 0 .calls 5000,
          .write "tg:7" (.appendWarmLog "we decided".toList []) true]).map (·.hot "tg:7") =
      some (notes "tg:7" ++ "\n- [DECISION] we decided \n".toList) ∧
    (run (step true asciiLower) (Scheduler.started notes)
        [.touch "tg:7" 10, .tick 5000, .start 0 .calls 5000,
          .write "tg:7" (.appendWarmLog "we decided".toList []) true,
          .answer 0 (some summary) true 5060]).map (·.hot "tg:7") = some summary ∧
    ¬ Along (step true asciiLower) Fresh (Scheduler.started notes)
        [.touch "tg:7" 10, .tick 5000, .start 0 .calls 5000,
          .write "tg:7" (.appendWarmLog "we decided".toList []) true,
          .answer 0 (some summary) true 5060] := by
  decide +kernel

-- A group that is removed and comes back has a second dream beside its first.
theorem two_dreams :
    ¬ Always (step true asciiLower) OneDream (Scheduler.started notes)
        [.touch "tg:7" 10, .tick 5000, .start 0 .calls 5000, .removeGroup "tg:7",
          .touch "tg:7" 5001, .tick 6000, .start 1 .calls 6000] := by
  decide +kernel

end EvoClaw.Dream
