import EvoClaw.GroupQueue.Runners

-- Parked groups are served in the order in which they came, and each of them after at most as
-- many hand-offs as there are groups before it.
namespace EvoClaw.GroupQueue

open EventSystem

variable {Fn : Type} {cfg : Config} {queue next : Queue Fn} {jid : Jid} {event : Event Fn}

-- A runner ends, and its group has nothing to do with the slot.
def Queue.handsOff (queue : Queue Fn) : Event Fn → Bool
  | .finish id _ => (queue.running? id).any fun runner =>
      !queue.shuttingDown && (queue.groups runner.jid).pendingTasks.isEmpty &&
        !(queue.groups runner.jid).pendingMessages
  | _ => false

-- What a run has made of the waiting list: the groups that were parked, those that left it, and
-- how often a slot was handed off.
structure Journal (Fn : Type) where
  queue : Queue Fn := {}
  parked : List Jid := []
  served : List Jid := []
  handOffs : Nat := 0

def Queue.arrived (queue next : Queue Fn) : List Jid :=
  next.waitingGroups.drop queue.waitingGroups.length

def Queue.left (queue next : Queue Fn) : List Jid :=
  queue.waitingGroups.take (queue.waitingGroups.length - next.waitingGroups.length)

def Journal.step (cfg : Config) (journal : Journal Fn) (event : Event Fn) : Option (Journal Fn) :=
  (journal.queue.step cfg event).map fun next =>
    { queue := next
      parked := journal.parked ++ journal.queue.arrived next
      served := journal.served ++ journal.queue.left next
      handOffs := journal.handOffs + (journal.queue.handsOff event).toNat }

-- A step appends to the list or serves groups from its front. The served ones that have
-- something to do get a runner, in their order.
inductive Waited (queue : Queue Fn) (event : Event Fn) (next : Queue Fn) : Prop where
  | appends (came : List Jid) (hcame : next.waitingGroups = queue.waitingGroups ++ came)
      (hempty : queue.handsOff event = true → queue.waitingGroups = [])
  | serves (gone : List Jid) (id : Nat) (hne : gone ≠ [])
      (hgone : queue.waitingGroups = gone ++ next.waitingGroups)
      (hstarts : next.runnerJids =
        (queue.withoutRunner id).runnerJids ++ gone.filter queue.dispatchable)

section Serving

theorem drainWaitingFrom_serves (waiting : List Jid) (hn : waiting.Nodup) (queue : Queue Fn)
    (hl : queue.waitingGroups = waiting) :
    ∃ gone, waiting = gone ++ (Queue.drainWaitingFrom cfg waiting queue).waitingGroups ∧
      StartsRunners queue (gone.filter queue.dispatchable)
        (Queue.drainWaitingFrom cfg waiting queue) ∧
      (waiting ≠ [] → queue.full cfg = false → gone ≠ []) := by
  induction waiting generalizing queue with
  | nil => exact ⟨[], hl.symm, .refl queue, fun h => absurd rfl h⟩
  | cons jid rest ih =>
      have hrest := List.nodup_cons.mp hn
      unfold Queue.drainWaitingFrom
      cases hf : queue.full cfg with
      | true => exact ⟨[], by simpa using hl.symm, .refl queue, fun _ h => by cases h⟩
      | false =>
          rw [if_neg Bool.false_ne_true]
          let popped := queue.popWaiting jid rest
          obtain ⟨gone, hgone, hstarts, -⟩ := ih hrest.2 (popped.dispatchParked jid)
            (Queue.dispatchParked_waitingGroups _ jid)
          -- the other groups are as they were
          have hfilter : gone.filter (popped.dispatchParked jid).dispatchable =
              gone.filter queue.dispatchable := by
            refine List.filter_congr fun other ho => ?_
            have hne : other ≠ jid := by
              rintro rfl
              exact hrest.1 (hgone ▸ List.mem_append_left _ ho)
            simp only [Queue.dispatchable, dispatchParked_groups_of_ne hne]
            rfl
          have hpopped : StartsRunners queue [] popped := .frame rfl rfl rfl
          have hloop := (hpopped.trans (.dispatchParked popped jid)).trans hstarts
          refine ⟨jid :: gone, by rw [List.cons_append, ← hgone], ?_, fun _ _ => by simp⟩
          rw [hfilter] at hloop
          rw [List.filter_cons]
          cases hd : queue.dispatchable jid with
          | true =>
              have hsame : popped.dispatchable jid = true := hd
              simpa only [hsame, if_true, List.nil_append, List.singleton_append] using hloop
          | false =>
              have hsame : popped.dispatchable jid = false := hd
              simpa only [hsame, Bool.false_eq_true, if_false, List.nil_append] using hloop

theorem drainWaiting_serves (hn : queue.waitingGroups.Nodup) :
    ∃ gone, queue.waitingGroups = gone ++ (queue.drainWaiting cfg).waitingGroups ∧
      StartsRunners queue (gone.filter queue.dispatchable) (queue.drainWaiting cfg) ∧
      (queue.waitingGroups ≠ [] → queue.full cfg = false → gone ≠ []) :=
  drainWaitingFrom_serves queue.waitingGroups hn queue rfl

theorem waited_of_append {came : List Jid} (hcame : next.waitingGroups = queue.waitingGroups ++ came)
    (hoff : queue.handsOff event = false) : Waited queue event next :=
  .appends came hcame fun h => by rw [hoff] at h; cases h

theorem waited_of_frame (hl : next.waitingGroups = queue.waitingGroups)
    (hoff : queue.handsOff event = false) : Waited queue event next :=
  waited_of_append (hl.trans (List.append_nil _).symm) hoff

theorem check_appends (queue : Queue Fn) (jid : Jid) (fromRetry : Bool) : ∃ came,
    (queue.enqueueMessageCheck cfg jid fromRetry).waitingGroups = queue.waitingGroups ++ came := by
  have hc := queue.enqueueMessageCheck_cases jid cfg fromRetry
  generalize queue.enqueueMessageCheck cfg jid fromRetry = next at hc ⊢
  cases hc with
  | parked => exact ⟨[jid], rfl⟩
  | _ => exact ⟨[], (List.append_nil _).symm⟩

theorem waited_task (taskId : TaskId) (fn : Fn) (hoff : queue.handsOff event = false) :
    Waited queue event (queue.enqueueTask cfg jid taskId fn) := by
  have hc := queue.enqueueTask_cases jid cfg taskId fn
  generalize queue.enqueueTask cfg jid taskId fn = next at hc ⊢
  cases hc with
  | parked => exact waited_of_append rfl hoff
  | _ => exact waited_of_frame rfl hoff

theorem freed_dispatchable {runner : Runner Fn} {outcome : Outcome}
    (ht : (queue.groups runner.jid).pendingTasks = [])
    (hm : (queue.groups runner.jid).pendingMessages = false) :
    (queue.freed runner outcome).dispatchable = queue.dispatchable := by
  funext other
  by_cases hother : other = runner.jid
  · subst hother
    simp [Queue.dispatchable, Queue.freed_pendingTasks, Queue.freed_pendingMessages, ht, hm]
  · simp only [Queue.dispatchable, Queue.freed_groups_of_ne queue other runner outcome hother]

theorem waited_finish (hw : WellFormed cfg queue) {runner : Runner Fn} (outcome : Outcome)
    (hr : runner ∈ queue.runners) (hp : runner.phase ≠ .created) :
    Waited queue (.finish runner.id outcome)
      ((queue.withoutRunner runner.id).runnerFinish cfg runner outcome) := by
  have hfound := running?_of_mem hw hr hp
  rw [Queue.runnerFinish_eq]
  have hd := (queue.freed runner outcome).drainGroup_cases runner.jid cfg
  generalize (queue.freed runner outcome).drainGroup cfg runner.jid = next at hd ⊢
  cases hd with
  | stopped hs =>
      rw [Queue.freed_shuttingDown] at hs
      exact waited_of_frame (queue.freed_waitingGroups runner outcome)
        (by simp [Queue.handsOff, hfound, hs])
  | task _ task rest ht =>
      rw [Queue.freed_pendingTasks] at ht
      exact waited_of_frame (queue.freed_waitingGroups runner outcome)
        (by simp [Queue.handsOff, hfound, ht])
  | deferred _ _ hm =>
      rw [Queue.freed_pendingMessages] at hm
      exact waited_of_frame (queue.freed_waitingGroups runner outcome)
        (by simp [Queue.handsOff, hfound, hm])
  | messages _ _ hm =>
      rw [Queue.freed_pendingMessages] at hm
      exact waited_of_frame (queue.freed_waitingGroups runner outcome)
        (by simp [Queue.handsOff, hfound, hm])
  | waiting _ ht hm =>
      rw [Queue.freed_pendingTasks] at ht
      rw [Queue.freed_pendingMessages] at hm
      -- the slot that was freed is there
      have hroom : (queue.freed runner outcome).full cfg = false := by
        have hle := hw.count_le
        rw [Queue.full_eq_false, Queue.freed_activeCount]
        omega
      obtain ⟨gone, hgone, hstarts, hserves⟩ :=
        drainWaiting_serves (hw.freed runner outcome).waiting_nodup
      rw [freed_dispatchable ht hm] at hstarts
      rw [Queue.freed_waitingGroups] at hgone hserves
      by_cases hnil : queue.waitingGroups = []
      · refine .appends [] ?_ fun _ => hnil
        rw [hnil] at hgone ⊢
        exact (List.append_eq_nil_iff.mp hgone.symm).2
      · refine .serves gone runner.id (hserves hnil hroom) hgone ?_
        rw [← freed_runnerJids outcome]
        exact hstarts.runnerJids

theorem waited_step (hw : WellFormed cfg queue) (hstep : queue.step cfg event = some next) :
    Waited queue event next := by
  cases Queue.step_cases hstep with
  | enqueueMessageCheck jid =>
      obtain ⟨came, hcame⟩ := check_appends queue jid false
      exact waited_of_append hcame rfl
  | enqueueTask _ taskId fn => exact waited_task taskId fn rfl
  | start runner =>
      refine waited_of_frame ?_ rfl
      unfold Queue.runnerStart
      split <;> rfl
  | finish runner outcome hr hp => exact waited_finish hw outcome hr hp
  | retryFires timer =>
      unfold Queue.retryFires
      split
      · exact waited_of_frame rfl rfl
      · obtain ⟨came, hcame⟩ := check_appends ((queue.withoutTimer timer.id).setGroup timer.jid
          { (queue.withoutTimer timer.id).groups timer.jid with retryReady := true }) timer.jid true
        exact waited_of_append hcame rfl
  | cancelCreated | tick | shutdownSync | shutdown => exact waited_of_frame rfl rfl

end Serving

section Journals

variable {journal later : Journal Fn}

-- What the two lists of a journal gain in a step.
theorem Waited.lists (h : Waited queue event next) :
    (queue.arrived next = [] ∨ queue.left next = []) ∧
      queue.waitingGroups ++ queue.arrived next = queue.left next ++ next.waitingGroups := by
  cases h with
  | appends came hcame _ =>
      have hleft : queue.left next = [] := by
        rw [Queue.left, hcame, List.length_append, Nat.sub_eq_zero_of_le (Nat.le_add_right _ _),
          List.take_zero]
      refine ⟨.inr hleft, ?_⟩
      rw [hleft, Queue.arrived, hcame, List.drop_left, List.nil_append]
  | serves gone id hne hgone _ =>
      have harrived : queue.arrived next = [] := by
        refine List.drop_eq_nil_of_le ?_
        rw [hgone, List.length_append]
        omega
      refine ⟨.inl harrived, ?_⟩
      rw [harrived, Queue.left, List.append_nil, hgone, List.length_append, Nat.add_sub_cancel,
        List.take_left]

theorem Journal.step_cases (hw : WellFormed cfg journal.queue)
    (hstep : journal.step cfg event = some later) :
    journal.queue.step cfg event = some later.queue ∧ Waited journal.queue event later.queue ∧
      later.parked = journal.parked ++ journal.queue.arrived later.queue ∧
      later.served = journal.served ++ journal.queue.left later.queue ∧
      later.handOffs = journal.handOffs + (journal.queue.handsOff event).toNat := by
  obtain ⟨next, hnext, rfl⟩ := Option.map_eq_some_iff.mp hstep
  exact ⟨hnext, waited_step hw hnext, rfl, rfl, rfl⟩

-- No group is passed by one that came after it, and a group that leaves the list with something to
-- do gets a runner in the same step.
structure Journal.Orderly (cfg : Config) (journal : Journal Fn) (event : Event Fn) : Prop where
  fifo : journal.parked = journal.served ++ journal.queue.waitingGroups
  starts : ∀ next, journal.queue.step cfg event = some next → journal.queue.left next ≠ [] →
    ∃ id, next.runnerJids = (journal.queue.withoutRunner id).runnerJids ++
      (journal.queue.left next).filter journal.queue.dispatchable

structure Journal.Inv (cfg : Config) (journal : Journal Fn) : Prop where
  wellFormed : WellFormed cfg journal.queue
  fifo : journal.parked = journal.served ++ journal.queue.waitingGroups

theorem Journal.Inv.step (h : journal.Inv cfg) (hstep : journal.step cfg event = some later) :
    later.Inv cfg := by
  obtain ⟨hqueue, hwaited, hparked, hserved, -⟩ := Journal.step_cases h.wellFormed hstep
  refine ⟨h.wellFormed.step hqueue, ?_⟩
  rw [hparked, hserved, h.fifo, List.append_assoc, List.append_assoc, hwaited.lists.2]

theorem Journal.Inv.orderly (h : journal.Inv cfg) : journal.Orderly cfg event := by
  refine ⟨h.fifo, fun next hnext hleft => ?_⟩
  have hwaited := waited_step h.wellFormed hnext
  cases hwaited with
  | appends came hcame _ =>
      refine absurd ?_ hleft
      rw [Queue.left, hcame, List.length_append, Nat.sub_eq_zero_of_le (Nat.le_add_right _ _),
        List.take_zero]
  | serves gone id _ hgone hstarts =>
      refine ⟨id, ?_⟩
      rw [hstarts, Queue.left, hgone, List.length_append, Nat.add_sub_cancel, List.take_left]

theorem parked_groups_in_order (cfg : Config) (events : List (Event Fn)) :
    Along (Journal.step cfg) (Journal.Orderly cfg) {} events := by
  have hempty : ({} : Journal Fn).Inv cfg := ⟨.empty, rfl⟩
  have hany : Along (Journal.step cfg) (fun _ _ => True) ({} : Journal Fn) events :=
    along_of_forall (fun _ _ => trivial) _ _
  exact hany.along (Journal.Inv cfg) (fun _ _ _ h _ hstep => h.step hstep)
    (fun _ _ h _ => h.orderly) hempty

-- The groups that left the list between two moments, and those that came. As many left as slots
-- were handed off, or all that were waiting at first are among them.
structure Progress (journal later : Journal Fn) (gone came : List Jid) : Prop where
  served : later.served = journal.served ++ gone
  list : journal.queue.waitingGroups ++ came = gone ++ later.queue.waitingGroups
  enough : later.handOffs ≤ journal.handOffs + gone.length ∨
    journal.queue.waitingGroups.length ≤ gone.length

theorem Progress.refl (journal : Journal Fn) : Progress journal journal [] [] :=
  ⟨(List.append_nil _).symm, List.append_nil _, .inl (Nat.le_refl _)⟩

theorem Progress.step {last : Journal Fn} {gone came : List Jid} (h : Progress journal later gone came)
    (hw : WellFormed cfg later.queue) (hstep : later.step cfg event = some last) :
    Progress journal last (gone ++ later.queue.left last.queue)
      (came ++ later.queue.arrived last.queue) := by
  obtain ⟨-, hwaited, -, hserved, hoffs⟩ := Journal.step_cases hw hstep
  refine ⟨by rw [hserved, h.served, List.append_assoc], ?_, ?_⟩
  · rw [← List.append_assoc, h.list, List.append_assoc, hwaited.lists.2, List.append_assoc]
  · rw [List.length_append, hoffs]
    rcases h.enough with hle | hall
    · cases hwaited with
      | appends _ _ hempty =>
          cases hoff : later.queue.handsOff event with
          | false => exact .inl (by rw [Bool.toNat_false]; omega)
          | true =>
              -- the slot was handed to nobody, since nobody is left
              have hlist := h.list
              rw [hempty hoff, List.append_nil] at hlist
              exact .inr (by rw [← hlist, List.length_append]; omega)
      | serves front id hne hgone _ =>
          have hleft : later.queue.left last.queue = front := by
            rw [Queue.left, hgone, List.length_append, Nat.add_sub_cancel, List.take_left]
          have hpos := List.length_pos_iff.mpr hne
          have hone := Bool.toNat_le (later.queue.handsOff event)
          exact .inl (by rw [hleft]; omega)
    · exact .inr (by omega)

theorem Progress.run {events : List (Event Fn)} (h : journal.Inv cfg)
    (hrun : run (Journal.step cfg) journal events = some later) :
    ∃ gone came, Progress journal later gone came := by
  have hstep (middle : Journal Fn) (event : Event Fn) (next : Journal Fn)
      (hmiddle : middle.Inv cfg ∧ ∃ gone came, Progress journal middle gone came)
      (hnext : middle.step cfg event = some next) :
      next.Inv cfg ∧ ∃ gone came, Progress journal next gone came := by
    obtain ⟨hinv, gone, came, hprogress⟩ := hmiddle
    exact ⟨hinv.step hnext, _, _, hprogress.step hinv.wellFormed hnext⟩
  exact (run_invariant _ hstep ⟨h, [], [], .refl journal⟩ hrun).2

-- The group behind `before` is served once more slots were handed off than `before` has groups,
-- and everybody before it is served before it.
theorem parked_group_served {past events : List (Event Fn)} {before after : List Jid}
    (hpast : run (Journal.step cfg) {} past = some journal)
    (hlist : journal.queue.waitingGroups = before ++ jid :: after)
    (hrun : run (Journal.step cfg) journal events = some later)
    (hoffs : journal.handOffs + before.length < later.handOffs) :
    journal.served ++ (before ++ [jid]) <+: later.served := by
  have hempty : ({} : Journal Fn).Inv cfg := ⟨.empty, rfl⟩
  have hinv := run_invariant (fun journal : Journal Fn => journal.Inv cfg)
    (fun _ _ _ h hstep => h.step hstep) hempty hpast
  obtain ⟨gone, came, hprogress⟩ := Progress.run hinv hrun
  have hlong : (before ++ [jid]).length ≤ gone.length := by
    have henough := hprogress.enough
    simp only [hlist, List.length_append, List.length_cons, List.length_nil] at henough ⊢
    omega
  -- both are prefixes of the first list with the newcomers behind it
  have hgone : gone <+: journal.queue.waitingGroups ++ came := ⟨_, hprogress.list.symm⟩
  have hbefore : before ++ [jid] <+: journal.queue.waitingGroups ++ came :=
    ⟨after ++ came, by simp [hlist]⟩
  rw [hprogress.served]
  exact (List.prefix_append_right_inj _).mpr (List.prefix_of_prefix_length_le hbefore hgone hlong)

-- One slot: "a" has it, "b" and "c" are parked.
def slotTaken : List (Event Unit) :=
  [.enqueueMessageCheck "a", .start 0, .enqueueMessageCheck "b", .enqueueMessageCheck "c"]

def twoHandOffs : List (Event Unit) := [.finish 0 .success, .start 1, .finish 1 .success]

theorem second_group_served :
    ∃ journal later : Journal Unit,
      run (Journal.step ⟨1, by decide⟩) {} slotTaken = some journal ∧
        run (Journal.step ⟨1, by decide⟩) journal twoHandOffs = some later ∧
        journal.served ++ (["b"] ++ ["c"]) <+: later.served :=
  ⟨_, _, rfl, rfl, @parked_group_served Unit ⟨1, by decide⟩ "c" _ _ slotTaken twoHandOffs ["b"] []
    rfl rfl rfl (by decide)⟩

end Journals

end EvoClaw.GroupQueue
