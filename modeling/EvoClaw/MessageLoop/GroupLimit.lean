import EvoClaw.MessageLoop.RateLimit
import Mathlib.Data.Rat.Star

-- The per-group rate limit. Its table is not capped.
namespace EvoClaw.MessageLoop

open SlidingWindow

-- RATE_LIMIT_MAX_MSGS and RATE_LIMIT_WINDOW_SECS
structure GroupLimits where
  maxMsgs : Nat
  window : ℚ
  one_le_maxMsgs : 1 ≤ maxMsgs
  window_pos : 0 < window

-- _group_msg_timestamps
abbrev GroupTimestamps (Jid : Type*) := SenderTimestamps Jid

structure GroupAnswer (Jid : Type*) where
  jid : Jid
  time : ℚ
  limited : Bool
deriving DecidableEq

section Calls

variable {Jid : Type*} [DecidableEq Jid]

def isRateLimited (limits : GroupLimits) (table : GroupTimestamps Jid) (jid : Jid) (now : ℚ) :
    Bool × GroupTimestamps Jid :=
  let table := setDefault table jid
  let q := live limits.window now (timestamps table jid)
  if limits.maxMsgs ≤ q.length then (true, setTimestamps table jid q)
  else (false, setTimestamps table jid (appendBounded (limits.maxMsgs * 2) q now))

def groupAnswers (limits : GroupLimits) :
    GroupTimestamps Jid → List (Jid × ℚ) → List (GroupAnswer Jid)
  | _, [] => []
  | table, (jid, now) :: rest =>
      let (limited, table) := isRateLimited limits table jid now
      ⟨jid, now, limited⟩ :: groupAnswers limits table rest

-- The times of the admitted calls of a group.
def admittedTimes (jid : Jid) (answered : List (GroupAnswer Jid)) : List ℚ :=
  (answered.filter fun answer => answer.jid = jid ∧ answer.limited = false).map GroupAnswer.time

-- How many calls of the group the window that ends at `now` has admitted.
def inWindow (limits : GroupLimits) (jid : Jid) (now : ℚ) (answered : List (GroupAnswer Jid)) :
    Nat :=
  answered.countP fun answer =>
    answer.jid = jid ∧ answer.limited = false ∧ now - answer.time ≤ limits.window

-- A call is refused exactly if its window is full, and no window admits more than the limit.
structure ExactWindow (limits : GroupLimits) (calls : List (Jid × ℚ)) : Prop where
  limited_iff : ∀ before answer after, groupAnswers limits [] calls = before ++ answer :: after →
    (answer.limited = true ↔ limits.maxMsgs ≤ inWindow limits answer.jid answer.time before)
  few : ∀ jid start,
    ((groupAnswers limits [] calls).countP fun answer => answer.jid = jid ∧
      answer.limited = false ∧ start ≤ answer.time ∧ answer.time ≤ start + limits.window) ≤
        limits.maxMsgs

end Calls

section Lemmas

variable {Jid : Type*} [DecidableEq Jid] {limits : GroupLimits} {table : GroupTimestamps Jid}
  {jid other : Jid} {now clock : ℚ} {answered : List (GroupAnswer Jid)} {calls : List (Jid × ℚ)}

-- The deque has room for the admitted times, so that it never drops one.
theorem appendBounded_room {limit : Nat} {q : List ℚ} (h : q.length < limit) :
    appendBounded (limit * 2) q now = q ++ [now] := by
  have hzero : q.length + 1 - limit * 2 = 0 := by omega
  rw [appendBounded, hzero, List.drop_zero]

theorem mem_setDefault : jid ∈ (setDefault table jid).map Prod.fst := by
  unfold setDefault
  split
  · next hmem => exact hmem
  · simp

theorem isRateLimited_eq (limits : GroupLimits) (table : GroupTimestamps Jid) (jid : Jid)
    (now : ℚ) :
    isRateLimited limits table jid now =
      ((request limits.maxMsgs limits.window now (timestamps table jid)).1,
        setTimestamps (setDefault table jid) jid
          (request limits.maxMsgs limits.window now (timestamps table jid)).2) := by
  unfold isRateLimited request
  simp only [timestamps_setDefault]
  split
  · rfl
  · next hroom => rw [appendBounded_room (Nat.lt_of_not_le hroom)]

theorem timestamps_isRateLimited (other : Jid) :
    timestamps (isRateLimited limits table jid now).2 other =
      if other = jid then (request limits.maxMsgs limits.window now (timestamps table jid)).2
      else timestamps table other := by
  rw [isRateLimited_eq, timestamps_set mem_setDefault, timestamps_setDefault]

theorem admittedTimes_append (jid : Jid) (answered : List (GroupAnswer Jid))
    (answer : GroupAnswer Jid) :
    admittedTimes jid (answered ++ [answer]) = admittedTimes jid answered ++
      if answer.jid = jid ∧ answer.limited = false then [answer.time] else [] := by
  unfold admittedTimes
  rw [List.filter_append, List.map_append, List.filter_singleton]
  by_cases h : answer.jid = jid ∧ answer.limited = false
  · rw [if_pos h, decide_eq_true h]
    rfl
  · rw [if_neg h, decide_eq_false h]
    rfl

theorem countP_admittedTimes (jid : Jid) (p : ℚ → Prop) [DecidablePred p] :
    (admittedTimes jid answered).countP p =
      answered.countP fun answer => answer.jid = jid ∧ answer.limited = false ∧ p answer.time := by
  unfold admittedTimes
  rw [List.countP_map, List.countP_filter]
  refine List.countP_congr fun answer _ => ?_
  simp only [Function.comp_apply, decide_eq_true_eq, Bool.and_eq_true, Bool.decide_and]
  tauto

-- The table remembers, of each group, the admitted times that are not over.
structure Remembers (limits : GroupLimits) (clock : ℚ) (answered : List (GroupAnswer Jid))
    (table : GroupTimestamps Jid) : Prop where
  bounded : ∀ jid,
    Bounded limits.maxMsgs limits.window clock (admittedTimes jid answered) (timestamps table jid)
  sorted : ∀ jid, (admittedTimes jid answered).Pairwise (· ≤ ·)

theorem remembers_nil (limits : GroupLimits) (clock : ℚ) :
    Remembers limits clock ([] : List (GroupAnswer Jid)) [] where
  bounded _ := bounded_nil limits.maxMsgs limits.window clock
  sorted _ := List.Pairwise.nil

theorem Remembers.later (h : Remembers limits clock answered table) (hnow : clock ≤ now) :
    Remembers limits now answered table :=
  ⟨fun group => (h.bounded group).later hnow, h.sorted⟩

theorem Remembers.limited_iff (h : Remembers limits clock answered table) (hnow : clock ≤ now) :
    (isRateLimited limits table jid now).1 = true ↔
      limits.maxMsgs ≤ inWindow limits jid now answered := by
  rw [isRateLimited_eq, inWindow, ← countP_admittedTimes jid fun t => now - t ≤ limits.window]
  exact ((h.bounded jid).later hnow).refuses_iff (h.sorted jid)

theorem Remembers.call (h : Remembers limits clock answered table) (jid : Jid)
    (hnow : clock ≤ now) :
    Remembers limits now (answered ++ [⟨jid, now, (isRateLimited limits table jid now).1⟩])
      (isRateLimited limits table jid now).2 := by
  have hlater := fun group => (h.bounded group).later hnow
  have htimes : ∀ group, admittedTimes group
      (answered ++ [⟨jid, now, (isRateLimited limits table jid now).1⟩]) =
        admittedTimes group answered ++
          if jid = group ∧ (isRateLimited limits table jid now).1 = false then [now] else [] :=
    fun group => admittedTimes_append group answered _
  refine ⟨fun group => ?_, fun group => ?_⟩
  · rw [htimes, timestamps_isRateLimited]
    by_cases hgroup : group = jid
    · subst hgroup
      have hrequest := (hlater group).request
      rw [if_pos rfl]
      rw [isRateLimited_eq]
      cases hlimited : (request limits.maxMsgs limits.window now (timestamps table group)).1 with
      | true => simpa [hlimited] using hrequest
      | false => simpa [hlimited] using hrequest
    · rw [if_neg hgroup, if_neg fun hown => hgroup hown.1.symm, List.append_nil]
      exact hlater group
  · rw [htimes]
    split
    · refine List.pairwise_append.mpr ⟨h.sorted group, List.pairwise_singleton _ _, ?_⟩
      intro t ht s hs
      rw [List.mem_singleton.mp hs]
      exact (hlater group).past t ht
    · rw [List.append_nil]
      exact h.sorted group

-- Along the calls, each answer is the one that the admitted calls before it ask for.
theorem Remembers.limited_iff_run (h : Remembers limits clock answered table)
    (hclock : ∀ call ∈ calls, clock ≤ call.2)
    (hsorted : calls.Pairwise fun call later => call.2 ≤ later.2)
    {before after : List (GroupAnswer Jid)} {answer : GroupAnswer Jid}
    (hsplit : groupAnswers limits table calls = before ++ answer :: after) :
    answer.limited = true ↔
      limits.maxMsgs ≤ inWindow limits answer.jid answer.time (answered ++ before) := by
  induction calls generalizing clock answered table before with
  | nil => simp [groupAnswers] at hsplit
  | cons call rest ih =>
      obtain ⟨jid, now⟩ := call
      have hnow : clock ≤ now := hclock (jid, now) List.mem_cons_self
      rw [List.pairwise_cons] at hsorted
      rw [groupAnswers] at hsplit
      cases before with
      | nil =>
          obtain ⟨rfl, -⟩ := List.cons.inj hsplit
          rw [List.append_nil]
          exact h.limited_iff hnow
      | cons first before =>
          obtain ⟨rfl, hrest⟩ := List.cons.inj hsplit
          have hlater := ih (h.call jid hnow) hsorted.1 hsorted.2 hrest
          rwa [List.append_assoc] at hlater

theorem Remembers.few_run (h : Remembers limits clock answered table)
    (hclock : ∀ call ∈ calls, clock ≤ call.2)
    (hsorted : calls.Pairwise fun call later => call.2 ≤ later.2) (jid : Jid) (start : ℚ) :
    ((answered ++ groupAnswers limits table calls).countP fun answer => answer.jid = jid ∧
      answer.limited = false ∧ start ≤ answer.time ∧ answer.time ≤ start + limits.window) ≤
        limits.maxMsgs := by
  induction calls generalizing clock answered table with
  | nil =>
      rw [groupAnswers, List.append_nil,
        ← countP_admittedTimes jid fun t => start ≤ t ∧ t ≤ start + limits.window]
      exact (h.bounded jid).few start
  | cons call rest ih =>
      obtain ⟨caller, now⟩ := call
      have hnow : clock ≤ now := hclock (caller, now) List.mem_cons_self
      rw [List.pairwise_cons] at hsorted
      have hrest := ih (h.call caller hnow) hsorted.1 hsorted.2
      rwa [List.append_assoc] at hrest

end Lemmas

theorem group_window_exact {Jid : Type*} [DecidableEq Jid] (limits : GroupLimits)
    (calls : List (Jid × ℚ)) (hsorted : calls.Pairwise fun call later => call.2 ≤ later.2) :
    ExactWindow limits calls := by
  obtain ⟨clock, hclock⟩ := exists_clock hsorted
  refine ⟨fun before answer after hsplit => ?_, fun jid start => ?_⟩
  · exact (remembers_nil limits clock).limited_iff_run hclock hsorted hsplit
  · exact (remembers_nil limits clock).few_run hclock hsorted jid start

def twoAMinute : GroupLimits where
  maxMsgs := 2
  window := 60
  one_le_maxMsgs := by decide
  window_pos := by norm_num

-- Two calls fit into the window, and the one that leaves it makes room for another one.
theorem group_window_exact_three :
    ExactWindow twoAMinute [("a", 0), ("a", 1), ("a", 60), ("a", 61)] :=
  group_window_exact _ _ (by decide +kernel)

example : (groupAnswers twoAMinute []
    [("a", 0), ("a", 1), ("a", 60), ("a", 61)]).map GroupAnswer.limited =
      [false, false, true, false] := by
  decide +kernel

end EvoClaw.MessageLoop
