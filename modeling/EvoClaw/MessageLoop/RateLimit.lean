import EvoClaw.EventSystem.Runs
import EvoClaw.Keyed
import EvoClaw.SlidingWindow
import Mathlib.Algebra.Order.Ring.Rat
import Mathlib.Tactic.NormNum

-- The per-sender rate limit, with a table of senders that is capped.
namespace EvoClaw.MessageLoop

open EventSystem SlidingWindow

-- Times are in seconds.
structure SenderLimits where
  maxMsgs : Nat
  window : ℚ
  one_le_maxMsgs : 1 ≤ maxMsgs
  one_le_window : 1 ≤ window

-- What is read from the environment. A setting that is missing or does not parse is None here.
def SenderLimits.ofEnv (maxMsgs : Option Int) (window : Option ℚ) : SenderLimits where
  maxMsgs := (max 1 (maxMsgs.getD 5)).toNat
  window := max 1 (window.getD 60)
  one_le_maxMsgs := by omega
  one_le_window := le_max_left 1 _

def SENDER_TIMESTAMPS_MAX : Nat := 5000

-- _sender_msg_timestamps, in the order of insertion
abbrev SenderTimestamps (Sender : Type*) := List (Sender × List ℚ)

section Table

variable {Sender : Type*} [DecidableEq Sender]

def timestamps (table : SenderTimestamps Sender) (sender : Sender) : List ℚ :=
  ((table.find? fun entry => entry.1 = sender).map Prod.snd).getD []

def setTimestamps (table : SenderTimestamps Sender) (sender : Sender) (q : List ℚ) :
    SenderTimestamps Sender :=
  table.map fun entry => if entry.1 = sender then (entry.1, q) else entry

-- The sender is new and the table is full.
def Evicts (table : SenderTimestamps Sender) (sender : Sender) : Prop :=
  sender ∉ table.map Prod.fst ∧ SENDER_TIMESTAMPS_MAX ≤ table.length

instance (table : SenderTimestamps Sender) (sender : Sender) :
    Decidable (Evicts table sender) := inferInstanceAs (Decidable (_ ∧ _))

def evictOldest (table : SenderTimestamps Sender) (sender : Sender) : SenderTimestamps Sender :=
  if Evicts table sender then table.tail else table

-- setdefault(sender, deque(..))
def setDefault (table : SenderTimestamps Sender) (sender : Sender) : SenderTimestamps Sender :=
  if sender ∈ table.map Prod.fst then table else table ++ [(sender, [])]

def makeRoom (table : SenderTimestamps Sender) (sender : Sender) : SenderTimestamps Sender :=
  setDefault (evictOldest table sender) sender

-- append to a deque of at most `maxlen` entries
def appendBounded (maxlen : Nat) (q : List ℚ) (now : ℚ) : List ℚ :=
  (q ++ [now]).drop (q.length + 1 - maxlen)

def isSenderRateLimited (limits : SenderLimits) (table : SenderTimestamps Sender)
    (sender : Sender) (now : ℚ) : Bool × SenderTimestamps Sender :=
  let table := makeRoom table sender
  let q := live limits.window now (timestamps table sender)
  if limits.maxMsgs ≤ q.length then (true, setTimestamps table sender q)
  else (false, setTimestamps table sender (appendBounded (limits.maxMsgs * 2) q now))

structure Answer (Sender : Type*) where
  sender : Sender
  time : ℚ
  limited : Bool
deriving DecidableEq

def answers (limits : SenderLimits) :
    SenderTimestamps Sender → List (Sender × ℚ) → List (Answer Sender)
  | _, [] => []
  | table, (sender, now) :: rest =>
      let (limited, table) := isSenderRateLimited limits table sender now
      ⟨sender, now, limited⟩ :: answers limits table rest

def callStep (limits : SenderLimits) (table : SenderTimestamps Sender) (call : Sender × ℚ) :
    Option (SenderTimestamps Sender) :=
  some (isSenderRateLimited limits table call.1 call.2).2

-- A sender that is evicted has no call left in the window.
def ForgetsOver (limits : SenderLimits) (table : SenderTimestamps Sender) (call : Sender × ℚ) :
    Prop :=
  Evicts table call.1 → ∀ entry ∈ table.head?, ∀ t ∈ entry.2, limits.window < call.2 - t

end Table

section Alone

-- The answers to one sender's calls, from its own timestamps.
def aloneAnswers {Sender : Type*} (limits : SenderLimits) (sender : Sender) :
    List ℚ → List ℚ → List (Answer Sender)
  | _, [] => []
  | q, now :: rest =>
      let (limited, q) := request limits.maxMsgs limits.window now q
      ⟨sender, now, limited⟩ :: aloneAnswers limits sender q rest

end Alone

section Lemmas

variable {Sender : Type*} [DecidableEq Sender] {limits : SenderLimits}
  {table : SenderTimestamps Sender} {sender other : Sender} {now clock : ℚ} {q times admitted : List ℚ}
  {calls : List (Sender × ℚ)}

theorem timestamps_of_notMem (h : sender ∉ table.map Prod.fst) : timestamps table sender = [] := by
  rw [timestamps, Keyed.find?_eq_none_iff.mpr h]
  rfl

theorem timestamps_set (hmem : sender ∈ table.map Prod.fst) :
    timestamps (setTimestamps table sender q) other =
      if other = sender then q else timestamps table other := by
  have hfind : (setTimestamps table sender q).find? (fun entry => entry.1 = other) =
      if other = sender then (table.find? fun entry => entry.1 = other).map fun entry => (entry.1, q)
      else table.find? fun entry => entry.1 = other :=
    Keyed.find?_update (f := fun entry => (entry.1, q)) (fun _ => rfl) sender
  rw [timestamps, hfind]
  split
  · next heq =>
      subst heq
      cases h : table.find? fun entry => entry.1 = other with
      | none => exact absurd hmem (Keyed.find?_eq_none_iff.mp h)
      | some entry => rfl
  · rfl

theorem keys_set : (setTimestamps table sender q).map Prod.fst = table.map Prod.fst := by
  rw [setTimestamps, List.map_map]
  refine List.map_congr_left fun entry _ => ?_
  simp only [Function.comp_apply]
  split <;> rfl

theorem appendBounded_eq (h : q.length < limits.maxMsgs) :
    appendBounded (limits.maxMsgs * 2) q now = q ++ [now] := by
  have hzero : q.length + 1 - limits.maxMsgs * 2 = 0 := by omega
  rw [appendBounded, hzero, List.drop_zero]

theorem isSenderRateLimited_eq (limits : SenderLimits) (table : SenderTimestamps Sender)
    (sender : Sender) (now : ℚ) :
    isSenderRateLimited limits table sender now =
      ((request limits.maxMsgs limits.window now (timestamps (makeRoom table sender) sender)).1,
        setTimestamps (makeRoom table sender) sender
          (request limits.maxMsgs limits.window now
            (timestamps (makeRoom table sender) sender)).2) := by
  unfold isSenderRateLimited request
  simp only
  split
  · rfl
  · next hroom => rw [appendBounded_eq (Nat.lt_of_not_le hroom)]

theorem mem_makeRoom : sender ∈ (makeRoom table sender).map Prod.fst := by
  unfold makeRoom setDefault
  split
  · next hmem => exact hmem
  · simp

theorem nodup_makeRoom (h : (table.map Prod.fst).Nodup) :
    ((makeRoom table sender).map Prod.fst).Nodup := by
  have hevicted : ((evictOldest table sender).map Prod.fst).Nodup := by
    unfold evictOldest
    split
    · exact h.sublist ((List.tail_sublist table).map Prod.fst)
    · exact h
  unfold makeRoom setDefault
  split
  · exact hevicted
  · next hnew =>
      rw [List.map_append]
      exact hevicted.append (List.nodup_singleton sender) (by simpa using hnew)

theorem timestamps_setDefault (table : SenderTimestamps Sender) (sender other : Sender) :
    timestamps (setDefault table sender) other = timestamps table other := by
  unfold setDefault
  split
  · rfl
  · next hnew =>
      have hfind : (table ++ [(sender, [])]).find? (fun entry => entry.1 = other) =
          if other = sender then some (sender, []) else table.find? fun entry => entry.1 = other :=
        Keyed.find?_insert hnew
      rw [timestamps, hfind]
      split
      · next heq =>
          rw [heq, timestamps_of_notMem hnew]
          rfl
      · rfl

-- Making room loses no call that is still in the window.
theorem live_makeRoom (h : (table.map Prod.fst).Nodup)
    (hforgets : ForgetsOver limits table (sender, now)) (other : Sender) :
    live limits.window now (timestamps (makeRoom table sender) other) =
      live limits.window now (timestamps table other) := by
  rw [makeRoom, timestamps_setDefault, evictOldest]
  split
  · next hevicts =>
      cases table with
      | nil => rfl
      | cons entry rest =>
          have hover := hforgets hevicts entry rfl
          rw [List.map_cons, List.nodup_cons] at h
          by_cases hother : entry.1 = other
          · have hrest : other ∉ rest.map Prod.fst := hother ▸ h.1
            have hentry : timestamps (entry :: rest) other = entry.2 := by
              simp [timestamps, hother]
            rw [hentry, live_eq_nil hover, List.tail_cons, timestamps_of_notMem hrest]
            rfl
          · have hentry : timestamps (entry :: rest) other = timestamps rest other := by
              simp [timestamps, hother]
            rw [hentry, List.tail_cons]
  · rfl

theorem map_sender_answers (limits : SenderLimits) (table : SenderTimestamps Sender)
    (calls : List (Sender × ℚ)) :
    (answers limits table calls).map Answer.sender = calls.map Prod.fst := by
  induction calls generalizing table with
  | nil => rfl
  | cons call rest ih => exact congrArg (call.1 :: ·) (ih _)

-- A call is answered from the times of its own sender that are not over.
theorem isSenderRateLimited_own {caller : Sender}
    (hq : live limits.window now (timestamps (makeRoom table caller) caller) =
      live limits.window now q) :
    (isSenderRateLimited limits table caller now).1 =
        (request limits.maxMsgs limits.window now q).1 ∧
      timestamps (isSenderRateLimited limits table caller now).2 caller =
        (request limits.maxMsgs limits.window now q).2 := by
  have hrequest : request limits.maxMsgs limits.window now
      (timestamps (makeRoom table caller) caller) =
        request limits.maxMsgs limits.window now q := request_congr hq
  rw [isSenderRateLimited_eq]
  refine ⟨congrArg Prod.fst hrequest, ?_⟩
  rw [timestamps_set mem_makeRoom, if_pos rfl, hrequest]

theorem isSenderRateLimited_other {caller : Sender} (hcaller : caller ≠ sender) :
    timestamps (isSenderRateLimited limits table caller now).2 sender =
      timestamps (makeRoom table caller) sender := by
  rw [isSenderRateLimited_eq, timestamps_set mem_makeRoom, if_neg (Ne.symm hcaller)]

-- As long as nothing is forgotten too early, a sender is answered from its own calls.
theorem answers_filter (hnodup : (table.map Prod.fst).Nodup)
    (hlive : live limits.window clock (timestamps table sender) = live limits.window clock q)
    (hclock : ∀ call ∈ calls, clock ≤ call.2)
    (hsorted : calls.Pairwise fun call later => call.2 ≤ later.2)
    (hforgets : Along (callStep limits) (ForgetsOver limits) table calls) :
    (answers limits table calls).filter (fun answer => answer.sender = sender) =
      aloneAnswers limits sender q
        ((calls.filter fun call => call.1 = sender).map Prod.snd) := by
  induction calls generalizing table q clock with
  | nil => rfl
  | cons call rest ih =>
      obtain ⟨caller, now⟩ := call
      obtain ⟨hforget, hrestForgets⟩ := hforgets
      rw [List.pairwise_cons] at hsorted
      have hnow : clock ≤ now := hclock _ List.mem_cons_self
      have hq : live limits.window now (timestamps (makeRoom table caller) sender) =
          live limits.window now q := by
        rw [live_makeRoom hnodup hforget, ← live_live hnow, hlive, live_live hnow]
      have hnext : ((isSenderRateLimited limits table caller now).2.map Prod.fst).Nodup := by
        rw [isSenderRateLimited_eq, keys_set]
        exact nodup_makeRoom hnodup
      by_cases hcaller : caller = sender
      · subst hcaller
        obtain ⟨hanswer, htimes⟩ := isSenderRateLimited_own hq
        have hrest := ih hnext (congrArg (live limits.window now) htimes) hsorted.1 hsorted.2
          hrestForgets
        rw [answers, List.filter_cons_of_pos (by simp), List.filter_cons_of_pos (by simp),
          List.map_cons, aloneAnswers, hrest, hanswer]
      · have hlater : live limits.window now
            (timestamps (isSenderRateLimited limits table caller now).2 sender) =
              live limits.window now q := by rw [isSenderRateLimited_other hcaller, hq]
        have hrest := ih hnext hlater hsorted.1 hsorted.2 hrestForgets
        rw [answers, List.filter_cons_of_neg (by simpa using hcaller),
          List.filter_cons_of_neg (by simpa using hcaller)]
        exact hrest

-- Calls in their order are not earlier than the first of them.
omit [DecidableEq Sender] in
theorem exists_clock (hsorted : calls.Pairwise fun call later => call.2 ≤ later.2) :
    ∃ clock, ∀ call ∈ calls, clock ≤ call.2 := by
  cases calls with
  | nil => exact ⟨0, fun _ h => nomatch h⟩
  | cons call rest =>
      rw [List.pairwise_cons] at hsorted
      refine ⟨call.2, fun later hlater => ?_⟩
      rcases List.mem_cons.mp hlater with rfl | hrest
      · exact le_refl _
      · exact hsorted.1 later hrest

-- A sender on its own is never evicted.
theorem along_alone (hcalls : ∀ call ∈ calls, call.1 = sender)
    (htable : table = [] ∨ ∃ q, table = [(sender, q)]) :
    Along (callStep limits) (ForgetsOver limits) table calls := by
  induction calls generalizing table with
  | nil => trivial
  | cons call rest ih =>
      obtain ⟨caller, now⟩ := call
      have hcaller : caller = sender := hcalls _ List.mem_cons_self
      subst hcaller
      have hroom : ¬ Evicts table caller := by
        rintro ⟨-, hfull⟩
        rcases htable with rfl | ⟨q, rfl⟩
        · simp [SENDER_TIMESTAMPS_MAX] at hfull
        · simp [SENDER_TIMESTAMPS_MAX] at hfull
      refine ⟨fun hevicts => absurd hevicts hroom,
        ih (fun call hcall => hcalls call (List.mem_cons_of_mem _ hcall)) (Or.inr ?_)⟩
      rw [isSenderRateLimited_eq]
      have hmade : ∃ q, makeRoom table caller = [(caller, q)] := by
        rcases htable with rfl | ⟨q, rfl⟩
        · exact ⟨[], by simp [makeRoom, evictOldest, setDefault]⟩
        · exact ⟨q, by simp [makeRoom, evictOldest, setDefault, Evicts]⟩
      obtain ⟨q, hq⟩ := hmade
      rw [hq]
      simp [setTimestamps]

-- A sender on its own is answered from its own calls.
theorem answers_alone (hcalls : ∀ call ∈ calls, call.1 = sender)
    (hsorted : calls.Pairwise fun call later => call.2 ≤ later.2) :
    answers limits [] calls = aloneAnswers limits sender [] (calls.map Prod.snd) := by
  obtain ⟨clock, hclock⟩ := exists_clock hsorted
  have hnodup : (([] : SenderTimestamps Sender).map Prod.fst).Nodup := List.nodup_nil
  have hfiltered : (answers limits [] calls).filter (fun answer => answer.sender = sender) =
      aloneAnswers limits sender [] ((calls.filter fun call => call.1 = sender).map Prod.snd) :=
    answers_filter hnodup rfl hclock hsorted (along_alone hcalls (Or.inl rfl))
  have hanswers : ∀ answer ∈ answers limits [] calls,
      decide (answer.sender = sender) = true := by
    intro answer hanswer
    have hmem : answer.sender ∈ (answers limits [] calls).map Answer.sender :=
      List.mem_map_of_mem hanswer
    rw [map_sender_answers] at hmem
    obtain ⟨call, hcall, heq⟩ := List.mem_map.mp hmem
    rw [← heq]
    exact decide_eq_true (hcalls call hcall)
  have hown : calls.filter (fun call => call.1 = sender) = calls :=
    List.filter_eq_self.mpr fun call hcall => decide_eq_true (hcalls call hcall)
  rw [List.filter_eq_self.mpr hanswers, hown] at hfiltered
  exact hfiltered

omit [DecidableEq Sender] in
theorem few_alone (hbounded : Bounded limits.maxMsgs limits.window clock admitted q)
    (hclock : ∀ now ∈ times, clock ≤ now) (hsorted : times.Pairwise (· ≤ ·)) (start : ℚ) :
    (admitted.countP fun t => start ≤ t ∧ t ≤ start + limits.window) +
      ((aloneAnswers limits sender q times).countP fun answer => answer.limited = false ∧
        start ≤ answer.time ∧ answer.time ≤ start + limits.window) ≤ limits.maxMsgs := by
  induction times generalizing admitted q clock with
  | nil => exact hbounded.few start
  | cons now rest ih =>
      rw [List.pairwise_cons] at hsorted
      have hnow := hbounded.later (hclock now List.mem_cons_self)
      have hrest := ih hnow.request hsorted.1 hsorted.2
      rw [aloneAnswers]
      simp only [List.countP_cons]
      rw [List.countP_append] at hrest
      cases hlimited : (request limits.maxMsgs limits.window now q).1 with
      | true =>
          rw [hlimited] at hrest
          simpa using hrest
      | false =>
          rw [hlimited] at hrest
          simp only [Bool.false_eq_true, if_false, List.countP_singleton] at hrest
          simp only [decide_eq_true_eq] at hrest
          simp only [true_and, decide_eq_true_eq]
          omega

end Lemmas

-- Each sender is answered as if it were alone, and no window admits more than the limit.
structure Isolates {Sender : Type*} [DecidableEq Sender] (limits : SenderLimits)
    (calls : List (Sender × ℚ)) : Prop where
  own_calls : ∀ sender,
    (answers limits [] calls).filter (fun answer => answer.sender = sender) =
      answers limits [] (calls.filter fun call => call.1 = sender)
  few : ∀ sender start,
    ((answers limits [] calls).countP fun answer => answer.sender = sender ∧
      answer.limited = false ∧ start ≤ answer.time ∧ answer.time ≤ start + limits.window) ≤
        limits.maxMsgs

theorem sender_limiter_isolates {Sender : Type*} [DecidableEq Sender] (limits : SenderLimits)
    (calls : List (Sender × ℚ)) (hsorted : calls.Pairwise fun call later => call.2 ≤ later.2)
    (hforgets : Along (callStep limits) (ForgetsOver limits) [] calls) :
    Isolates limits calls := by
  have hnodup : (([] : SenderTimestamps Sender).map Prod.fst).Nodup := List.nodup_nil
  obtain ⟨clock, hclock⟩ := exists_clock hsorted
  have hfiltered : ∀ sender,
      (answers limits [] calls).filter (fun answer => answer.sender = sender) =
        aloneAnswers limits sender [] ((calls.filter fun call => call.1 = sender).map Prod.snd) :=
    fun sender => answers_filter hnodup rfl hclock hsorted hforgets
  refine ⟨fun sender => ?_, fun sender start => ?_⟩
  · have hown : ∀ call ∈ calls.filter fun call => call.1 = sender, call.1 = sender :=
      fun call hcall => of_decide_eq_true (List.mem_filter.mp hcall).2
    rw [hfiltered, answers_alone hown (hsorted.filter _)]
  · have hown : ∀ now ∈ (calls.filter fun call => call.1 = sender).map Prod.snd, clock ≤ now := by
      intro now hnow
      obtain ⟨call, hcall, rfl⟩ := List.mem_map.mp hnow
      exact hclock call (List.mem_filter.mp hcall).1
    have hfew : ([].countP fun t => start ≤ t ∧ t ≤ start + limits.window) +
        ((aloneAnswers limits sender [] ((calls.filter fun call => call.1 = sender).map
          Prod.snd)).countP fun answer => answer.limited = false ∧ start ≤ answer.time ∧
            answer.time ≤ start + limits.window) ≤ limits.maxMsgs :=
      few_alone (bounded_nil limits.maxMsgs limits.window clock) hown
        (List.pairwise_map.mpr (hsorted.filter _)) start
    rw [← hfiltered, List.countP_filter] at hfew
    have hcount := Nat.le_trans (Nat.le_add_left _ _) hfew
    simpa [Bool.and_comm] using hcount

theorem sender_limiter_isolates_two :
    Isolates (SenderLimits.ofEnv none none) [("a", 0), ("b", 1), ("a", 1)] :=
  sender_limiter_isolates _ _ (by decide +kernel)
    ⟨fun h => absurd h.2 (by decide), fun h => absurd h.2 (by decide +kernel),
      fun h => absurd h.2 (by decide +kernel), trivial⟩

section Evicted

variable {Sender : Type*} [DecidableEq Sender] {limits : SenderLimits}
  {table : SenderTimestamps Sender} {sender : Sender} {now : ℚ} {senders : List Sender}
  {rest : List (Sender × ℚ)}

theorem setTimestamps_last {q : List ℚ} (h : sender ∉ table.map Prod.fst) :
    setTimestamps (table ++ [(sender, [])]) sender q = table ++ [(sender, q)] := by
  have hothers : setTimestamps table sender q = table := by
    have hmap : table.map (fun entry => if entry.1 = sender then (entry.1, q) else entry) =
        table.map id := by
      refine List.map_congr_left fun entry hentry => if_neg fun heq => h ?_
      exact heq ▸ List.mem_map_of_mem hentry
    rw [setTimestamps, hmap, List.map_id]
  have happend : setTimestamps (table ++ [(sender, [])]) sender q =
      setTimestamps table sender q ++ setTimestamps [(sender, [])] sender q := List.map_append
  rw [happend, hothers, setTimestamps, List.map_cons, if_pos rfl]
  rfl

-- A sender that the table does not know is admitted.
theorem isSenderRateLimited_new (h : sender ∉ table.map Prod.fst) :
    isSenderRateLimited limits table sender now =
      (false, evictOldest table sender ++ [(sender, [now])]) := by
  have hevicted : sender ∉ (evictOldest table sender).map Prod.fst := by
    unfold evictOldest
    split
    · exact fun hmem => h (((List.tail_sublist table).map Prod.fst).subset hmem)
    · exact h
  have hroom : makeRoom table sender = evictOldest table sender ++ [(sender, [])] := by
    rw [makeRoom, setDefault, if_neg hevicted]
  have htimes : timestamps (makeRoom table sender) sender = [] := by
    rw [makeRoom, timestamps_setDefault, timestamps_of_notMem hevicted]
  have hrequest : request limits.maxMsgs limits.window now [] = (false, [now]) := by
    exact if_neg (Nat.not_le.mpr limits.one_le_maxMsgs)
  rw [isSenderRateLimited_eq, htimes, hrequest, hroom, setTimestamps_last hevicted]

theorem answers_fill (hnodup : senders.Nodup) (hnew : ∀ s ∈ senders, s ∉ table.map Prod.fst)
    (hroom : table.length + senders.length ≤ SENDER_TIMESTAMPS_MAX) :
    answers limits table (senders.map (fun s => (s, now)) ++ rest) =
      senders.map (fun s => ⟨s, now, false⟩) ++
        answers limits (table ++ senders.map fun s => (s, [now])) rest := by
  induction senders generalizing table with
  | nil => simp
  | cons s senders ih =>
      rw [List.nodup_cons] at hnodup
      have hs := hnew s List.mem_cons_self
      have hkept : evictOldest table s = table := by
        rw [List.length_cons] at hroom
        exact if_neg fun hevicts => absurd hevicts.2 (by omega)
      have hothers : ∀ other ∈ senders, other ∉ (table ++ [(s, [now])]).map Prod.fst := by
        intro other hother hmem
        rw [List.map_append, List.mem_append] at hmem
        rcases hmem with hmem | hmem
        · exact hnew other (List.mem_cons_of_mem s hother) hmem
        · rw [List.mem_singleton.mp hmem] at hother
          exact hnodup.1 hother
      have hlength : (table ++ [(s, [now])]).length + senders.length ≤ SENDER_TIMESTAMPS_MAX := by
        simp only [List.length_append, List.length_cons, List.length_nil] at hroom ⊢
        omega
      rw [List.map_cons, List.cons_append, answers, isSenderRateLimited_new hs, hkept]
      simp only
      rw [ih hnodup.2 hothers hlength]
      simp

end Evicted

-- Senders by the lengths of their names.
def crowd (n : Nat) : List (List Char) := (List.range n).map fun i => List.replicate i 'x'

-- Five calls of a sender, one call each of n + 1 others, and again one of the sender.
def flood (n : Nat) : List (List Char × ℚ) :=
  List.replicate 5 (['u'], 0) ++ ((crowd n).map (fun s => (s, 0)) ++
    [(List.replicate n 'x', 0), (['u'], 0)])

theorem crowd_nodup (n : Nat) : (crowd n).Nodup := by
  refine List.Nodup.map (fun i j h => ?_) List.nodup_range
  simpa using congrArg List.length h

theorem replicate_ne_user (n : Nat) : List.replicate n 'x' ≠ ['u'] := by
  intro h
  have hmem : 'u' ∈ List.replicate n 'x' := h ▸ List.mem_singleton_self 'u'
  exact absurd (List.eq_of_mem_replicate hmem) (by decide)

theorem user_notMem_crowd (n : Nat) : ['u'] ∉ crowd n := by
  intro h
  obtain ⟨i, -, hi⟩ := List.mem_map.mp h
  exact replicate_ne_user i hi

theorem next_notMem_crowd (n : Nat) : List.replicate n 'x' ∉ crowd n := by
  intro h
  obtain ⟨i, hi, heq⟩ := List.mem_map.mp h
  have hlength := congrArg List.length heq
  simp only [List.length_replicate] at hlength
  exact absurd (List.mem_range.mp hi) (by omega)

-- The first five calls are admitted.
theorem answers_user (rest : List (List Char × ℚ)) :
    answers (SenderLimits.ofEnv none none) [] (List.replicate 5 (['u'], 0) ++ rest) =
      List.replicate 5 ⟨['u'], 0, false⟩ ++
        answers (SenderLimits.ofEnv none none) [(['u'], [0, 0, 0, 0, 0])] rest := by
  have hstep : ∀ n < 5, isSenderRateLimited (SenderLimits.ofEnv none none)
      (if n = 0 then [] else [(['u'], List.replicate n 0)]) ['u'] 0 =
        (false, [(['u'], List.replicate (n + 1) 0)]) := by
    decide +kernel
  have h0 := hstep 0 (by decide)
  have h1 := hstep 1 (by decide)
  have h2 := hstep 2 (by decide)
  have h3 := hstep 3 (by decide)
  have h4 := hstep 4 (by decide)
  simp only [List.replicate, Nat.reduceEqDiff, if_true, if_false] at h0 h1 h2 h3 h4
  simp only [List.replicate, List.cons_append, List.nil_append, answers, h0, h1, h2, h3, h4]

-- Enough others take the place of a sender in the table, and it is admitted again.
theorem answers_crowded {others : List (List Char)} {next user : List Char} {q : List ℚ}
    (hnodup : others.Nodup) (huser : user ∉ others) (hnext : next ∉ others) (hne : next ≠ user)
    (hlength : others.length + 1 = SENDER_TIMESTAMPS_MAX) :
    answers limits [(user, q)] (others.map (fun s => (s, now)) ++ [(next, now), (user, now)]) =
      others.map (fun s => ⟨s, now, false⟩) ++ [⟨next, now, false⟩, ⟨user, now, false⟩] := by
  have hkeys : (others.map fun s => (s, [now])).map Prod.fst = others := by
    rw [List.map_map]
    exact List.map_id others
  have hnew : ∀ s ∈ others, s ∉ [(user, q)].map Prod.fst := by
    intro s hs hmem
    have heq : s = user := List.mem_singleton.mp hmem
    exact huser (heq ▸ hs)
  have hunknown : next ∉ ([(user, q)] ++ others.map fun s => (s, [now])).map Prod.fst := by
    rw [List.map_append, hkeys, List.mem_append]
    rintro (hmem | hmem)
    · exact hne (List.mem_singleton.mp hmem)
    · exact hnext hmem
  have hgone : user ∉ ((others.map fun s => (s, [now])) ++ [(next, [now])]).map Prod.fst := by
    rw [List.map_append, hkeys, List.mem_append]
    rintro (hmem | hmem)
    · exact huser hmem
    · exact hne (List.mem_singleton.mp hmem).symm
  have hevicted : evictOldest ([(user, q)] ++ others.map fun s => (s, [now])) next =
      others.map fun s => (s, [now]) := by
    refine if_pos ⟨hunknown, ?_⟩
    rw [List.length_append, List.length_map, List.length_singleton]
    omega
  rw [answers_fill hnodup hnew (by rw [List.length_singleton]; omega), answers,
    isSenderRateLimited_new hunknown, hevicted]
  simp only
  rw [answers, isSenderRateLimited_new hgone]
  rfl

theorem not_isolates_flood {n : Nat} (hn : n + 1 = SENDER_TIMESTAMPS_MAX) :
    ¬ Isolates (SenderLimits.ofEnv none none) (flood n) := by
  intro h
  have hlength : (crowd n).length + 1 = SENDER_TIMESTAMPS_MAX := by
    rw [crowd, List.length_map, List.length_range, hn]
  have hfew := h.few ['u'] 0
  rw [flood, answers_user, answers_crowded (crowd_nodup n) (user_notMem_crowd n)
    (next_notMem_crowd n) (replicate_ne_user n) hlength, List.countP_append,
    List.countP_append, List.countP_cons, List.countP_singleton] at hfew
  have hfive : ((List.replicate 5 (⟨['u'], 0, false⟩ : Answer (List Char))).countP fun answer =>
      answer.sender = ['u'] ∧ answer.limited = false ∧ (0 : ℚ) ≤ answer.time ∧
        answer.time ≤ 0 + (SenderLimits.ofEnv none none).window) = 5 := by decide +kernel
  have hsixth : (if decide ((['u'] : List Char) = ['u'] ∧ false = false ∧ (0 : ℚ) ≤ 0 ∧
      (0 : ℚ) ≤ 0 + (SenderLimits.ofEnv none none).window) then 1 else 0) = 1 := by decide +kernel
  have hmax : (SenderLimits.ofEnv none none).maxMsgs = 5 := by decide
  rw [hfive, hsixth, hmax] at hfew
  omega

theorem flood_sorted (n : Nat) : (flood n).Pairwise fun call later => call.2 ≤ later.2 := by
  have hzero : ∀ call ∈ flood n, call.2 = 0 := by
    intro call hcall
    simp only [flood, List.mem_append, List.mem_map, List.mem_cons, List.not_mem_nil, or_false]
      at hcall
    rcases hcall with h | ⟨s, -, rfl⟩ | rfl | rfl
    · rw [List.eq_of_mem_replicate h]
    · rfl
    · rfl
    · rfl
  refine List.pairwise_of_forall_mem_list fun call hcall later hlater => ?_
  rw [hzero call hcall, hzero later hlater]

-- 5000 other senders are enough to have a sixth message of a sender admitted at once.
theorem sender_limiter_flooded :
    (flood 4999).Pairwise (fun call later => call.2 ≤ later.2) ∧
      ¬ Isolates (SenderLimits.ofEnv none none) (flood 4999) :=
  ⟨flood_sorted 4999, not_isolates_flood (by decide)⟩

end EvoClaw.MessageLoop
