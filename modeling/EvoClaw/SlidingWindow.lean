import Mathlib.Algebra.Order.Group.Unbundled.Basic
import Mathlib.Algebra.Order.Group.Defs
import Mathlib.Data.List.DropRight

-- A limit on the number of requests in any window of time, kept by remembering the times of
-- the ones that were admitted.
namespace SlidingWindow

variable {T : Type*} [AddCommGroup T] [LinearOrder T] [IsOrderedAddMonoid T]
  {limit : Nat} {window now after clock : T} {times admitted : List T}

-- The times from the first one on that is not longer ago than the window.
def live (window now : T) (times : List T) : List T :=
  times.dropWhile fun t => window < now - t

-- Whether the request is refused, and the times that are remembered.
def request (limit : Nat) (window now : T) (times : List T) : Bool × List T :=
  if limit ≤ (live window now times).length then (true, live window now times)
  else (false, live window now times ++ [now])

theorem live_live (h : now ≤ after) :
    live window after (live window now times) = live window after times := by
  induction times with
  | nil => rfl
  | cons t times ih =>
      unfold live at ih ⊢
      by_cases ht : window < now - t
      · have hlater : window < after - t := lt_of_lt_of_le ht (sub_le_sub_right h t)
        rw [List.dropWhile_cons_of_pos (by simpa using ht), ih,
          List.dropWhile_cons_of_pos (by simpa using hlater)]
      · rw [List.dropWhile_cons_of_neg (by simpa using ht)]

omit [IsOrderedAddMonoid T] in
theorem live_eq_nil (h : ∀ t ∈ times, window < now - t) : live window now times = [] := by
  rw [live, List.dropWhile_eq_nil_iff]
  intro t ht
  simpa using h t ht

-- A request is decided by the times that are not over.
omit [IsOrderedAddMonoid T] in
theorem request_congr {other : List T}
    (h : live window now times = live window now other) :
    request limit window now times = request limit window now other := by
  simp only [request, h]

-- The remembered times hold all admitted ones that are not over, and no window has more than
-- the limit.
structure Bounded (limit : Nat) (window clock : T) (admitted times : List T) : Prop where
  past : ∀ t ∈ admitted, t ≤ clock
  live_eq : live window clock times = live window clock admitted
  few : ∀ start, (admitted.countP fun t => start ≤ t ∧ t ≤ start + window) ≤ limit

omit [IsOrderedAddMonoid T] in
theorem bounded_nil (limit : Nat) (window clock : T) : Bounded limit window clock [] [] where
  past := fun _ h => nomatch h
  live_eq := rfl
  few := fun _ => Nat.zero_le limit

theorem Bounded.later (h : Bounded limit window clock admitted times) (hlater : clock ≤ after) :
    Bounded limit window after admitted times where
  past t ht := le_trans (h.past t ht) hlater
  live_eq := by rw [← live_live hlater, h.live_eq, live_live hlater]
  few := h.few

theorem countP_le_live (hnow : ∀ t ∈ admitted, t ≤ now) {start : T} (hstart : now ≤ start + window) :
    (admitted.countP fun t => start ≤ t ∧ t ≤ start + window) ≤
      (live window now admitted).length := by
  induction admitted with
  | nil => exact Nat.le_refl _
  | cons t admitted ih =>
      have hrest := ih fun s hs => hnow s (List.mem_cons_of_mem t hs)
      unfold live at hrest ⊢
      by_cases ht : window < now - t
      · have hout : ¬ (start ≤ t ∧ t ≤ start + window) := by
          rintro ⟨hle, -⟩
          have hsum : now ≤ window + t := by
            rw [add_comm window t]
            exact hstart.trans (add_le_add_left hle window)
          exact absurd (sub_le_iff_le_add.mpr hsum) (not_le_of_gt ht)
        rw [List.countP_cons_of_neg (by simpa using hout),
          List.dropWhile_cons_of_pos (by simpa using ht)]
        exact hrest
      · rw [List.dropWhile_cons_of_neg (by simpa using ht)]
        exact List.countP_le_length

omit [IsOrderedAddMonoid T] in
theorem live_append (h : live window now times = live window now admitted) (more : List T) :
    live window now (times ++ more) = live window now (admitted ++ more) := by
  unfold live at h ⊢
  rw [List.dropWhile_append, List.dropWhile_append, h]

theorem Bounded.request (h : Bounded limit window now admitted times) :
    Bounded limit window now
      (admitted ++ if (SlidingWindow.request limit window now times).1 then [] else [now])
      (SlidingWindow.request limit window now times).2 := by
  have hlive : live window now (live window now times) = live window now admitted := by
    rw [live_live (le_refl now), h.live_eq]
  unfold SlidingWindow.request
  split
  · rw [if_pos rfl, List.append_nil]
    exact { h with live_eq := hlive }
  · next hroom =>
      rw [if_neg Bool.false_ne_true]
      refine ⟨fun t ht => ?_, live_append hlive [now], fun start => ?_⟩
      · rcases List.mem_append.mp ht with hold | hnew
        · exact h.past t hold
        · exact le_of_eq (List.mem_singleton.mp hnew)
      · rw [List.countP_append, List.countP_singleton]
        have hfew := h.few start
        by_cases hin : start ≤ now ∧ now ≤ start + window
        · have hle := countP_le_live h.past hin.2
          rw [h.live_eq] at hroom
          rw [if_pos (by simpa using hin)]
          omega
        · rw [if_neg (by simpa using hin)]
          exact hfew

-- The times of a sequence in order that are not over are all behind those that are.
theorem live_eq_filter (h : times.Pairwise (· ≤ ·)) :
    live window now times = times.filter fun t => now - t ≤ window := by
  induction times with
  | nil => rfl
  | cons t times ih =>
      rw [List.pairwise_cons] at h
      by_cases ht : now - t ≤ window
      · have hall : ∀ s ∈ t :: times, now - s ≤ window := by
          intro s hs
          rcases List.mem_cons.mp hs with rfl | hs
          · exact ht
          · exact (sub_le_sub_left (h.1 s hs) now).trans ht
        rw [live, List.dropWhile_cons_of_neg (by simpa using ht), List.filter_eq_self.mpr]
        simpa using hall
      · have hover : window < now - t := lt_of_not_ge ht
        rw [live, List.dropWhile_cons_of_pos (by simpa using hover),
          List.filter_cons_of_neg (by rw [decide_eq_true_eq]; exact ht)]
        exact ih h.2

-- A request is refused exactly if the window that ends with it is full.
theorem Bounded.refuses_iff (h : Bounded limit window now admitted times)
    (hsorted : admitted.Pairwise (· ≤ ·)) :
    (SlidingWindow.request limit window now times).1 = true ↔
      limit ≤ admitted.countP fun t => now - t ≤ window := by
  have hlength : (live window now times).length =
      admitted.countP fun t => now - t ≤ window := by
    rw [h.live_eq, live_eq_filter hsorted, List.countP_eq_length_filter]
  rw [← hlength]
  unfold SlidingWindow.request
  split
  · next hfull => exact iff_of_true rfl hfull
  · next hroom => exact iff_of_false Bool.false_ne_true hroom

-- A limit on any window that is open at one end.
section Recent

def recent (window now : T) (times : List T) : List T :=
  times.filter fun t => now - t < window

-- Whether the request is refused, and the times that are remembered.
def attempt (limit : Nat) (window now : T) (times : List T) : Bool × List T :=
  if limit ≤ (recent window now times).length then (true, recent window now times)
  else (false, recent window now times ++ [now])

theorem recent_recent (h : now ≤ after) :
    recent window after (recent window now times) = recent window after times := by
  rw [recent, recent, List.filter_filter]
  refine List.filter_congr fun t _ => ?_
  by_cases ht : after - t < window
  · have hnow : now - t < window := lt_of_le_of_lt (sub_le_sub_right h t) ht
    simp [ht, hnow]
  · simp [ht]

-- The remembered times hold all admitted ones that still count, and no set of admitted times that
-- lie less than the window apart has more than the limit.
structure Sparse (limit : Nat) (window clock : T) (admitted times : List T) : Prop where
  past : ∀ t ∈ admitted, t ≤ clock
  recent_eq : recent window clock times = recent window clock admitted
  few : ∀ inside : T → Bool, (∀ s t, inside s = true → inside t = true → t - s < window) →
    admitted.countP inside ≤ limit

omit [IsOrderedAddMonoid T] in
theorem sparse_nil (limit : Nat) (window clock : T) : Sparse limit window clock [] [] where
  past := fun _ h => nomatch h
  recent_eq := rfl
  few := fun _ _ => Nat.zero_le limit

theorem Sparse.later (h : Sparse limit window clock admitted times) (hlater : clock ≤ after) :
    Sparse limit window after admitted times where
  past t ht := le_trans (h.past t ht) hlater
  recent_eq := by rw [← recent_recent hlater, h.recent_eq, recent_recent hlater]
  few := h.few

theorem Sparse.attempt (h : Sparse limit window now admitted times) :
    Sparse limit window now
      (admitted ++ if (SlidingWindow.attempt limit window now times).1 then [] else [now])
      (SlidingWindow.attempt limit window now times).2 := by
  have hrecent : recent window now (recent window now times) = recent window now admitted := by
    rw [recent_recent (le_refl now), h.recent_eq]
  unfold SlidingWindow.attempt
  split
  · rw [if_pos rfl, List.append_nil]
    exact { h with recent_eq := hrecent }
  · next hroom =>
      rw [if_neg Bool.false_ne_true]
      refine ⟨fun t ht => ?_, ?_, fun inside hinside => ?_⟩
      · rcases List.mem_append.mp ht with hold | hnew
        · exact h.past t hold
        · exact le_of_eq (List.mem_singleton.mp hnew)
      · unfold recent at hrecent ⊢
        rw [List.filter_append, List.filter_append, hrecent]
      · rw [List.countP_append, List.countP_singleton]
        by_cases hnow : inside now = true
        · -- all of them are recent
          have hle : admitted.countP inside ≤ (recent window now admitted).length := by
            rw [recent, ← List.countP_eq_length_filter]
            exact List.countP_mono_left fun t _ ht => decide_eq_true (hinside t now ht hnow)
          rw [h.recent_eq] at hroom
          rw [if_pos hnow]
          omega
        · rw [if_neg hnow]
          exact h.few inside hinside

end Recent

end SlidingWindow
