import Mathlib.Data.List.Basic
import Mathlib.Data.List.TakeWhile

-- One marked message in a history of which only a head and a suffix are kept.
namespace Window

variable {μ : Type*} {mark test : μ → Bool} {k n : Nat} {msgs others : List μ}

def Has (mark : μ → Bool) (msgs : List μ) : Prop :=
  ∃ msg ∈ msgs, mark msg

-- The marked message and everything after it.
def onward (mark : μ → Bool) (msgs : List μ) : List μ :=
  msgs.dropWhile fun msg => !mark msg

-- The first `k` messages and those of the last ones that fit beside them.
def trim (test : μ → Bool) (k most : Nat) (msgs : List μ) : List μ :=
  if most < msgs.length then
    msgs.take k ++ (msgs.drop (msgs.length - (most - k))).dropWhile test
  else msgs

-- One message is marked, with at least `k` in front of it, and `test` spares it.
def Once (mark test : μ → Bool) (k : Nat) (msgs : List μ) : Prop :=
  ∃ before msg after, msgs = before ++ msg :: after ∧ mark msg ∧ test msg = false ∧
    k ≤ before.length ∧ (∀ m ∈ before, mark m = false) ∧ ∀ m ∈ after, mark m = false

theorem Once.has (h : Once mark test k msgs) : Has mark msgs := by
  obtain ⟨before, msg, after, rfl, hmark, -⟩ := h
  exact ⟨msg, by simp, hmark⟩

theorem has_append (hothers : ∀ m ∈ others, mark m = false) :
    Has mark (msgs ++ others) ↔ Has mark msgs := by
  constructor
  · rintro ⟨msg, hm, hmark⟩
    rcases List.mem_append.mp hm with hm | hm
    · exact ⟨msg, hm, hmark⟩
    · simp [hothers msg hm] at hmark
  · rintro ⟨msg, hm, hmark⟩
    exact ⟨msg, List.mem_append_left _ hm, hmark⟩

theorem Once.append (h : Once mark test k msgs) (hothers : ∀ m ∈ others, mark m = false) :
    Once mark test k (msgs ++ others) := by
  obtain ⟨before, msg, after, rfl, hmark, htest, hk, hbefore, hafter⟩ := h
  refine ⟨before, msg, after ++ others, by simp, hmark, htest, hk, hbefore, fun m hm => ?_⟩
  rcases List.mem_append.mp hm with hm | hm
  · exact hafter m hm
  · exact hothers m hm

theorem onward_eq {before after : List μ} {msg : μ} (hmark : mark msg)
    (hbefore : ∀ m ∈ before, mark m = false) :
    onward mark (before ++ msg :: after) = msg :: after := by
  unfold onward
  induction before with
  | nil => simp [hmark]
  | cons m before ih =>
      rw [List.cons_append, List.dropWhile_cons_of_pos (by simp [hbefore m (by simp)])]
      exact ih fun m hm => hbefore m (by simp [hm])

theorem dropWhile_stops {before after : List μ} {msg : μ} (htest : test msg = false) :
    ∃ rest, rest <:+ before ∧ (before ++ msg :: after).dropWhile test = rest ++ msg :: after := by
  induction before with
  | nil => exact ⟨[], List.suffix_rfl, by simp [htest]⟩
  | cons m before ih =>
      by_cases hm : test m
      · obtain ⟨rest, hsuffix, heq⟩ := ih
        exact ⟨rest, hsuffix.trans (List.suffix_cons _ _), by
          rw [List.cons_append, List.dropWhile_cons_of_pos hm, heq]⟩
      · exact ⟨m :: before, List.suffix_rfl, by
          rw [List.cons_append, List.dropWhile_cons_of_neg hm]⟩

-- A suffix that reaches back to the marked message keeps it.
theorem Once.keep (h : Once mark test k msgs)
    (hn : n + (onward mark msgs).length ≤ msgs.length) :
    Once mark test k (msgs.take k ++ (msgs.drop n).dropWhile test) := by
  obtain ⟨before, msg, after, rfl, hmark, htest, hk, hbefore, hafter⟩ := h
  rw [onward_eq hmark hbefore] at hn
  have hle : n ≤ before.length := by
    simp only [List.length_cons, List.length_append] at hn
    omega
  rw [List.drop_append_of_le_length hle, List.take_append_of_le_length hk]
  obtain ⟨rest, hsuffix, heq⟩ := @dropWhile_stops _ test (before.drop n) after msg htest
  refine ⟨before.take k ++ rest, msg, after, by simp [heq], hmark, htest, ?_, fun m hm => ?_, hafter⟩
  · simp only [List.length_append, List.length_take]
    omega
  · rcases List.mem_append.mp hm with hm | hm
    · exact hbefore m (List.mem_of_mem_take hm)
    · exact hbefore m (List.mem_of_mem_drop (hsuffix.subset hm))

-- A shorter one loses it.
theorem Once.cut (h : Once mark test k msgs)
    (hn : msgs.length < n + (onward mark msgs).length) :
    ¬ Has mark (msgs.take k ++ (msgs.drop n).dropWhile test) := by
  obtain ⟨before, msg, after, rfl, hmark, -, hk, hbefore, hafter⟩ := h
  rw [onward_eq hmark hbefore] at hn
  rintro ⟨m, hm, hmarked⟩
  rcases List.mem_append.mp hm with hm | hm
  · rw [List.take_append_of_le_length hk] at hm
    simp [hbefore m (List.mem_of_mem_take hm)] at hmarked
  · have hdrop : (before ++ msg :: after).drop n = after.drop (n - (before.length + 1)) := by
      simp only [List.length_cons, List.length_append] at hn
      rw [List.append_cons, List.drop_append, List.drop_of_length_le (by simp; omega)]
      simp
    rw [hdrop] at hm
    simp [hafter m (List.mem_of_mem_drop ((List.dropWhile_sublist _).subset hm))] at hmarked

theorem Once.keep_iff (h : Once mark test k msgs) :
    Has mark (msgs.take k ++ (msgs.drop n).dropWhile test) ↔
      n + (onward mark msgs).length ≤ msgs.length :=
  ⟨fun hhas => not_lt.mp fun hn => h.cut hn hhas, fun hn => (h.keep hn).has⟩

theorem Once.onward_lt (h : Once mark test k msgs) : (onward mark msgs).length + k ≤ msgs.length := by
  obtain ⟨before, msg, after, rfl, hmark, -, hk, hbefore, -⟩ := h
  rw [onward_eq hmark hbefore]
  simp only [List.length_cons, List.length_append]
  omega

-- Everything from the marked message on has to fit beside the first `k` messages.
theorem Once.trim_iff {most : Nat} (h : Once mark test k msgs) (hk : k ≤ most) :
    Has mark (trim test k most msgs) ↔ (onward mark msgs).length ≤ most - k := by
  have hlt := h.onward_lt
  unfold Window.trim
  split
  · rw [h.keep_iff]
    omega
  · exact iff_of_true h.has (by omega)

theorem Once.trim {most : Nat} (h : Once mark test k msgs)
    (hhas : Has mark (trim test k most msgs)) : Once mark test k (trim test k most msgs) := by
  unfold Window.trim at hhas ⊢
  split
  · rename_i hmost
    rw [if_pos hmost] at hhas
    exact h.keep (h.keep_iff.mp hhas)
  · exact h

-- The trim spares what stands at the front.
theorem head?_trim {most : Nat} (hk : 0 < k) : (trim test k most msgs).head? = msgs.head? := by
  unfold trim
  split
  · obtain ⟨k, rfl⟩ := Nat.exists_eq_add_of_lt hk
    cases msgs with
    | nil => simp
    | cons msg rest => rw [Nat.zero_add, List.take_succ_cons, List.cons_append]; rfl
  · rfl

end Window
