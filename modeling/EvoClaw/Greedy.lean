import Mathlib.Algebra.BigOperators.Group.List.Basic
import Mathlib.Algebra.Order.Ring.Nat
import Mathlib.Data.List.Perm.Basic

-- Items taken one after the other as long as they fit into a budget.
namespace Greedy

variable {α : Type*} (cost : α → Nat) (budget : Nat)

def total (items : List α) : Nat :=
  (items.map cost).sum

-- What is taken when `used` of the budget is spent before.
def taken (used : Nat) : List α → List α
  | [] => []
  | item :: rest =>
      if budget < used + cost item then taken used rest
      else item :: taken (used + cost item) rest

-- What is passed over.
def passed (used : Nat) : List α → List α
  | [] => []
  | item :: rest =>
      if budget < used + cost item then item :: passed used rest
      else passed (used + cost item) rest

variable {cost budget} {used : Nat} {items : List α} {item : α}

@[simp] theorem total_nil : total cost [] = 0 := rfl

@[simp] theorem total_cons (item : α) (items : List α) :
    total cost (item :: items) = cost item + total cost items := by
  simp [total]

theorem total_append (items more : List α) :
    total cost (items ++ more) = total cost items + total cost more := by
  simp [total]

theorem total_perm {more : List α} (h : items.Perm more) : total cost items = total cost more :=
  (h.map cost).sum_eq

theorem le_total (h : item ∈ items) : cost item ≤ total cost items := by
  induction items with
  | nil => cases h
  | cons first rest ih =>
      rw [total_cons]
      obtain rfl | h := List.mem_cons.mp h
      · exact Nat.le_add_right _ _
      · exact (ih h).trans (Nat.le_add_left _ _)

-- The loop with an accumulator.
theorem foldl_eq (start : List α) :
    items.foldl (fun (state : List α × Nat) item =>
        if budget < state.2 + cost item then state else (state.1 ++ [item], state.2 + cost item))
      (start, used) =
    (start ++ taken cost budget used items, used + total cost (taken cost budget used items)) := by
  induction items generalizing start used with
  | nil => simp [taken]
  | cons item rest ih =>
      rw [List.foldl_cons, taken]
      split
      · exact ih start
      · rw [ih, total_cons, List.append_assoc, Nat.add_assoc]
        rfl

theorem taken_passed_perm :
    (taken cost budget used items ++ passed cost budget used items).Perm items := by
  induction items generalizing used with
  | nil => exact List.Perm.refl []
  | cons item rest ih =>
      rw [taken, passed]
      split
      · exact List.perm_middle.trans (ih.cons item)
      · exact ih.cons item

theorem taken_le (h : used ≤ budget) : used + total cost (taken cost budget used items) ≤ budget := by
  induction items generalizing used with
  | nil => simpa [taken] using h
  | cons item rest ih =>
      rw [taken]
      split
      · exact ih h
      · rename_i hfits
        rw [total_cons, ← Nat.add_assoc]
        exact ih (Nat.le_of_not_lt hfits)

-- What was passed over does not fit at the end either.
theorem passed_lt (h : item ∈ passed cost budget used items) :
    budget < used + total cost (taken cost budget used items) + cost item := by
  induction items generalizing used with
  | nil => cases h
  | cons first rest ih =>
      rw [passed] at h
      rw [taken]
      split at h
      · rename_i hlarge
        rw [if_pos hlarge]
        obtain rfl | h := List.mem_cons.mp h
        · omega
        · exact ih h
      · rename_i hfits
        rw [if_neg hfits, total_cons]
        have hrest := ih h
        omega

end Greedy
