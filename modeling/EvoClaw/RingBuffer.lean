import Mathlib.Data.List.DropRight

-- A queue that keeps the last elements, as many as its capacity allows.
namespace RingBuffer

variable {α : Type*} {capacity : Nat} {items more : List α}

-- deque(maxlen=capacity).append
def push (capacity : Nat) (items : List α) (x : α) : List α :=
  (items ++ [x]).drop (items.length + 1 - capacity)

def pushAll (capacity : Nat) (items more : List α) : List α :=
  more.foldl (push capacity) items

@[simp] theorem pushAll_cons (items more : List α) (x : α) :
    pushAll capacity items (x :: more) = pushAll capacity (push capacity items x) more := rfl

theorem length_push_le (capacity : Nat) (items : List α) (x : α) :
    (push capacity items x).length ≤ capacity := by
  unfold push
  rw [List.length_drop, List.length_append, List.length_singleton]
  omega

theorem length_pushAll_le (h : items.length ≤ capacity) (more : List α) :
    (pushAll capacity items more).length ≤ capacity := by
  induction more generalizing items with
  | nil => exact h
  | cons x more ih => exact ih (length_push_le capacity items x)

theorem pushAll_concat (items more : List α) (x : α) :
    pushAll capacity items (more ++ [x]) = push capacity (pushAll capacity items more) x :=
  List.foldl_append

theorem push_rtake (items : List α) (x : α) :
    push capacity (items.rtake capacity) x = (items ++ [x]).rtake capacity := by
  have hshort : items.length - capacity ≤ items.length := Nat.sub_le _ _
  unfold push List.rtake
  rw [← List.drop_append_of_le_length hshort, List.drop_drop, List.length_drop, List.length_append,
    List.length_singleton]
  congr 1
  omega

theorem pushAll_eq (h : items.length ≤ capacity) (more : List α) :
    pushAll capacity items more = (items ++ more).rtake capacity := by
  induction more using List.reverseRecOn with
  | nil =>
      rw [List.append_nil, List.rtake, Nat.sub_eq_zero_of_le h]
      rfl
  | append_singleton more x ih => rw [pushAll_concat, ih, push_rtake, List.append_assoc]

-- What has been pushed stays as long as it fits.
theorem exists_pushAll (hmore : more.length ≤ capacity) (h : items.length ≤ capacity) :
    ∃ kept, kept <:+ items ∧ pushAll capacity items more = kept ++ more := by
  refine ⟨items.drop (items.length + more.length - capacity), List.drop_suffix _ _, ?_⟩
  rw [pushAll_eq h, List.rtake, List.length_append, List.drop_append_of_le_length (by omega)]

end RingBuffer
