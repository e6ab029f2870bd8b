import Mathlib.Data.List.Induction
import Mathlib.Data.List.Perm.Basic

-- A variable that the elements of a list are free to set, one after the other: the last one that
-- does so has its way.
namespace LastWriter

variable {α β : Type*} {f : α → Option β} {init : β} {writers : List α}

def value (f : α → Option β) (init : β) (writers : List α) : β :=
  writers.foldl (fun current writer => (f writer).getD current) init

-- Writers that set the variable to the same value.
def Agree (f : α → Option β) (writers : List α) : Prop :=
  ∀ writer ∈ writers, ∀ other ∈ writers, ∀ v w, f writer = some v → f other = some w → v = w

@[simp] theorem value_nil : value f init [] = init := rfl

@[simp] theorem value_cons (writer : α) :
    value f init (writer :: writers) = value f ((f writer).getD init) writers := rfl

theorem value_append (rest : List α) :
    value f init (writers ++ rest) = value f (value f init writers) rest :=
  List.foldl_append

theorem value_concat (writer : α) :
    value f init (writers ++ [writer]) = (f writer).getD (value f init writers) :=
  value_append [writer]

theorem value_map {γ : Type*} (g : γ → α) (others : List γ) :
    value f init (others.map g) = value (f ∘ g) init others :=
  List.foldl_map

theorem value_of_forall_none (h : ∀ writer ∈ writers, f writer = none) :
    value f init writers = init := by
  induction writers with
  | nil => rfl
  | cons writer writers ih =>
      rw [value_cons, h writer List.mem_cons_self]
      exact ih fun other hmem => h other (List.mem_cons_of_mem writer hmem)

-- Either nobody writes, or somebody has written what is there.
theorem value_cases (f : α → Option β) (init : β) (writers : List α) :
    ((∀ writer ∈ writers, f writer = none) ∧ value f init writers = init) ∨
      ∃ writer ∈ writers, f writer = some (value f init writers) := by
  induction writers using List.reverseRecOn with
  | nil => exact .inl ⟨by simp, rfl⟩
  | append_singleton writers last ih =>
      rw [value_concat]
      cases hlast : f last with
      | some v => exact .inr ⟨last, by simp, hlast⟩
      | none =>
          obtain ⟨hnone, hvalue⟩ | ⟨writer, hmem, hwriter⟩ := ih
          · refine .inl ⟨fun writer hmem => ?_, hvalue⟩
            rcases List.mem_append.mp hmem with hmem | hmem
            · exact hnone writer hmem
            · rw [List.mem_singleton.mp hmem]
              exact hlast
          · exact .inr ⟨writer, List.mem_append_left _ hmem, hwriter⟩

-- The last one that writes at all.
theorem value_of_getLast? {last : α}
    (h : (writers.filter fun writer => (f writer).isSome).getLast? = some last) :
    value f init writers = (f last).getD init := by
  induction writers using List.reverseRecOn with
  | nil => cases h
  | append_singleton writers writer ih =>
      rw [value_concat]
      rw [List.filter_append, List.filter_cons, List.filter_nil] at h
      cases hwriter : f writer with
      | some v =>
          rw [hwriter, Option.isSome_some, if_pos rfl, List.getLast?_concat] at h
          rw [← Option.some.inj h, hwriter]
          rfl
      | none =>
          rw [hwriter, Option.isSome_none, if_neg Bool.false_ne_true, List.append_nil] at h
          exact ih h

theorem value_of_agree (h : Agree f writers) {writer : α} {v : β} (hmem : writer ∈ writers)
    (hv : f writer = some v) : value f init writers = v := by
  obtain ⟨hnone, -⟩ | ⟨last, hlast, hvalue⟩ := value_cases f init writers
  · rw [hnone writer hmem] at hv
    cases hv
  · exact h last hlast writer hmem _ _ hvalue hv

theorem Agree.perm {other : List α} (h : Agree f writers) (hperm : other.Perm writers) :
    Agree f other := fun a ha b hb =>
  h a (hperm.subset ha) b (hperm.subset hb)

-- Every writer may come last.
theorem exists_perm_value (init : β) {writer : α} {v : β} (hmem : writer ∈ writers)
    (hv : f writer = some v) : ∃ other, other.Perm writers ∧ value f init other = v := by
  obtain ⟨before, behind, rfl⟩ := List.append_of_mem hmem
  refine ⟨before ++ behind ++ [writer], ?_, ?_⟩
  · rw [List.append_assoc]
    exact (List.perm_append_singleton writer behind).append_left before
  · rw [value_concat, hv]
    rfl

-- The order of the writers matters exactly when two of them disagree.
theorem forall_perm_iff :
    (∀ other, other.Perm writers → value f init other = value f init writers) ↔
      Agree f writers := by
  constructor
  · intro h a ha b hb v w hv hw
    obtain ⟨first, hfirst, rfl⟩ := exists_perm_value init ha hv
    obtain ⟨second, hsecond, rfl⟩ := exists_perm_value init hb hw
    rw [h first hfirst, h second hsecond]
  · intro h other hperm
    obtain ⟨hnone, hvalue⟩ | ⟨last, hlast, hvalue⟩ := value_cases f init writers
    · rw [hvalue]
      exact value_of_forall_none fun writer hmem => hnone writer (hperm.subset hmem)
    · exact value_of_agree (h.perm hperm) (hperm.symm.subset hlast) hvalue

end LastWriter
