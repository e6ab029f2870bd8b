import Mathlib.Data.List.Dedup
import Mathlib.Data.List.Sort
import Mathlib.Order.Defs.LinearOrder
import Mathlib.Order.Lattice

-- Lists whose elements are found by a key that no two of them share: tables with a primary key,
-- registers of running jobs.
namespace Keyed

section Find

variable {α : Type*} {xs : List α} {x : α} {p : α → Prop} [DecidablePred p]

theorem find?_spec (h : xs.find? (fun y => p y) = some x) : x ∈ xs ∧ p x :=
  ⟨List.mem_of_find?_eq_some h, of_decide_eq_true (List.find?_some h :)⟩

theorem find?_of_unique (hmem : x ∈ xs) (hx : p x) (hunique : ∀ y ∈ xs, p y → y = x) :
    xs.find? (fun y => p y) = some x := by
  cases hfind : xs.find? (fun y => p y) with
  | none =>
      have hnone := List.find?_eq_none.mp hfind x hmem
      exact absurd (decide_eq_true hx) hnone
  | some y =>
      obtain ⟨hy, hpy⟩ := find?_spec hfind
      rw [hunique y hy hpy]

end Find

section Keys

variable {α κ : Type*} [DecidableEq κ] {key : α → κ} {xs : List α} {x : α} {k : κ}

theorem find?_of_mem (hnodup : (xs.map key).Nodup) (hmem : x ∈ xs) :
    xs.find? (fun y => key y = key x) = some x :=
  find?_of_unique hmem rfl fun _ hy hkey => List.inj_on_of_nodup_map hnodup hy hmem hkey

theorem find?_eq_some_iff (hnodup : (xs.map key).Nodup) :
    xs.find? (fun y => key y = k) = some x ↔ x ∈ xs ∧ key x = k := by
  constructor
  · exact find?_spec
  · rintro ⟨hmem, rfl⟩
    exact find?_of_mem hnodup hmem

theorem find?_eq_none_iff : xs.find? (fun y => key y = k) = none ↔ k ∉ xs.map key := by
  simp [List.find?_eq_none]

-- A row with a new key goes to the end.
theorem find?_insert (hfresh : key x ∉ xs.map key) :
    (xs ++ [x]).find? (fun y => key y = k) =
      if k = key x then some x else xs.find? (fun y => key y = k) := by
  rw [List.find?_append]
  by_cases hk : k = key x
  · subst hk
    rw [find?_eq_none_iff.mpr hfresh, if_pos rfl]
    simp
  · have hne : ¬key x = k := fun h => hk h.symm
    rw [if_neg hk]
    simp [hne]

-- What happens to the row with one key leaves the others alone.
theorem find?_update {f : α → α} (hkey : ∀ y, key (f y) = key y) (changed : κ) :
    (xs.map fun y => if key y = changed then f y else y).find? (fun y => key y = k) =
      if k = changed then (xs.find? fun y => key y = k).map f
      else xs.find? fun y => key y = k := by
  induction xs with
  | nil => simp
  | cons y rest ih =>
      simp only [List.map_cons, List.find?_cons]
      by_cases hy : key y = changed
      · by_cases hk : k = changed
        · simp [hy, hk, hkey]
        · have hne : ¬changed = k := fun h => hk h.symm
          simpa [hy, hk, hne, hkey] using ih
      · by_cases hfound : key y = k
        · have hk : ¬k = changed := fun h => hy (hfound.trans h)
          simp [hfound, hk]
        · simpa [hy, hfound] using ih

theorem find?_erase (erased : κ) :
    (xs.filter fun y => key y ≠ erased).find? (fun y => key y = k) =
      if k = erased then none else xs.find? fun y => key y = k := by
  induction xs with
  | nil => simp
  | cons y rest ih =>
      by_cases hy : key y = erased
      · by_cases hk : k = erased
        · simp [hk]
        · have hne : ¬erased = k := fun h => hk h.symm
          simpa [List.find?_cons, hy, hk, hne] using ih
      · by_cases hfound : key y = k
        · have hk : ¬k = erased := fun h => hy (hfound.trans h)
          simp [hfound, hk]
        · simpa [List.find?_cons, hy, hfound] using ih

end Keys

section Groups

variable {κ σ ε : Type*} [DecidableEq κ] {table : List (κ × σ)} {start : σ} {k other : κ}

def valueAt (table : List (κ × σ)) (k : κ) : Option σ :=
  (table.find? fun entry => entry.1 = k).map Prod.snd

-- The value of a key is changed. A new key begins with `start`.
def amend (start : σ) (table : List (κ × σ)) (k : κ) (f : σ → σ) : List (κ × σ) :=
  if k ∈ table.map Prod.fst then
    table.map fun entry => if entry.1 = k then (entry.1, f entry.2) else entry
  else table ++ [(k, f start)]

theorem valueAt_eq_some_iff (hnodup : (table.map Prod.fst).Nodup) {value : σ} :
    valueAt table k = some value ↔ (k, value) ∈ table := by
  unfold valueAt
  rw [Option.map_eq_some_iff]
  constructor
  · rintro ⟨entry, hfind, rfl⟩
    obtain ⟨hmem, rfl⟩ := (find?_eq_some_iff hnodup).mp hfind
    exact hmem
  · intro hmem
    exact ⟨(k, value), (find?_eq_some_iff hnodup).mpr ⟨hmem, rfl⟩, rfl⟩

theorem valueAt_amend (f : σ → σ) :
    valueAt (amend start table k f) other =
      if other = k then some (f ((valueAt table k).getD start)) else valueAt table other := by
  unfold amend valueAt
  split
  · next hmem =>
      have hfind := @find?_update _ _ _ (Prod.fst : κ × σ → κ) table other
        (fun entry => (entry.1, f entry.2)) (fun _ => rfl) k
      rw [hfind]
      split
      · next heq =>
          subst heq
          cases h : table.find? fun entry => entry.1 = other with
          | none => exact absurd hmem (find?_eq_none_iff.mp h)
          | some entry => rfl
      · rfl
  · next hnew =>
      have hnone : table.find? (fun entry => entry.1 = k) = none := find?_eq_none_iff.mpr hnew
      have hfind := @find?_insert _ _ _ (Prod.fst : κ × σ → κ) table (k, f start) other hnew
      rw [hfind, hnone]
      split
      · rfl
      · rfl

theorem keys_amend (f : σ → σ) :
    (amend start table k f).map Prod.fst =
      if k ∈ table.map Prod.fst then table.map Prod.fst else table.map Prod.fst ++ [k] := by
  unfold amend
  split
  · rw [List.map_map]
    refine List.map_congr_left fun entry _ => ?_
    simp only [Function.comp_apply]
    split <;> rfl
  · rw [List.map_append]
    rfl

theorem nodup_amend (hnodup : (table.map Prod.fst).Nodup) (f : σ → σ) :
    ((amend start table k f).map Prod.fst).Nodup := by
  rw [keys_amend]
  split
  · exact hnodup
  · next hnew => exact hnodup.append (List.nodup_singleton k) (by simpa using hnew)

-- What a sequence of changes makes of a key is what its own changes make of it.
theorem valueAt_foldl (key : ε → κ) (step : σ → ε → σ) (events : List ε) (k : κ) :
    valueAt (events.foldl (fun table event => amend start table (key event) (step · event)) table)
        k =
      if events.filter (fun event => key event = k) = [] then valueAt table k
      else some ((events.filter fun event => key event = k).foldl step
        ((valueAt table k).getD start)) := by
  induction events generalizing table with
  | nil => rfl
  | cons event events ih =>
      rw [List.foldl_cons, ih, valueAt_amend]
      by_cases hk : key event = k
      · subst hk
        rw [List.filter_cons_of_pos (by simp), if_pos rfl, if_neg (List.cons_ne_nil _ _),
          List.foldl_cons]
        split
        · next hnil => rw [hnil, List.foldl_nil]
        · rfl
      · rw [List.filter_cons_of_neg (by simpa using hk), if_neg (Ne.symm hk)]

theorem nodup_foldl (key : ε → κ) (step : σ → ε → σ) (events : List ε)
    (hnodup : (table.map Prod.fst).Nodup) :
    ((events.foldl (fun table event => amend start table (key event) (step · event)) table).map
      Prod.fst).Nodup := by
  induction events generalizing table with
  | nil => exact hnodup
  | cons event events ih => exact ih (nodup_amend hnodup _)

-- A table without repeated keys has one order of its keys.
theorem mergeSort_eq_of_perm {κ σ : Type*} [LinearOrder κ] {xs ys : List (κ × σ)}
    (hnodup : (xs.map Prod.fst).Nodup) (hperm : xs.Perm ys) :
    xs.mergeSort (fun a b => a.1 ≤ b.1) = ys.mergeSort (fun a b => a.1 ≤ b.1) := by
  have hsorted : ∀ zs : List (κ × σ),
      (zs.mergeSort fun a b => a.1 ≤ b.1).Pairwise fun a b => a.1 ≤ b.1 := by
    intro zs
    refine (List.pairwise_mergeSort ?_ ?_ zs).imp of_decide_eq_true
    · intro a b c hab hbc
      exact decide_eq_true (le_trans (of_decide_eq_true hab) (of_decide_eq_true hbc))
    · intro a b
      simpa using le_total a.1 b.1
  have hsame := (List.mergeSort_perm xs fun a b => a.1 ≤ b.1).trans
    (hperm.trans (List.mergeSort_perm ys fun a b => a.1 ≤ b.1).symm)
  refine hsame.eq_of_pairwise ?_ (hsorted xs) (hsorted ys)
  intro a b ha hb hab hba
  have hmem : b ∈ xs := hperm.mem_iff.mpr (List.mem_mergeSort.mp hb)
  exact List.inj_on_of_nodup_map hnodup (List.mem_mergeSort.mp ha) hmem (le_antisymm hab hba)

end Groups

end Keyed

-- Sorting before and after a map.
namespace SortedMap

variable {α β : Type*} {r : α → α → Prop} {s : β → β → Prop} {f : α → β} {l : List α}

-- Every two entries stand as both orders have them.
theorem rel_of_pairwise [Std.Refl s] (hanti : ∀ a ∈ l, ∀ b ∈ l, r a b → r b a → a = b)
    (h : l.Pairwise fun a b => r a b ∧ s (f a) (f b)) :
    ∀ a ∈ l, ∀ b ∈ l, r a b → s (f a) (f b) := by
  induction l with
  | nil => exact fun a ha => by cases ha
  | cons first rest ih =>
      rw [List.pairwise_cons] at h
      have hrest := ih (fun a ha b hb => hanti a (.tail _ ha) b (.tail _ hb)) h.2
      intro a ha b hb hab
      obtain hafirst | harest := List.mem_cons.mp ha
      · rw [hafirst] at hab ⊢
        obtain hbfirst | hbrest := List.mem_cons.mp hb
        · rw [hbfirst]
          exact Std.Refl.refl (f first)
        · exact (h.1 b hbrest).2
      · obtain hbfirst | hbrest := List.mem_cons.mp hb
        · rw [hbfirst] at hab ⊢
          have heq : a = first := hanti a ha first (.head _) hab (h.1 a harest).1
          rw [heq]
          exact Std.Refl.refl (f first)
        · exact hrest a harest b hbrest hab

-- Lists with the same distinct keys in the same order are equal if their entries are the same.
theorem eq_of_perm {κ : Type*} {first second : List (κ × β)}
    (hkeys : first.map Prod.fst = second.map Prod.fst) (hnodup : (first.map Prod.fst).Nodup)
    (hperm : first.Perm second) : first = second := by
  induction first generalizing second with
  | nil => exact hperm.nil_eq
  | cons a first ih =>
      cases second with
      | nil => cases hkeys
      | cons b second =>
          obtain ⟨hab, hrest⟩ := List.cons.inj hkeys
          have hnew := (List.nodup_cons.mp hnodup).1
          have hmem : a ∈ b :: second := hperm.mem_iff.mp (.head _)
          rcases List.mem_cons.mp hmem with rfl | hmem
          · rw [ih hrest (List.nodup_cons.mp hnodup).2 hperm.cons_inv]
          · have hkey : a.1 ∈ second.map Prod.fst := List.mem_map_of_mem hmem
            rw [← hrest] at hkey
            exact absurd hkey hnew

variable [DecidableRel r] [DecidableRel s] [Std.Total r] [IsTrans α r] [Std.Total s] [IsTrans β s]

-- The image of the sorted list is the sorted image exactly when the map is monotone on it.
theorem map_insertionSort_eq_iff (hanti : ∀ a ∈ l, ∀ b ∈ l, r a b → r b a → a = b)
    (hinj : ∀ a ∈ l, ∀ b ∈ l, s (f a) (f b) → s (f b) (f a) → a = b) :
    (l.insertionSort r).map f = (l.map f).insertionSort s ↔
      ∀ a ∈ l, ∀ b ∈ l, r a b → s (f a) (f b) := by
  constructor
  · intro heq
    have hr := List.pairwise_insertionSort r l
    have hs := List.pairwise_insertionSort s (l.map f)
    rw [← heq, List.pairwise_map] at hs
    have hmem {a : α} : a ∈ l.insertionSort r ↔ a ∈ l := List.mem_insertionSort r
    have hboth := rel_of_pairwise (fun a ha b hb => hanti a (hmem.mp ha) b (hmem.mp hb)) (hr.and hs)
    exact fun a ha b hb => hboth a (hmem.mpr ha) b (hmem.mpr hb)
  · intro hmono
    refine List.map_insertionSort r s f l fun a ha b hb => ⟨hmono a ha b hb, fun hab => ?_⟩
    rcases Std.Total.total (r := r) a b with hr | hr
    · exact hr
    · rw [hinj a ha b hb hab (hmono b hb a ha hr)]
      exact Std.Refl.refl b

end SortedMap
