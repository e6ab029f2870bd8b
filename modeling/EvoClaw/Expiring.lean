import EvoClaw.Keyed
import Mathlib.Algebra.Order.Group.Defs
import Mathlib.Algebra.Order.Group.Unbundled.Basic
import Mathlib.Data.Finset.Card

-- A cache whose entries count for a while after they were stored. When it is full, a batch of the
-- oldest entries makes room for a new one.
namespace Expiring

variable {κ ν T : Type*} [DecidableEq κ] [AddCommGroup T] [LinearOrder T] [IsOrderedAddMonoid T]
  {limit batch : Nat} {ttl now clock : T} {table stored : List (κ × T × ν)} {key : κ} {value : ν}

def lookup (ttl now : T) (table : List (κ × T × ν)) (key : κ) : Option ν × List (κ × T × ν) :=
  match Keyed.valueAt table key with
  | none => (none, table)
  | some (time, value) =>
      if ttl < now - time then (none, table.filter fun entry => entry.1 ≠ key)
      else (some value, table)

def byAge (table : List (κ × T × ν)) : List (κ × T × ν) :=
  table.mergeSort fun entry other => entry.2.1 ≤ other.2.1

def makeRoom (limit batch : Nat) (table : List (κ × T × ν)) : List (κ × T × ν) :=
  if limit ≤ table.length then
    table.filter fun entry => entry.1 ∉ ((byAge table).take batch).map Prod.fst
  else table

def store (limit batch : Nat) (now : T) (table : List (κ × T × ν)) (key : κ) (value : ν) :
    List (κ × T × ν) :=
  Keyed.amend (now, value) (makeRoom limit batch table) key fun _ => (now, value)

-- What was stored last under the key, and when.
def last (stored : List (κ × T × ν)) (key : κ) : Option (T × ν) :=
  Keyed.valueAt stored.reverse key

-- How many other keys were stored from a time on.
def othersFrom (stored : List (κ × T × ν)) (key : κ) (start : T) : Nat :=
  (((stored.filter fun entry => start ≤ entry.2.1).map Prod.fst).toFinset.erase key).card

-- Why the cache may have no entry for what was stored.
def Gone (limit batch : Nat) (ttl clock : T) (stored : List (κ × T × ν)) (key : κ) (time : T) :
    Prop :=
  ttl < clock - time ∨ limit - batch ≤ othersFrom stored key time

structure Tracks (limit batch : Nat) (ttl clock : T) (stored table : List (κ × T × ν)) : Prop where
  nodup : (table.map Prod.fst).Nodup
  size : table.length ≤ limit
  past : ∀ entry ∈ stored, entry.2.1 ≤ clock
  sound : ∀ key entry, Keyed.valueAt table key = some entry → last stored key = some entry
  kept : ∀ key entry, last stored key = some entry →
    Keyed.valueAt table key = some entry ∨ Gone limit batch ttl clock stored key entry.1

section Stored

omit [AddCommGroup T] [LinearOrder T] [IsOrderedAddMonoid T]

theorem last_concat (other : κ) :
    last (stored ++ [(key, now, value)]) other =
      if other = key then some (now, value) else last stored other := by
  rw [last, List.reverse_append, List.reverse_singleton, List.singleton_append, Keyed.valueAt,
    List.find?_cons]
  by_cases hother : other = key
  · subst hother
    simp
  · simp only [hother, if_false, eq_comm (a := key)]
    rfl

theorem mem_of_last {entry : T × ν} (h : last stored key = some entry) : (key, entry) ∈ stored := by
  obtain ⟨⟨other, found⟩, hfind, rfl⟩ := Option.map_eq_some_iff.mp h
  obtain ⟨hmem, hkey⟩ := Keyed.find?_spec hfind
  exact List.mem_reverse.mp (hkey ▸ hmem)

end Stored

section Others

omit [AddCommGroup T] [IsOrderedAddMonoid T]

theorem othersFrom_mono {more : List (κ × T × ν)} {start : T} (hsubset : stored ⊆ more) :
    othersFrom stored key start ≤ othersFrom more key start := by
  refine Finset.card_le_card (Finset.erase_subset_erase key fun other hother => ?_)
  simp only [List.mem_toFinset, List.mem_map, List.mem_filter, decide_eq_true_eq] at hother ⊢
  obtain ⟨entry, ⟨hmem, hstart⟩, rfl⟩ := hother
  exact ⟨entry, ⟨hsubset hmem, hstart⟩, rfl⟩

omit [DecidableEq κ] in
-- The entries that stay are not older than those that go.
theorem byAge_split (table : List (κ × T × ν)) (batch : Nat) {entry other : κ × T × ν}
    (hentry : entry ∈ (byAge table).take batch) (hother : other ∈ (byAge table).drop batch) :
    entry.2.1 ≤ other.2.1 := by
  have hsorted : (byAge table).Pairwise fun entry other => entry.2.1 ≤ other.2.1 := by
    have hpairwise := @List.pairwise_mergeSort (κ × T × ν)
      (fun entry other => decide (entry.2.1 ≤ other.2.1))
      (by simpa using fun _ _ _ _ _ _ _ _ _ => le_trans)
      (by simpa using fun _ _ _ _ _ _ => le_total _ _) table
    simpa only [byAge, decide_eq_true_eq] using hpairwise
  rw [← List.take_append_drop batch (byAge table)] at hsorted
  exact (List.pairwise_append.mp hsorted).2.2 entry hentry other hother

omit [DecidableEq κ] in
theorem byAge_perm (table : List (κ × T × ν)) : (byAge table).Perm table :=
  List.mergeSort_perm _ _

omit [DecidableEq κ] in
theorem nodup_byAge (hnodup : (table.map Prod.fst).Nodup) : ((byAge table).map Prod.fst).Nodup :=
  ((byAge_perm table).map Prod.fst).nodup_iff.mpr hnodup

end Others

section Room

omit [AddCommGroup T] [IsOrderedAddMonoid T]

variable {entry : T × ν}

theorem nodup_makeRoom (hnodup : (table.map Prod.fst).Nodup) :
    ((makeRoom limit batch table).map Prod.fst).Nodup := by
  unfold makeRoom
  split
  · exact hnodup.sublist (List.filter_sublist.map Prod.fst)
  · exact hnodup

theorem valueAt_of_makeRoom (hnodup : (table.map Prod.fst).Nodup)
    (h : Keyed.valueAt (makeRoom limit batch table) key = some entry) :
    Keyed.valueAt table key = some entry := by
  rw [Keyed.valueAt_eq_some_iff (nodup_makeRoom hnodup)] at h
  rw [Keyed.valueAt_eq_some_iff hnodup]
  unfold makeRoom at h
  split at h
  · exact List.mem_of_mem_filter h
  · exact h

-- An entry goes only if many others were stored no earlier.
theorem makeRoom_kept (hnodup : (table.map Prod.fst).Nodup)
    (hstored : ∀ entry ∈ table, entry ∈ stored) (h : Keyed.valueAt table key = some entry) :
    Keyed.valueAt (makeRoom limit batch table) key = some entry ∨
      limit - batch ≤ othersFrom stored key entry.1 := by
  rw [Keyed.valueAt_eq_some_iff hnodup] at h
  rw [Keyed.valueAt_eq_some_iff (nodup_makeRoom hnodup)]
  unfold makeRoom
  split
  · next hfull =>
      by_cases hgone : key ∈ ((byAge table).take batch).map Prod.fst
      · refine .inr ?_
        obtain ⟨found, hfound, hkey⟩ := List.mem_map.mp hgone
        have hsame : found = (key, entry) := by
          refine List.inj_on_of_nodup_map hnodup ?_ h hkey
          exact (byAge_perm table).subset (List.mem_of_mem_take hfound)
        subst hsame
        have hsplit : (((byAge table).take batch).map Prod.fst ++
            ((byAge table).drop batch).map Prod.fst).Nodup := by
          rw [← List.map_append, List.take_append_drop]
          exact nodup_byAge hnodup
        obtain ⟨-, hdrop, hdisjoint⟩ := List.nodup_append.mp hsplit
        have hothers : (((byAge table).drop batch).map Prod.fst).toFinset ⊆
            ((stored.filter fun other => entry.1 ≤ other.2.1).map Prod.fst).toFinset.erase key := by
          intro other hother
          rw [List.mem_toFinset] at hother
          have hne : other ≠ key := fun heq => hdisjoint key hgone other hother heq.symm
          obtain ⟨stays, hstays, rfl⟩ := List.mem_map.mp hother
          have hmem := hstored stays ((byAge_perm table).subset (List.mem_of_mem_drop hstays))
          have holder : entry.1 ≤ stays.2.1 := byAge_split table batch hfound hstays
          exact Finset.mem_erase.mpr ⟨hne, List.mem_toFinset.mpr (List.mem_map_of_mem
            (List.mem_filter.mpr ⟨hmem, decide_eq_true holder⟩))⟩
        have hcard := Finset.card_le_card hothers
        rw [List.toFinset_card_of_nodup hdrop, List.length_map, List.length_drop,
          (byAge_perm table).length_eq] at hcard
        exact (Nat.sub_le_sub_right hfull batch).trans hcard
      · exact .inl (List.mem_filter.mpr ⟨h, by simpa using hgone⟩)
  · exact .inl h

theorem length_makeRoom (hbatch : 0 < batch) (hlimit : 0 < limit) (hsize : table.length ≤ limit) :
    (makeRoom limit batch table).length < limit := by
  unfold makeRoom
  split
  · have htaken : ((byAge table).take batch).filter
        (fun entry => entry.1 ∉ ((byAge table).take batch).map Prod.fst) = [] := by
      refine List.filter_eq_nil_iff.mpr fun entry hentry => ?_
      rw [decide_eq_true_eq, not_not]
      exact List.mem_map_of_mem hentry
    rw [← ((byAge_perm table).filter _).length_eq,
      ← List.take_append_drop batch (byAge table), List.filter_append]
    rw [List.take_append_drop, htaken, List.nil_append]
    have hle := List.length_filter_le
      (fun entry => decide (entry.1 ∉ ((byAge table).take batch).map Prod.fst))
      ((byAge table).drop batch)
    rw [List.length_drop, (byAge_perm table).length_eq] at hle
    omega
  · omega

end Room

omit [IsOrderedAddMonoid T] in
theorem tracks_nil (limit batch : Nat) (ttl clock : T) :
    Tracks limit batch ttl clock ([] : List (κ × T × ν)) [] where
  nodup := List.nodup_nil
  size := Nat.zero_le _
  past := by simp
  sound := by simp [Keyed.valueAt]
  kept := by simp [last, Keyed.valueAt]

namespace Tracks

theorem later (h : Tracks limit batch ttl clock stored table) (hnow : clock ≤ now) :
    Tracks limit batch ttl now stored table :=
  { h with
    past := fun entry hentry => (h.past entry hentry).trans hnow
    kept := fun key entry hlast => (h.kept key entry hlast).imp_right fun hgone =>
      hgone.imp_left fun hold => hold.trans_le (sub_le_sub_right hnow entry.1) }

omit [IsOrderedAddMonoid T] in
theorem lookup (h : Tracks limit batch ttl clock stored table) :
    Tracks limit batch ttl clock stored (Expiring.lookup ttl clock table key).2 := by
  unfold Expiring.lookup
  split
  · exact h
  · next time value hvalue =>
      split
      · next hold =>
          have hnodup : ((table.filter fun entry => entry.1 ≠ key).map Prod.fst).Nodup :=
            h.nodup.sublist (List.filter_sublist.map Prod.fst)
          have hvalues (other : κ) (entry : T × ν) :
              Keyed.valueAt (table.filter fun entry => entry.1 ≠ key) other = some entry ↔
                Keyed.valueAt table other = some entry ∧ other ≠ key := by
            rw [Keyed.valueAt_eq_some_iff hnodup, Keyed.valueAt_eq_some_iff h.nodup,
              List.mem_filter, decide_eq_true_eq]
          refine ⟨hnodup, (List.length_filter_le _ _).trans h.size, h.past,
            fun other entry hother => h.sound other entry ((hvalues other entry).mp hother).1,
            fun other entry hlast => ?_⟩
          rcases h.kept other entry hlast with hkept | hgone
          · by_cases hother : other = key
            · subst hother
              obtain rfl : (time, value) = entry := Option.some.inj (hvalue.symm.trans hkept)
              exact .inr (.inl hold)
            · exact .inl ((hvalues other entry).mpr ⟨hkept, hother⟩)
          · exact .inr hgone
      · exact h

omit [IsOrderedAddMonoid T] in
theorem store (h : Tracks limit batch ttl clock stored table) (hbatch : 0 < batch)
    (hlimit : 0 < limit) : Tracks limit batch ttl clock (stored ++ [(key, clock, value)])
      (Expiring.store limit batch clock table key value) := by
  have hroom : ((makeRoom limit batch table).map Prod.fst).Nodup := nodup_makeRoom h.nodup
  have hmore : stored ⊆ stored ++ [(key, clock, value)] := List.subset_append_left _ _
  have hstored : ∀ entry ∈ table, entry ∈ stored := fun entry hentry =>
    mem_of_last (h.sound _ _ ((Keyed.valueAt_eq_some_iff h.nodup).mpr hentry))
  refine ⟨Keyed.nodup_amend hroom _, ?_, fun entry hentry => ?_, fun other entry hother => ?_,
    fun other entry hlast => ?_⟩
  · have hlength : (makeRoom limit batch table).length < limit :=
      length_makeRoom hbatch hlimit h.size
    rw [Expiring.store, ← List.length_map Prod.fst, Keyed.keys_amend]
    split
    · rw [List.length_map]
      omega
    · rw [List.length_append, List.length_map, List.length_singleton]
      omega
  · rcases List.mem_append.mp hentry with hold | hnew
    · exact h.past entry hold
    · rw [List.mem_singleton.mp hnew]
  · rw [Expiring.store, Keyed.valueAt_amend] at hother
    rw [last_concat]
    split at hother
    · next hkey => rw [if_pos hkey, ← hother]
    · next hkey =>
        rw [if_neg hkey]
        exact h.sound other entry (valueAt_of_makeRoom h.nodup hother)
  · rw [Expiring.store, Keyed.valueAt_amend]
    rw [last_concat] at hlast
    split at hlast
    · next hkey =>
        rw [if_pos hkey, ← hlast]
        exact .inl rfl
    · next hkey =>
        rw [if_neg hkey]
        rcases h.kept other entry hlast with hkept | hold | hcrowded
        · exact (makeRoom_kept h.nodup hstored hkept).imp_right fun hcrowded =>
            .inr (hcrowded.trans (othersFrom_mono hmore))
        · exact .inr (.inl hold)
        · exact .inr (.inr (hcrowded.trans (othersFrom_mono hmore)))

section Answers

omit [IsOrderedAddMonoid T]

theorem hit (h : Tracks limit batch ttl clock stored table)
    (hfound : (Expiring.lookup ttl clock table key).1 = some value) :
    ∃ time, last stored key = some (time, value) ∧ clock - time ≤ ttl := by
  unfold Expiring.lookup at hfound
  split at hfound
  · cases hfound
  · next time found hvalue =>
      split at hfound
      · cases hfound
      · next hfresh =>
          obtain rfl := Option.some.inj hfound
          exact ⟨time, h.sound _ _ hvalue, not_lt.mp hfresh⟩

theorem miss (h : Tracks limit batch ttl clock stored table)
    (hmissed : (Expiring.lookup ttl clock table key).1 = none) {entry : T × ν}
    (hlast : last stored key = some entry) : Gone limit batch ttl clock stored key entry.1 := by
  rcases h.kept key entry hlast with hkept | hgone
  · rw [Expiring.lookup, hkept] at hmissed
    dsimp only at hmissed
    split at hmissed
    · next hold => exact .inl hold
    · cases hmissed
  · exact hgone

end Answers

end Tracks

end Expiring
