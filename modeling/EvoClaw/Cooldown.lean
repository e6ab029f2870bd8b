import EvoClaw.Keyed
import Mathlib.Algebra.Order.Group.Unbundled.Basic
import Mathlib.Algebra.Order.Group.Defs
import Mathlib.Data.Finset.Card
import Mathlib.Data.List.MinMax

-- One notice of a kind, and none of it again for a while. A table holds the time of the last
-- notice of each kind. Where its size is limited, the oldest one makes room.
namespace Cooldown

variable {κ T : Type*} [DecidableEq κ] [AddCommGroup T] [LinearOrder T] [IsOrderedAddMonoid T]
  {limit : Option Nat} {cooldown now clock : T} {table sent : List (κ × T)} {key : κ}

def evictOldest (table : List (κ × T)) : List (κ × T) :=
  match table.argmin Prod.snd with
  | none => table
  | some oldest => table.filter fun entry => entry.1 ≠ oldest.1

def Full (limit : Option Nat) (table : List (κ × T)) : Prop :=
  ∃ most ∈ limit, most ≤ table.length

instance : Decidable (Full limit table) :=
  match limit with
  | none => isFalse fun h => nomatch h.choose_spec.1
  | some most => decidable_of_iff (most ≤ table.length) (by simp [Full])

-- Whether there is a notice now, and the table afterwards. A kind without one counts from zero.
def request (limit : Option Nat) (cooldown now : T) (table : List (κ × T)) (key : κ) :
    Bool × List (κ × T) :=
  if cooldown ≤ now - (Keyed.valueAt table key).getD 0 then
    (true, Keyed.amend 0 (if Full limit table then evictOldest table else table) key fun _ => now)
  else (false, table)

-- How many other kinds have had a notice from one time to another.
def othersBetween (sent : List (κ × T)) (key : κ) (start stop : T) : Nat :=
  (((sent.filter fun entry => start ≤ entry.2 ∧ entry.2 ≤ stop).map Prod.fst).toFinset.erase
    key).card

-- The table is full of others.
def Crowded (limit : Option Nat) (sent : List (κ × T)) (key : κ) (start stop : T) : Prop :=
  ∃ most ∈ limit, most ≤ othersBetween sent key start stop + 1

-- Two notices of a kind are apart, unless the first one was evicted.
def Paced (limit : Option Nat) (cooldown : T) (sent : List (κ × T)) : Prop :=
  sent.Pairwise fun entry later => entry.1 = later.1 →
    cooldown ≤ later.2 - entry.2 ∨ Crowded limit sent entry.1 entry.2 later.2

-- The same where nothing is evicted.
def Apart (cooldown : T) (entry later : κ × T) : Prop :=
  entry.1 = later.1 → cooldown ≤ later.2 - entry.2

-- There was no notice of the kind for a while.
def Quiet (cooldown now : T) (sent : List (κ × T)) (key : κ) : Prop :=
  ∀ entry ∈ sent, entry.1 = key → cooldown ≤ now - entry.2

instance : Decidable (Quiet cooldown now sent key) :=
  inferInstanceAs (Decidable (∀ entry ∈ sent, entry.1 = key → cooldown ≤ now - entry.2))

structure Tracks (limit : Option Nat) (cooldown clock : T) (sent table : List (κ × T)) : Prop where
  past : ∀ entry ∈ sent, entry.2 ≤ clock
  nodup : (table.map Prod.fst).Nodup
  noticed : ∀ entry ∈ table, entry ∈ sent
  kept : ∀ entry ∈ sent, (∃ last, entry.2 ≤ last ∧ (entry.1, last) ∈ table) ∨
    Crowded limit sent entry.1 entry.2 clock
  paced : Paced limit cooldown sent

section Others

omit [AddCommGroup T] [IsOrderedAddMonoid T]

variable {more : List (κ × T)} {start stop later : T}

theorem othersBetween_mono (hsent : sent ⊆ more) (hstop : stop ≤ later) :
    othersBetween sent key start stop ≤ othersBetween more key start later := by
  refine Finset.card_le_card (Finset.erase_subset_erase key fun other hother => ?_)
  simp only [List.mem_toFinset, List.mem_map, List.mem_filter, decide_eq_true_eq] at hother ⊢
  obtain ⟨entry, ⟨hmem, hstart, hentry⟩, rfl⟩ := hother
  exact ⟨entry, ⟨hsent hmem, hstart, hentry.trans hstop⟩, rfl⟩

theorem Crowded.mono (h : Crowded limit sent key start stop) (hsent : sent ⊆ more)
    (hstop : stop ≤ later) : Crowded limit more key start later := by
  obtain ⟨most, hmost, hle⟩ := h
  exact ⟨most, hmost, hle.trans (Nat.succ_le_succ (othersBetween_mono hsent hstop))⟩

-- A full table whose oldest entry is the one of the key.
theorem crowded_of_oldest (hpast : ∀ entry ∈ sent, entry.2 ≤ stop)
    (hnodup : (table.map Prod.fst).Nodup) (hsent : ∀ entry ∈ table, entry ∈ sent)
    (hfull : Full limit table) (holdest : ∀ entry ∈ table, start ≤ entry.2) :
    Crowded limit sent key start stop := by
  obtain ⟨most, hmost, hle⟩ := hfull
  refine ⟨most, hmost, ?_⟩
  have hsubset : (table.map Prod.fst).toFinset.erase key ⊆
      ((sent.filter fun entry => start ≤ entry.2 ∧ entry.2 ≤ stop).map Prod.fst).toFinset.erase
        key := by
    refine Finset.erase_subset_erase key fun other hother => ?_
    simp only [List.mem_toFinset, List.mem_map, List.mem_filter, decide_eq_true_eq] at hother ⊢
    obtain ⟨entry, hmem, rfl⟩ := hother
    exact ⟨entry, ⟨hsent entry hmem, holdest entry hmem, hpast entry (hsent entry hmem)⟩, rfl⟩
  have hcard := Finset.card_le_card hsubset
  have hkeys : table.length ≤ ((table.map Prod.fst).toFinset.erase key).card + 1 := by
    have hpred := Finset.pred_card_le_card_erase (s := (table.map Prod.fst).toFinset) (a := key)
    rw [List.toFinset_card_of_nodup hnodup, List.length_map] at hpred
    omega
  unfold othersBetween
  omega

end Others

section Eviction

omit [AddCommGroup T] [IsOrderedAddMonoid T]

theorem mem_of_mem_evictOldest {entry : κ × T} (h : entry ∈ evictOldest table) : entry ∈ table := by
  unfold evictOldest at h
  split at h
  · exact h
  · exact List.mem_of_mem_filter h

theorem nodup_evictOldest (h : (table.map Prod.fst).Nodup) :
    ((evictOldest table).map Prod.fst).Nodup := by
  unfold evictOldest
  split
  · exact h
  · exact h.sublist (List.filter_sublist.map Prod.fst)

-- What is evicted is not younger than anything in the table.
theorem mem_evictOldest {entry : κ × T} (hnodup : (table.map Prod.fst).Nodup) (h : entry ∈ table) :
    entry ∈ evictOldest table ∨ ∀ other ∈ table, entry.2 ≤ other.2 := by
  unfold evictOldest
  split
  · exact .inl h
  · next oldest holdest =>
      by_cases hkey : entry.1 = oldest.1
      · have heq : entry = oldest :=
          List.inj_on_of_nodup_map hnodup h (List.argmin_mem holdest) hkey
        subst heq
        exact .inr fun other hother => List.le_of_mem_argmin hother holdest
      · exact .inl (List.mem_filter.mpr ⟨h, by simpa using hkey⟩)

end Eviction

omit [AddCommGroup T] [LinearOrder T] [IsOrderedAddMonoid T] in
theorem mem_amend_iff {zero : T} (hnodup : (table.map Prod.fst).Nodup) {entry : κ × T} :
    entry ∈ Keyed.amend zero table key (fun _ => now) ↔
      entry = (key, now) ∨ entry.1 ≠ key ∧ entry ∈ table := by
  obtain ⟨other, time⟩ := entry
  rw [← Keyed.valueAt_eq_some_iff (Keyed.nodup_amend hnodup _), Keyed.valueAt_amend,
    ← Keyed.valueAt_eq_some_iff hnodup]
  by_cases hother : other = key
  · subst hother
    simp [eq_comm]
  · simp [hother]

omit [IsOrderedAddMonoid T] in
theorem tracks_nil (limit : Option Nat) (cooldown clock : T) :
    Tracks limit cooldown clock ([] : List (κ × T)) [] where
  past := by simp
  nodup := List.nodup_nil
  noticed := by simp
  kept := by simp
  paced := List.Pairwise.nil

namespace Tracks

omit [IsOrderedAddMonoid T] in
theorem later (h : Tracks limit cooldown clock sent table) (hnow : clock ≤ now) : Tracks limit cooldown now sent table :=
  { h with
    past := fun entry hentry => (h.past entry hentry).trans hnow
    kept := fun entry hentry => (h.kept entry hentry).imp_right fun hcrowded =>
      hcrowded.mono (List.Subset.refl _) hnow }

-- The table that the notice is written to.
omit [IsOrderedAddMonoid T] in
theorem makeRoom (h : Tracks limit cooldown clock sent table) :
    Tracks limit cooldown clock sent (if Full limit table then evictOldest table else table) := by
  split
  · next hfull =>
      refine { h with
        nodup := nodup_evictOldest h.nodup
        noticed := fun entry hentry => h.noticed entry (mem_of_mem_evictOldest hentry)
        kept := fun entry hentry => ?_ }
      rcases h.kept entry hentry with ⟨last, hlast, hmem⟩ | hcrowded
      · rcases mem_evictOldest h.nodup hmem with hkept | holdest
        · exact .inl ⟨last, hlast, hkept⟩
        · exact .inr (crowded_of_oldest h.past h.nodup h.noticed hfull fun other hother =>
            hlast.trans (holdest other hother))
      · exact .inr hcrowded
  · exact h

-- The last notice that the table knows of is long ago, or it has forgotten the last one.
theorem paced_append (h : Tracks limit cooldown clock sent table)
    (hdue : cooldown ≤ clock - (Keyed.valueAt table key).getD 0) :
    Paced limit cooldown (sent ++ [(key, clock)]) := by
  have hmore : sent ⊆ sent ++ [(key, clock)] := List.subset_append_left _ _
  refine List.pairwise_append.mpr ⟨?_, List.pairwise_singleton _ _, ?_⟩
  · exact h.paced.imp fun hpaced heq =>
      (hpaced heq).imp_right fun hcrowded => hcrowded.mono hmore (le_refl _)
  · intro entry hentry last hlast heq
    rw [List.mem_singleton.mp hlast] at heq ⊢
    rcases h.kept entry hentry with ⟨time, htime, hmem⟩ | hcrowded
    · rw [heq, ← Keyed.valueAt_eq_some_iff h.nodup] at hmem
      rw [hmem] at hdue
      exact .inl (hdue.trans (sub_le_sub_left htime clock))
    · exact .inr (hcrowded.mono hmore (le_refl _))

theorem request (h : Tracks limit cooldown clock sent table) :
    Tracks limit cooldown clock
      (sent ++ if (request limit cooldown clock table key).1 then [(key, clock)] else [])
      (Cooldown.request limit cooldown clock table key).2 := by
  unfold Cooldown.request
  split
  · next hdue =>
      have hroom := h.makeRoom
      have hmore : sent ⊆ sent ++ [(key, clock)] := List.subset_append_left _ _
      rw [if_pos rfl]
      dsimp only
      refine ⟨fun entry hentry => ?_, Keyed.nodup_amend hroom.nodup _, fun entry hentry => ?_,
        fun entry hentry => ?_, h.paced_append hdue⟩
      · rcases List.mem_append.mp hentry with hold | hnew
        · exact h.past entry hold
        · exact le_of_eq (congrArg Prod.snd (List.mem_singleton.mp hnew))
      · rcases (mem_amend_iff hroom.nodup).mp hentry with rfl | ⟨-, hmem⟩
        · exact List.mem_append_right _ List.mem_cons_self
        · exact hmore (hroom.noticed entry hmem)
      · simp only [mem_amend_iff hroom.nodup]
        rcases List.mem_append.mp hentry with hold | hnew
        · rcases hroom.kept entry hold with ⟨last, hlast, hmem⟩ | hcrowded
          · by_cases hkey : entry.1 = key
            · exact .inl ⟨clock, h.past entry hold, .inl (by rw [hkey])⟩
            · exact .inl ⟨last, hlast, .inr ⟨hkey, hmem⟩⟩
          · exact .inr (hcrowded.mono hmore (le_refl _))
        · rw [List.mem_singleton.mp hnew]
          exact .inl ⟨clock, le_refl _, .inl rfl⟩
  · rw [if_neg Bool.false_ne_true, List.append_nil]
    exact h

-- There is a notice as soon as the last one of the kind is long enough ago.
omit [IsOrderedAddMonoid T] in
theorem due (h : Tracks limit cooldown clock sent table) (hzero : cooldown ≤ now)
    (hold : ∀ entry ∈ sent, entry.1 = key → cooldown ≤ now - entry.2) :
    (Cooldown.request limit cooldown now table key).1 = true := by
  have hdue : cooldown ≤ now - (Keyed.valueAt table key).getD 0 := by
    cases hvalue : Keyed.valueAt table key with
    | none => simpa using hzero
    | some last =>
        exact hold _ (h.noticed _ ((Keyed.valueAt_eq_some_iff h.nodup).mp hvalue)) rfl
  rw [Cooldown.request, if_pos hdue]

section Unlimited

omit [AddCommGroup T] [IsOrderedAddMonoid T] in
theorem not_crowded {start stop : T} : ¬ Crowded none sent key start stop := by
  rintro ⟨most, hmost, -⟩
  cases hmost

-- A kind of which nothing is known any more.
omit [IsOrderedAddMonoid T] in
theorem forget (h : Tracks none cooldown clock sent table) (key : κ) :
    Tracks none cooldown clock (sent.filter fun entry => entry.1 ≠ key)
      (table.filter fun entry => entry.1 ≠ key) where
  past entry hentry := h.past entry (List.mem_of_mem_filter hentry)
  nodup := h.nodup.sublist (List.filter_sublist.map Prod.fst)
  noticed entry hentry := by
    obtain ⟨hmem, hkey⟩ := List.mem_filter.mp hentry
    exact List.mem_filter.mpr ⟨h.noticed entry hmem, hkey⟩
  kept entry hentry := by
    obtain ⟨hmem, hkey⟩ := List.mem_filter.mp hentry
    rcases h.kept entry hmem with ⟨last, hlast, hold⟩ | hcrowded
    · exact .inl ⟨last, hlast, List.mem_filter.mpr ⟨hold, hkey⟩⟩
    · exact absurd hcrowded not_crowded
  paced := (h.paced.filter _).imp fun hpaced heq =>
    .inl ((hpaced heq).resolve_right not_crowded)

omit [IsOrderedAddMonoid T] in
theorem apart (h : Tracks none cooldown clock sent table) : sent.Pairwise (Apart cooldown) :=
  h.paced.imp fun hpaced heq => (hpaced heq).resolve_right not_crowded

-- The table decides as the list of all notices would.
theorem due_iff (h : Tracks none cooldown clock sent table) (hzero : cooldown ≤ now) :
    (Cooldown.request none cooldown now table key).1 = true ↔ Quiet cooldown now sent key := by
  refine ⟨fun hdue entry hentry hkey => ?_, h.due hzero⟩
  obtain ⟨last, hlast, hmem⟩ := (h.kept entry hentry).resolve_right not_crowded
  rw [hkey, ← Keyed.valueAt_eq_some_iff h.nodup] at hmem
  unfold Cooldown.request at hdue
  split at hdue
  · next hlate =>
      rw [hmem] at hlate
      exact hlate.trans (sub_le_sub_left hlast now)
  · cases hdue

end Unlimited

end Tracks

end Cooldown
