import Mathlib.Data.List.Dedup
import Mathlib.Data.Rat.Defs
import Mathlib.Algebra.Order.Ring.Rat

namespace Ranking

variable {α κ : Type*} [DecidableEq κ] {key : α → κ}

-- Results gathered from several sources, with the keys that are taken.
structure Merge (α κ : Type*) where
  results : List α
  seen : List κ

def Merge.empty : Merge α κ := ⟨[], []⟩

def Merge.offer (key : α → κ) (merge : Merge α κ) (item : α) : Merge α κ :=
  if key item ∈ merge.seen then merge
  else ⟨merge.results ++ [item], key item :: merge.seen⟩

def Merge.offerAll (key : α → κ) (merge : Merge α κ) (items : List α) : Merge α κ :=
  items.foldl (Merge.offer key) merge

-- Python's list.sort(key=score, reverse=True): items of one score keep their order.
def byScore (score : α → ℚ) (items : List α) : List α :=
  items.mergeSort fun a b => score b ≤ score a

-- Python's items[:k]
def slice (items : List α) (k : Int) : List α :=
  if 0 ≤ k then items.take k.toNat else items.take (items.length - k.natAbs)

namespace Merge

theorem offerAll_append (merge : Merge α κ) (first second : List α) :
    merge.offerAll key (first ++ second) = (merge.offerAll key first).offerAll key second :=
  List.foldl_append

theorem offerAll_cons (merge : Merge α κ) (item : α) (items : List α) :
    merge.offerAll key (item :: items) = (merge.offer key item).offerAll key items := rfl

theorem mem_seen_offer (merge : Merge α κ) (item : α) (k : κ) :
    k ∈ (merge.offer key item).seen ↔ k ∈ merge.seen ∨ k = key item := by
  unfold offer
  split
  · rename_i hin
    exact ⟨.inl, fun h => h.elim id fun he => he ▸ hin⟩
  · simp [or_comm]

theorem mem_seen_offerAll (items : List α) (merge : Merge α κ) (k : κ) :
    k ∈ (merge.offerAll key items).seen ↔ k ∈ merge.seen ∨ k ∈ items.map key := by
  induction items generalizing merge with
  | nil => simp [offerAll]
  | cons item items ih =>
      rw [offerAll_cons, ih, mem_seen_offer]
      simp [or_assoc]

-- The keys are those of the results, each once.
structure Distinct (key : α → κ) (merge : Merge α κ) : Prop where
  nodup : (merge.results.map key).Nodup
  seen_iff : ∀ k, k ∈ merge.seen ↔ k ∈ merge.results.map key

omit [DecidableEq κ] in
theorem Distinct.empty : (Merge.empty : Merge α κ).Distinct key :=
  ⟨List.nodup_nil, fun _ => Iff.rfl⟩

theorem Distinct.offer {merge : Merge α κ} (h : merge.Distinct key) (item : α) :
    (merge.offer key item).Distinct key := by
  by_cases hin : key item ∈ merge.seen
  · simpa [Merge.offer, hin] using h
  · have hnew : key item ∉ merge.results.map key := fun hk => hin ((h.seen_iff _).mpr hk)
    constructor
    · have hd : (merge.results.map key ++ [key item]).Nodup :=
        List.nodup_append.mpr ⟨h.nodup, List.nodup_singleton _, by
          intro a ha b hb he
          rw [List.mem_singleton] at hb
          exact hnew (hb ▸ he ▸ ha)⟩
      simpa [Merge.offer, hin] using hd
    · intro k
      simp only [Merge.offer, hin, if_false, List.map_append, List.mem_append, List.mem_cons,
        h.seen_iff k, List.map_cons, List.map_nil, List.not_mem_nil, or_false]
      exact or_comm

theorem Distinct.offerAll {merge : Merge α κ} (h : merge.Distinct key) (items : List α) :
    (merge.offerAll key items).Distinct key := by
  induction items generalizing merge with
  | nil => exact h
  | cons item items ih => exact ih (h.offer item)

-- One item per key is kept, so the results are as many as the keys.
theorem length_results (items : List α) :
    ((Merge.empty.offerAll key items).results).length = (items.map key).dedup.length := by
  have hd : (Merge.empty.offerAll key items).Distinct key := Distinct.empty.offerAll items
  have hset : ∀ k, k ∈ (Merge.empty.offerAll key items).results.map key ↔ k ∈ (items.map key).dedup := by
    intro k
    rw [← hd.seen_iff, mem_seen_offerAll, List.mem_dedup]
    simp [Merge.empty]
  have hp := (List.perm_ext_iff_of_nodup hd.nodup (List.nodup_dedup _)).mpr hset
  simpa using hp.length_eq

-- What the results gain are items whose key was free.
theorem results_offerAll (items : List α) (merge : Merge α κ) :
    ∃ kept, (merge.offerAll key items).results = merge.results ++ kept ∧
      ∀ item ∈ kept, item ∈ items ∧ key item ∉ merge.seen := by
  induction items generalizing merge with
  | nil => exact ⟨[], by simp [offerAll], by simp⟩
  | cons item items ih =>
      obtain ⟨kept, heq, hkept⟩ := ih (merge.offer key item)
      by_cases hin : key item ∈ merge.seen
      · have hsame : merge.offer key item = merge := by simp [offer, hin]
        rw [hsame] at heq hkept
        exact ⟨kept, by rw [offerAll_cons, hsame, heq],
          fun x hx => ⟨List.mem_cons_of_mem _ (hkept x hx).1, (hkept x hx).2⟩⟩
      · refine ⟨item :: kept, ?_, ?_⟩
        · rw [offerAll_cons, heq]
          simp [offer, hin]
        · intro x hx
          rcases List.mem_cons.mp hx with rfl | hx
          · exact ⟨by simp, hin⟩
          · obtain ⟨hm, hs⟩ := hkept x hx
            exact ⟨List.mem_cons_of_mem _ hm, fun h => hs ((mem_seen_offer _ _ _).mpr (.inl h))⟩

theorem mem_of_mem_results {items : List α} {item : α}
    (h : item ∈ (Merge.empty.offerAll key items).results) : item ∈ items := by
  obtain ⟨kept, heq, hkept⟩ : ∃ kept, _ ∧ ∀ x ∈ kept, x ∈ items ∧ key x ∉ _ :=
    results_offerAll items Merge.empty
  rw [heq] at h
  exact (hkept item (by simpa [Merge.empty] using h)).1

theorem mem_seen_ite {merge : Merge α κ} {k : κ} (b : Prop) [Decidable b] (items : List α)
    (h : k ∈ merge.seen) : k ∈ (if b then merge.offerAll key items else merge).seen := by
  split
  · exact (mem_seen_offerAll _ _ _).mpr (.inl h)
  · exact h

theorem ite_offerAll (b : Prop) [Decidable b] (merge : Merge α κ) (items : List α) :
    (if b then merge.offerAll key items else merge) =
      merge.offerAll key (if b then items else []) := by
  split <;> rfl

-- Items whose key is taken may as well not be offered.
theorem offerAll_filter {β : Type*} (f : β → α) (keep : β → Bool) (items : List β)
    (merge : Merge α κ) (h : ∀ item ∈ items, keep item = false → key (f item) ∈ merge.seen) :
    merge.offerAll key ((items.filter keep).map f) = merge.offerAll key (items.map f) := by
  induction items generalizing merge with
  | nil => rfl
  | cons item items ih =>
      have hrest : ∀ x ∈ items, keep x = false → key (f x) ∈ (merge.offer key (f item)).seen :=
        fun x hx hk => (mem_seen_offer _ _ _).mpr (.inl (h x (List.mem_cons_of_mem _ hx) hk))
      cases hk : keep item with
      | true =>
          rw [List.filter_cons_of_pos (by simpa using hk), List.map_cons, List.map_cons,
            offerAll_cons, offerAll_cons, ih _ hrest]
      | false =>
          have hsame : merge.offer key (f item) = merge := by
            simp [offer, h item (by simp) hk]
          rw [List.filter_cons_of_neg (by simp [hk]), List.map_cons, offerAll_cons, hsame]
          exact ih _ (hsame ▸ hrest)

theorem ite_offerAll_filter {β : Type*} (key : α → κ) (b : Prop) [Decidable b] (f : β → α) (keep : β → Bool)
    (items : List β) (merge : Merge α κ)
    (h : b → ∀ item ∈ items, keep item = false → key (f item) ∈ merge.seen) :
    (if b then merge.offerAll key ((items.filter keep).map f) else merge) =
      if b then merge.offerAll key (items.map f) else merge := by
  by_cases hb : b
  · simp only [hb, if_true]
    exact offerAll_filter f keep items merge (h hb)
  · simp only [hb, if_false]

end Merge

theorem mem_slice {items : List α} {k : Int} {item : α} (h : item ∈ slice items k) :
    item ∈ items := by
  unfold slice at h
  split at h
  · exact List.mem_of_mem_take h
  · exact List.mem_of_mem_take h

theorem slice_eq_nil {items : List α} {k : Int} (h : k = 0 ∨ k < 0 ∧ items.length ≤ k.natAbs) :
    slice items k = [] := by
  rcases h with rfl | ⟨hneg, hlen⟩
  · simp [slice]
  · simp [slice, not_le.mpr hneg, Nat.sub_eq_zero_of_le hlen]

theorem mem_byScore {score : α → ℚ} {items : List α} {item : α} :
    item ∈ byScore score items ↔ item ∈ items :=
  List.mem_mergeSort

-- An item above all that come before it and not below any later one is sorted to the front.
theorem byScore_cons {score : α → ℚ} {before after : List α} {item : α}
    (hnodup : (before ++ item :: after).Nodup)
    (hbefore : ∀ x ∈ before, score x < score item) (hafter : ∀ x ∈ after, score x ≤ score item) :
    ∃ rest, byScore score (before ++ item :: after) = item :: rest := by
  have hsorted : (byScore score (before ++ item :: after)).Pairwise fun a b => score b ≤ score a := by
    have h := @List.pairwise_mergeSort _ (fun a b => decide (score b ≤ score a))
      (by simpa using fun a b c h1 h2 => le_trans h2 h1) (by simpa using fun a b => le_total _ _)
      (before ++ item :: after)
    simpa [byScore] using h
  cases hs : byScore score (before ++ item :: after) with
  | nil =>
      have hm : item ∈ byScore score (before ++ item :: after) := mem_byScore.mpr (by simp)
      simp [hs] at hm
  | cons top rest =>
      refine ⟨rest, ?_⟩
      have htop : top ∈ before ++ item :: after := mem_byScore.mp (hs ▸ List.mem_cons_self)
      have hitem : item ∈ top :: rest := hs ▸ mem_byScore.mpr (by simp)
      rw [hs] at hsorted
      have hd : (top :: rest).Nodup := hs ▸ (List.mergeSort_perm _ _).nodup_iff.mpr hnodup
      rcases List.mem_cons.mp hitem with rfl | hin
      · rfl
      have hge : score item ≤ score top := List.rel_of_pairwise_cons hsorted hin
      rcases List.mem_append.mp htop with hb | ha
      · exact absurd (hbefore top hb) (not_lt.mpr hge)
      rcases List.mem_cons.mp ha with rfl | ha
      · rfl
      -- Both have one score, and the sort keeps `item` before `top`.
      have hsub : [item, top].Sublist (before ++ item :: after) :=
        (List.Sublist.cons_cons item (List.singleton_sublist.mpr ha)).trans
          (List.sublist_append_right _ _)
      have hstable : [item, top].Sublist (top :: rest) := by
        rw [← hs]
        exact List.pair_sublist_mergeSort (by simpa using fun a b c h1 h2 => le_trans h2 h1)
          (by simpa using fun a b => le_total _ _) (by simpa using hafter top ha) hsub
      have hpair : (top :: rest).Pairwise (· ≠ ·) := hd
      cases hstable with
      | cons _ h =>
          exact absurd (h.subset (by simp)) (List.nodup_cons.mp hd).1
      | cons_cons _ h => rfl

theorem mem_slice_of_head {items rest : List α} {item : α} {k : Int} (h : items = item :: rest)
    (hk : 0 < k ∨ k < 0 ∧ k.natAbs < items.length) : item ∈ slice items k := by
  have htake : ∀ n, 0 < n → item ∈ items.take n := by
    intro n hn
    obtain ⟨m, rfl⟩ := Nat.exists_eq_succ_of_ne_zero hn.ne'
    simp [h]
  rcases hk with hpos | ⟨hneg, hlen⟩
  · rw [slice, if_pos hpos.le]
    exact htake _ (by omega)
  · rw [slice, if_neg (not_le.mpr hneg)]
    exact htake _ (by omega)

end Ranking
