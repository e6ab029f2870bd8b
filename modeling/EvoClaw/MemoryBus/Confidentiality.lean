import EvoClaw.MemoryBus.Model
import Mathlib.Analysis.Complex.ExponentialBounds
import Mathlib.Data.List.Perm.Subperm
import Mathlib.Tactic.Linarith

namespace EvoClaw.MemoryBus

open Ranking

-- Who may read a memory of this scope and owner.
def Allowed (call : Call) (scope agentId : String) (inProject : Prop) : Prop :=
  scope = "shared" ∨ (scope = "private" ∧ agentId = call.agentId) ∨
    (scope = "project" ∧ (inProject ∨ agentId = call.agentId))

instance (call : Call) (scope agentId : String) (inProject : Prop) [Decidable inProject] :
    Decidable (Allowed call scope agentId inProject) :=
  inferInstanceAs (Decidable (_ ∨ _))

def SharedRow.Readable (call : Call) (row : SharedRow) : Prop :=
  Allowed call row.scope row.agentId (row.project = call.project)

def VecRow.Readable (call : Call) (row : VecRow) : Prop :=
  Allowed call row.scope row.agentId (row.project = call.project)

instance (call : Call) (row : SharedRow) : Decidable (row.Readable call) :=
  inferInstanceAs (Decidable (Allowed ..))

instance (call : Call) (row : VecRow) : Decidable (row.Readable call) :=
  inferInstanceAs (Decidable (Allowed ..))

-- A returned memory has no project of its own: its row has.
def Entitled (stores : Stores) (call : Call) (memory : Memory) : Prop :=
  match memory.source with
  | .shared => Allowed call memory.scope memory.agentId
      (∃ row ∈ stores.shared, row.id = memory.memoryId ∧ row.project = call.project)
  | .vector => Allowed call memory.scope memory.agentId
      (∃ row ∈ stores.vec, row.memoryId = memory.memoryId ∧ row.project = call.project)
  | .hot | .cold => True

-- The stores without the rows that the caller may not read.
def Stores.visible (stores : Stores) (call : Call) : Stores where
  shared := stores.shared.filter fun row => row.Readable call
  vec := stores.vec.filter fun row => row.Readable call
  vecAvailable := stores.vecAvailable
  shared_ids := (List.filter_sublist.map _).nodup stores.shared_ids
  vec_ids := (List.filter_sublist.map _).nodup stores.vec_ids

-- Only readable memories are returned, and the unreadable ones have no influence: the stores
-- without them can give the same result.
def Confidential (host : Host) (stores : Stores) (call : Call) : Prop :=
  ∀ answers : Answers stores call,
    (∀ memory ∈ «recall» host stores call answers, Entitled stores call memory) ∧
    ∃ alone : Answers (stores.visible call) call,
      «recall» host (stores.visible call) call alone = «recall» host stores call answers

def hotIds (host : Host) (call : Call) : List String :=
  (if "hot" ∈ call.includeSources then hotMemories host call else []).map Memory.memoryId

def coldIds (host : Host) (call : Call) : List String :=
  (if "cold" ∈ call.includeSources then
    (host.cold call.query call.agentId call.k).map ColdHit.id else [])

-- The ids that a call can draw from.
def supply (host : Host) (stores : Stores) (call : Call) : List String :=
  (hotIds host call ++
    (if searchesVector stores call then
      (stores.vec.filter (VecRow.accessible call)).map VecRow.memoryId else []) ++
    (if searchesPalace call then
      (stores.shared.filter (SharedRow.tagged call)).map SharedRow.id else []) ++
    (if "shared" ∈ call.includeSources then
      (stores.shared.filter (SharedRow.accessible call)).map SharedRow.id else []) ++
    coldIds host call).dedup

-- No row that the vector search may answer is kept from the caller, except under the id of the
-- hot memory, which is merged first.
def VectorSealed (host : Host) (stores : Stores) (call : Call) : Prop :=
  searchesVector stores call → ∀ row ∈ stores.vec, row.accessible call →
    row.Readable call ∨ row.memoryId ∈ hotIds host call

def PalaceSealed (host : Host) (stores : Stores) (call : Call) : Prop :=
  searchesPalace call → ∀ row ∈ stores.shared, row.tagged call →
    row.Readable call ∨ row.id ∈ hotIds host call

-- A negative k drops that many of the lowest results.
def Sealed (host : Host) (stores : Stores) (call : Call) : Prop :=
  call.k = 0 ∨ (call.k < 0 ∧ (supply host stores call).length ≤ call.k.natAbs) ∨
    (VectorSealed host stores call ∧ PalaceSealed host stores call)

variable {host : Host} {stores : Stores} {call : Call}

theorem SharedRow.readable_of_accessible {row : SharedRow} (h : row.accessible call) :
    row.Readable call := by
  simp only [SharedRow.accessible, decide_eq_true_eq] at h
  exact h.imp_right fun h => h.imp_right fun h => ⟨h.1, .inl h.2⟩

theorem Allowed.mono {scope agentId : String} {p q : Prop} (hpq : p → q)
    (h : Allowed call scope agentId p) : Allowed call scope agentId q :=
  h.imp_right fun h => h.imp_right fun h => ⟨h.1, h.2.imp_left hpq⟩

theorem hot_of_mem {memory : Memory} (h : memory ∈ hotMemories host call) :
    memory.source = .hot ∧ memory.score = 9 / 10 := by
  simp only [hotMemories] at h
  split at h
  · simp at h
  split at h
  · simp at h
  split at h
  · simp at h
  · rw [List.mem_singleton.mp h]
    exact ⟨rfl, rfl⟩

-- The items that recall merges, in their order.
def gathered (host : Host) (stores : Stores) (call : Call) (answers : Answers stores call) :
    List Memory :=
  (if "hot" ∈ call.includeSources then hotMemories host call else []) ++
    ((if searchesVector stores call then answers.vector.map vectorMemory else []) ++
    ((if searchesPalace call then answers.palace.map (palaceMemory host) else []) ++
    ((if "shared" ∈ call.includeSources then answers.shared.map (sharedMemory host) else []) ++
    (if "cold" ∈ call.includeSources then
      (host.cold call.query call.agentId call.k).map (coldMemory host call) else []))))

theorem recall_eq (answers : Answers stores call) :
    «recall» host stores call answers =
      slice (byScore Memory.score
        (Merge.empty.offerAll Memory.memoryId (gathered host stores call answers)).results)
        call.k := by
  simp only [«recall», gathered, Merge.ite_offerAll, Merge.offerAll_append]

theorem gathered_ids_sub (answers : Answers stores call) :
    ∀ id ∈ (gathered host stores call answers).map Memory.memoryId, id ∈ supply host stores call := by
  intro id hid
  simp only [supply, List.mem_dedup, List.mem_append, coldIds]
  obtain ⟨memory, hm, rfl⟩ := List.mem_map.mp hid
  simp only [gathered, List.mem_append] at hm
  rcases hm with hm | hm | hm | hm | hm
  · exact .inl (.inl (.inl (.inl (List.mem_map_of_mem hm))))
  · split at hm
    · rename_i hv
      obtain ⟨hit, hin, rfl⟩ := List.mem_map.mp hm
      have hw := answers.vector_where hit hin
      exact .inl (.inl (.inl (.inr (by
        simpa [hv] using ⟨hit.1, hw, rfl⟩))))
    · simp at hm
  · split at hm
    · rename_i hp
      obtain ⟨hit, hin, rfl⟩ := List.mem_map.mp hm
      have hw := answers.palace_where hit hin
      exact .inl (.inl (.inr (by
        simpa [hp] using ⟨hit.1, hw, rfl⟩)))
    · simp at hm
  · split at hm
    · rename_i hs
      obtain ⟨hit, hin, rfl⟩ := List.mem_map.mp hm
      have hw := answers.shared_where hit hin
      exact .inl (.inr (by
        simpa [hs] using ⟨hit.1, hw, rfl⟩))
    · simp at hm
  · split at hm
    · rename_i hc
      obtain ⟨hit, hin, rfl⟩ := List.mem_map.mp hm
      exact .inr (by simpa [hc] using ⟨hit, hin, rfl⟩)
    · simp at hm

theorem supply_visible_le :
    (supply host (stores.visible call) call).length ≤ (supply host stores call).length := by
  have hfilter : ∀ {α : Type} (b : Prop) [Decidable b] (keep test : α → Bool) (rows : List α)
      (f : α → String) (taken : String),
      taken ∈ (if b then ((rows.filter keep).filter test).map f else []) →
        taken ∈ if b then (rows.filter test).map f else [] := by
    intro α b _ keep test rows f taken h
    by_cases hb : b
    · rw [if_pos hb] at h ⊢
      obtain ⟨row, hrow, rfl⟩ := List.mem_map.mp h
      obtain ⟨hin, htest⟩ := List.mem_filter.mp hrow
      exact List.mem_map_of_mem (List.mem_filter.mpr ⟨(List.mem_filter.mp hin).1, htest⟩)
    · simp [hb] at h
  refine (List.Nodup.subperm (List.nodup_dedup _) fun taken h => List.mem_dedup.mpr ?_).length_le
  simp only [List.mem_dedup, List.mem_append] at h ⊢
  exact h.imp (Or.imp (Or.imp (Or.imp id (hfilter _ _ _ _ _ _)) (hfilter _ _ _ _ _ _))
    (hfilter _ _ _ _ _ _)) id

theorem recall_nil (answers : Answers stores call)
    (h : call.k = 0 ∨ call.k < 0 ∧ (supply host stores call).length ≤ call.k.natAbs) :
    «recall» host stores call answers = [] := by
  rw [recall_eq]
  refine slice_eq_nil (h.imp_right fun h => ⟨h.1, le_trans ?_ h.2⟩)
  rw [byScore, List.length_mergeSort, Merge.length_results]
  refine (List.Nodup.subperm (List.nodup_dedup _) fun id hid => ?_).length_le
  exact gathered_ids_sub answers id (List.mem_dedup.mp hid)

-- The same answers without the rows that the caller may not read.
def Answers.visible (answers : Answers stores call) : Answers (stores.visible call) call where
  vector := answers.vector.filter fun hit => hit.1.Readable call
  palace := answers.palace.filter fun hit => hit.1.Readable call
  shared := answers.shared.filter fun hit => hit.1.Readable call
  vector_where := by
    intro hit h
    obtain ⟨hin, hr⟩ := List.mem_filter.mp h
    exact ⟨List.mem_filter.mpr ⟨(answers.vector_where hit hin).1, hr⟩,
      (answers.vector_where hit hin).2⟩
  palace_where := by
    intro hit h
    obtain ⟨hin, hr⟩ := List.mem_filter.mp h
    exact ⟨List.mem_filter.mpr ⟨(answers.palace_where hit hin).1, hr⟩,
      (answers.palace_where hit hin).2⟩
  shared_where := by
    intro hit h
    obtain ⟨hin, hr⟩ := List.mem_filter.mp h
    exact ⟨List.mem_filter.mpr ⟨(answers.shared_where hit hin).1, hr⟩,
      (answers.shared_where hit hin).2⟩
  vector_limit := fun h => le_trans (List.length_filter_le _ _) (answers.vector_limit h)
  palace_limit := fun h => le_trans (List.length_filter_le _ _) (answers.palace_limit h)
  shared_limit := fun h => le_trans (List.length_filter_le _ _) (answers.shared_limit h)

theorem recall_visible (hv : VectorSealed host stores call) (hp : PalaceSealed host stores call)
    (answers : Answers stores call) :
    «recall» host (stores.visible call) call answers.visible = «recall» host stores call answers := by
  -- The ids of the hot memory are seen before the first search is merged.
  have hhot : ∀ id ∈ hotIds host call, id ∈ (if "hot" ∈ call.includeSources then
      Merge.empty.offerAll Memory.memoryId (hotMemories host call) else Merge.empty).seen := by
    intro id hid
    rw [Merge.ite_offerAll, Merge.mem_seen_offerAll]
    exact .inr hid
  have hvector := fun merge => Merge.ite_offerAll_filter Memory.memoryId
    (searchesVector stores call) vectorMemory (fun hit => decide (hit.1.Readable call)) answers.vector merge
  have hpalace := fun merge => Merge.ite_offerAll_filter Memory.memoryId
    (searchesPalace call) (palaceMemory host) (fun hit => decide (hit.1.Readable call)) answers.palace merge
  have hshared := fun merge => Merge.ite_offerAll_filter Memory.memoryId
    ("shared" ∈ call.includeSources) (sharedMemory host)
    (fun hit => decide (hit.1.Readable call)) answers.shared merge
  have havail : searchesVector (stores.visible call) call = searchesVector stores call := rfl
  simp only [«recall», Answers.visible, havail]
  rw [hvector, hpalace, hshared]
  · intro _ hit hin hno
    have hr := SharedRow.readable_of_accessible (answers.shared_where hit hin).2
    exact absurd hr (by simpa using hno)
  · intro hs hit hin hno
    have hw := answers.palace_where hit hin
    have hid := (hp hs hit.1 hw.1 hw.2).resolve_left (by simpa using hno)
    exact Merge.mem_seen_ite _ _ (hhot _ hid)
  · intro hs hit hin hno
    have hw := answers.vector_where hit hin
    exact hhot _ ((hv hs hit.1 hw.1 hw.2).resolve_left (by simpa using hno))

-- Every row of the visible stores is readable, so whatever is recalled from them is.
theorem entitled_of_visible (answers : Answers (stores.visible call) call) :
    ∀ memory ∈ «recall» host (stores.visible call) call answers, Entitled stores call memory := by
  intro memory hm
  rw [recall_eq] at hm
  have hg := Merge.mem_of_mem_results (mem_byScore.mp (mem_slice hm))
  simp only [gathered, List.mem_append] at hg
  rcases hg with hg | hg | hg | hg | hg
  · split at hg
    · simp only [Entitled, (hot_of_mem hg).1]
    · simp at hg
  · split at hg
    · obtain ⟨hit, hin, rfl⟩ := List.mem_map.mp hg
      obtain ⟨hrow, hr⟩ := List.mem_filter.mp (answers.vector_where hit hin).1
      exact (of_decide_eq_true hr).mono fun h => ⟨hit.1, hrow, rfl, h⟩
    · simp at hg
  · split at hg
    · obtain ⟨hit, hin, rfl⟩ := List.mem_map.mp hg
      obtain ⟨hrow, hr⟩ := List.mem_filter.mp (answers.palace_where hit hin).1
      exact (of_decide_eq_true hr).mono fun h => ⟨hit.1, hrow, rfl, h⟩
    · simp at hg
  · split at hg
    · obtain ⟨hit, hin, rfl⟩ := List.mem_map.mp hg
      obtain ⟨hrow, hr⟩ := List.mem_filter.mp (answers.shared_where hit hin).1
      exact (of_decide_eq_true hr).mono fun h => ⟨hit.1, hrow, rfl, h⟩
    · simp at hg
  · split at hg
    · obtain ⟨hit, hin, rfl⟩ := List.mem_map.mp hg
      trivial
    · simp at hg

theorem clamp_le (score : ℚ) : clamp score ≤ 1 := min_le_left _ _

theorem score_le_of_gathered {answers : Answers stores call} {memory : Memory}
    (h : memory ∈ gathered host stores call answers) : memory.score ≤ 1 := by
  simp only [gathered, List.mem_append] at h
  rcases h with h | h | h | h | h <;> split at h
  · rw [(hot_of_mem h).2]
    norm_num
  all_goals first
    | (obtain ⟨hit, -, rfl⟩ := List.mem_map.mp h
       exact clamp_le _)
    | simp at h

-- An item that is scored above all earlier ones is returned, whatever k leaves of the rest.
theorem mem_recall {answers : Answers stores call} {before after : List Memory} {memory : Memory}
    (heq : gathered host stores call answers = before ++ memory :: after)
    (hnew : memory.memoryId ∉ before.map Memory.memoryId) (hscore : memory.score = 1)
    (hbefore : ∀ other ∈ before, other.score < 1)
    (hk : 0 < call.k ∨ call.k < 0 ∧
      call.k.natAbs < ((gathered host stores call answers).map Memory.memoryId).dedup.length) :
    memory ∈ «recall» host stores call answers := by
  have hle : ∀ other ∈ before ++ memory :: after, other.score ≤ 1 :=
    fun other h => score_le_of_gathered (heq ▸ h)
  rw [recall_eq]
  rw [← Merge.length_results] at hk
  have hd : (Merge.empty.offerAll Memory.memoryId (gathered host stores call answers)).Distinct
      Memory.memoryId := Merge.Distinct.empty.offerAll _
  have hnodup := List.Nodup.of_map _ hd.nodup
  obtain ⟨first, hfirst, hfrom⟩ : ∃ kept, (Merge.empty.offerAll Memory.memoryId before).results =
      [] ++ kept ∧ ∀ x ∈ kept, x ∈ before ∧ Memory.memoryId x ∉ _ :=
    Merge.results_offerAll before Merge.empty
  obtain ⟨last, hlast, hlater⟩ := Merge.results_offerAll after
    ((Merge.empty.offerAll Memory.memoryId before).offer Memory.memoryId memory)
  have hfree : memory.memoryId ∉ (Merge.empty.offerAll Memory.memoryId before).seen := by
    rw [Merge.mem_seen_offerAll]
    simpa [Merge.empty] using hnew
  have hresults : (Merge.empty.offerAll Memory.memoryId (gathered host stores call answers)).results =
      first ++ memory :: last := by
    rw [heq, Merge.offerAll_append, Merge.offerAll_cons, hlast]
    simp [Merge.offer, hfree, hfirst]
  rw [hresults] at hk hnodup ⊢
  obtain ⟨rest, hrest⟩ : ∃ rest, byScore Memory.score _ = memory :: rest := byScore_cons hnodup
    (fun x hx => hscore ▸ hbefore x (hfrom x hx).1)
    (fun x hx => hscore ▸ hle x (by simp [(hlater x hx).1]))
  have hlen : (byScore Memory.score (first ++ memory :: last)).length = (first ++ memory :: last).length :=
    List.length_mergeSort _
  exact mem_slice_of_head hrest (hlen ▸ hk)

section Leak

-- With no limit a search may answer every other row as well.
def everyVec (stores : Stores) (call : Call) (skip : String) : List (VecRow × ℚ) :=
  if call.k < 0 then
    (stores.vec.filter fun row => row.accessible call ∧ row.memoryId ≠ skip).map (·, 1)
  else []

def everyShared (stores : Stores) (call : Call) (test : SharedRow → Bool) : List (SharedRow × ℚ) :=
  if call.k < 0 then (stores.shared.filter test).map (·, 0) else []

theorem everyVec_where (skip : String) :
    ∀ hit ∈ everyVec stores call skip, hit.1 ∈ stores.vec ∧ hit.1.accessible call := by
  intro hit h
  unfold everyVec at h
  split at h
  · obtain ⟨row, hrow, rfl⟩ := List.mem_map.mp h
    obtain ⟨hin, htest⟩ := List.mem_filter.mp hrow
    exact ⟨hin, (of_decide_eq_true htest).1⟩
  · simp at h

theorem everyShared_where (test : SharedRow → Bool) :
    ∀ hit ∈ everyShared stores call test, hit.1 ∈ stores.shared ∧ test hit.1 := by
  intro hit h
  unfold everyShared at h
  split at h
  · obtain ⟨row, hrow, rfl⟩ := List.mem_map.mp h
    exact List.mem_filter.mp hrow
  · simp at h

theorem limit_every {α : Type*} {items rest : List α} (hk : call.k ≠ 0)
    (hrest : 0 ≤ call.k → rest = []) (hitems : items.length ≤ 1) :
    Limit call.k (items ++ rest).length := by
  intro hpos
  rw [hrest hpos, List.append_nil]
  omega

def vectorLeak (row : VecRow) (hin : row ∈ stores.vec) (hacc : row.accessible call)
    (hk : call.k ≠ 0) : Answers stores call where
  vector := [(row, 0)] ++ everyVec stores call row.memoryId
  palace := [] ++ everyShared stores call (SharedRow.tagged call)
  shared := [] ++ everyShared stores call (SharedRow.accessible call)
  vector_where := by
    intro hit h
    rcases List.mem_append.mp h with h | h
    · rw [List.mem_singleton.mp h]
      exact ⟨hin, hacc⟩
    · exact everyVec_where _ hit h
  palace_where := everyShared_where _
  shared_where := everyShared_where _
  vector_limit := limit_every hk (fun h => by simp [everyVec, not_lt.mpr h]) (by simp)
  palace_limit := limit_every hk (fun h => by simp [everyShared, not_lt.mpr h]) (by simp)
  shared_limit := limit_every hk (fun h => by simp [everyShared, not_lt.mpr h]) (by simp)

def palaceLeak (row : SharedRow) (rank : ℚ) (hin : row ∈ stores.shared) (htag : row.tagged call)
    (hk : call.k ≠ 0) : Answers stores call where
  vector := [] ++ everyVec stores call row.id
  palace := [(row, rank)] ++ everyShared stores call (SharedRow.tagged call)
  shared := [] ++ everyShared stores call (SharedRow.accessible call)
  vector_where := everyVec_where _
  palace_where := by
    intro hit h
    rcases List.mem_append.mp h with h | h
    · rw [List.mem_singleton.mp h]
      exact ⟨hin, htag⟩
    · exact everyShared_where _ hit h
  shared_where := everyShared_where _
  vector_limit := limit_every hk (fun h => by simp [everyVec, not_lt.mpr h]) (by simp)
  palace_limit := limit_every hk (fun h => by simp [everyShared, not_lt.mpr h]) (by simp)
  shared_limit := limit_every hk (fun h => by simp [everyShared, not_lt.mpr h]) (by simp)

-- The answers name every id of the supply, so that many results are merged.
theorem supply_le {answers : Answers stores call}
    (hvec : searchesVector stores call → ∀ row ∈ stores.vec, row.accessible call →
      row.memoryId ∈ (gathered host stores call answers).map Memory.memoryId)
    (htagged : ∀ row ∈ stores.shared, row.tagged call → ∃ rank, (row, rank) ∈ answers.palace)
    (hshared : ∀ row ∈ stores.shared, row.accessible call → ∃ rank, (row, rank) ∈ answers.shared) :
    (supply host stores call).length ≤
      ((gathered host stores call answers).map Memory.memoryId).dedup.length := by
  refine (List.Nodup.subperm (List.nodup_dedup _) fun id hid => List.mem_dedup.mpr ?_).length_le
  simp only [List.mem_dedup, List.mem_append] at hid
  simp only [gathered, List.map_append, List.mem_append]
  rcases hid with (((hid | hid) | hid) | hid) | hid
  · exact .inl hid
  · split at hid
    · rename_i hv
      obtain ⟨row, hrow, rfl⟩ := List.mem_map.mp hid
      obtain ⟨hin, hacc⟩ := List.mem_filter.mp hrow
      simpa only [gathered, List.map_append, List.mem_append] using hvec hv row hin hacc
    · simp at hid
  · split at hid
    · rename_i hp
      obtain ⟨row, hrow, rfl⟩ := List.mem_map.mp hid
      obtain ⟨rank, hr⟩ := htagged row (List.mem_filter.mp hrow).1 (List.mem_filter.mp hrow).2
      refine .inr (.inr (.inl ?_))
      rw [if_pos hp, List.map_map]
      exact List.mem_map.mpr ⟨_, hr, rfl⟩
    · simp at hid
  · split at hid
    · rename_i hs
      obtain ⟨row, hrow, rfl⟩ := List.mem_map.mp hid
      obtain ⟨rank, hr⟩ := hshared row (List.mem_filter.mp hrow).1 (List.mem_filter.mp hrow).2
      refine .inr (.inr (.inr (.inl ?_)))
      rw [if_pos hs, List.map_map]
      exact List.mem_map.mpr ⟨_, hr, rfl⟩
    · simp at hid
  · unfold coldIds at hid
    split at hid
    · rename_i hc
      obtain ⟨hit, hin, rfl⟩ := List.mem_map.mp hid
      refine .inr (.inr (.inr (.inr ?_)))
      rw [if_pos hc, List.map_map]
      exact List.mem_map.mpr ⟨_, hin, rfl⟩
    · simp at hid

theorem mem_everyShared {test : SharedRow → Bool} (hk : call.k < 0) {row : SharedRow}
    (hin : row ∈ stores.shared) (h : test row) : (row, 0) ∈ everyShared stores call test := by
  rw [everyShared, if_pos hk]
  exact List.mem_map_of_mem (List.mem_filter.mpr ⟨hin, h⟩)

theorem mem_everyVec {skip : String} (hk : call.k < 0) {row : VecRow} (hin : row ∈ stores.vec)
    (h : row.accessible call) (hne : row.memoryId ≠ skip) :
    (row, 1) ∈ everyVec stores call skip := by
  rw [everyVec, if_pos hk]
  exact List.mem_map_of_mem (List.mem_filter.mpr ⟨hin, by simpa using ⟨h, hne⟩⟩)

theorem hot_before {memory : Memory}
    (h : memory ∈ if "hot" ∈ call.includeSources then hotMemories host call else []) :
    memory.score < 1 := by
  split at h
  · rw [(hot_of_mem h).2]
    norm_num
  · simp at h

variable (hk : 0 < call.k ∨ call.k < 0 ∧ call.k.natAbs < (supply host stores call).length)

include hk in
theorem not_confidential_of_vector (hs : searchesVector stores call) {row : VecRow}
    (hin : row ∈ stores.vec) (hacc : row.accessible call) (hno : ¬ row.Readable call)
    (hnew : row.memoryId ∉ hotIds host call) : ¬ Confidential host stores call := by
  intro hconf
  have hk0 : call.k ≠ 0 := by omega
  obtain ⟨after, heq⟩ : ∃ after, gathered host stores call (vectorLeak row hin hacc hk0) =
      (if "hot" ∈ call.includeSources then hotMemories host call else []) ++
        vectorMemory (row, 0) :: after := by
    simp only [gathered, hs, if_true, vectorLeak, List.map_cons,
      List.cons_append]
    exact ⟨_, rfl⟩
  have hm := (hconf (vectorLeak row hin hacc hk0)).1 _ <|
    mem_recall heq hnew (by norm_num [vectorMemory, clamp]) (fun _ => hot_before) <| hk.imp_right fun hneg =>
      ⟨hneg.1, lt_of_lt_of_le hneg.2 <| supply_le
        (fun _ other ho ha => by
          by_cases he : other.memoryId = row.memoryId
          · rw [heq, he]
            simp [vectorMemory]
          · have hv := mem_everyVec hneg.1 ho ha he
            simp only [gathered, hs, if_true, List.map_append, List.mem_append]
            exact .inr (.inl (List.mem_map.mpr ⟨_, List.mem_map_of_mem
              (List.mem_append.mpr (.inr hv)), rfl⟩)))
        (fun other ho ht => ⟨0, mem_everyShared hneg.1 ho ht⟩)
        (fun other ho ha => ⟨0, mem_everyShared hneg.1 ho ha⟩)⟩
  refine hno (Allowed.mono ?_ hm)
  rintro ⟨other, ho, hid, hproject⟩
  rwa [List.inj_on_of_nodup_map stores.vec_ids ho hin hid] at hproject

-- exp of a very negative number underflows to 0.
include hk in
theorem not_confidential_of_palace (hexp : ∃ x < 0, host.exp x = 0) (hs : searchesPalace call)
    {row : SharedRow} (hin : row ∈ stores.shared) (htag : row.tagged call)
    (hno : ¬ row.Readable call) (hnew : row.id ∉ hotIds host call) :
    ¬ Confidential host stores call := by
  intro hconf
  obtain ⟨x, hx, hexp⟩ := hexp
  have hk0 : call.k ≠ 0 := by omega
  have hscore : (palaceMemory host (row, 5 * x)).score = 1 := by
    have hrank : 5 * x ≠ 0 := by linarith
    have hfive : 5 * x / 5 = x := by ring
    simp only [palaceMemory, sharedMemory, ftsScore, hrank, if_false, hfive, hexp]
    norm_num [clamp]
  obtain ⟨after, heq⟩ : ∃ after, gathered host stores call (palaceLeak row (5 * x) hin htag hk0) =
      ((if "hot" ∈ call.includeSources then hotMemories host call else []) ++
        (if searchesVector stores call then (everyVec stores call row.id).map vectorMemory else [])) ++
        palaceMemory host (row, 5 * x) :: after := by
    simp only [gathered, hs, if_true, palaceLeak, List.map_cons,
      List.cons_append, List.nil_append, List.append_assoc]
    exact ⟨_, rfl⟩
  have hm := (hconf (palaceLeak row (5 * x) hin htag hk0)).1 _ <| mem_recall heq
    (by
      rw [List.map_append, List.mem_append]
      rintro (h | h)
      · exact hnew h
      · split at h
        · obtain ⟨memory, hm, hid⟩ := List.mem_map.mp h
          obtain ⟨hit, hh, rfl⟩ := List.mem_map.mp hm
          unfold everyVec at hh
          split at hh
          · obtain ⟨other, ho, rfl⟩ := List.mem_map.mp hh
            exact (of_decide_eq_true (List.mem_filter.mp ho).2).2 hid
          · simp at hh
        · simp at h)
    hscore
    (fun memory h => by
      rcases List.mem_append.mp h with h | h
      · exact hot_before h
      · split at h
        · obtain ⟨hit, hh, rfl⟩ := List.mem_map.mp h
          unfold everyVec at hh
          split at hh
          · obtain ⟨other, ho, rfl⟩ := List.mem_map.mp hh
            norm_num [vectorMemory, clamp]
          · simp at hh
        · simp at h) <| hk.imp_right fun hneg =>
      ⟨hneg.1, lt_of_lt_of_le hneg.2 <| supply_le
        (fun hv other ho ha => by
          by_cases he : other.memoryId = row.id
          · rw [heq, he]
            simp [palaceMemory, sharedMemory]
          · have hin := mem_everyVec hneg.1 ho ha he
            simp only [gathered, hv, if_true, List.map_append, List.mem_append]
            exact .inr (.inl (List.mem_map.mpr ⟨_, List.mem_map_of_mem hin, rfl⟩)))
        (fun other ho ht => ⟨0, List.mem_append.mpr (.inr (mem_everyShared hneg.1 ho ht))⟩)
        (fun other ho ha => ⟨0, mem_everyShared hneg.1 ho ha⟩)⟩
  refine hno (Allowed.mono ?_ hm)
  rintro ⟨other, ho, hid, hproject⟩
  rwa [List.inj_on_of_nodup_map stores.shared_ids ho hin hid] at hproject

end Leak

-- Recall keeps the memories of others apart exactly when no row that the vector search or the
-- hierarchical search may answer is kept from the caller.
theorem confidential_iff_sealed (hexp : ∃ x < 0, host.exp x = 0) :
    Confidential host stores call ↔ Sealed host stores call := by
  constructor
  · intro hconf
    by_contra hsealed
    simp only [Sealed, not_or, not_and, not_le] at hsealed
    obtain ⟨hzero, hneg, hopen⟩ := hsealed
    have hk : 0 < call.k ∨ call.k < 0 ∧ call.k.natAbs < (supply host stores call).length := by
      rcases lt_trichotomy call.k 0 with h | h | h
      · exact .inr ⟨h, hneg h⟩
      · exact absurd h hzero
      · exact .inl h
    by_cases hv : VectorSealed host stores call
    · have hp := hopen hv
      simp only [PalaceSealed, not_forall, not_or] at hp
      obtain ⟨hs, row, hin, htag, hno, hnew⟩ := hp
      exact not_confidential_of_palace hk hexp hs hin htag hno hnew hconf
    · simp only [VectorSealed, not_forall, not_or] at hv
      obtain ⟨hs, row, hin, hacc, hno, hnew⟩ := hv
      exact not_confidential_of_vector hk hs hin hacc hno hnew hconf
  · rintro (hzero | hneg | ⟨hv, hp⟩) answers
    · exact ⟨by simp [recall_nil answers (.inl hzero)], answers.visible, by
        rw [recall_nil answers (.inl hzero), recall_nil _ (.inl hzero)]⟩
    · have hnil := recall_nil answers (.inr hneg)
      exact ⟨by simp [hnil], answers.visible, by
        rw [hnil, recall_nil _ (.inr ⟨hneg.1, supply_visible_le.trans hneg.2⟩)]⟩
    · refine ⟨fun memory hm => ?_, answers.visible, recall_visible hv hp answers⟩
      rw [← recall_visible hv hp answers] at hm
      exact entitled_of_visible answers.visible memory hm

-- math.exp to the precision of the smallest double.
noncomputable def doubleExp (x : ℚ) : ℚ := ⌊Real.exp x * 2 ^ 1074⌋ / 2 ^ 1074

theorem doubleExp_underflow : doubleExp (-1074) = 0 := by
  have hpow : Real.exp 1074 = Real.exp 1 ^ 1074 := by
    rw [← Real.exp_nat_mul]
    norm_num
  have hlt : (2 : ℝ) ^ 1074 < Real.exp 1074 := by
    rw [hpow]
    exact pow_lt_pow_left₀ (lt_trans (by norm_num) Real.exp_one_gt_d9) (by norm_num) (by norm_num)
  have hfloor : ⌊Real.exp ((-1074 : ℚ) : ℝ) * 2 ^ 1074⌋ = 0 := by
    rw [Int.floor_eq_zero_iff]
    push_cast
    rw [Real.exp_neg]
    refine ⟨by positivity, ?_⟩
    rw [inv_mul_lt_iff₀ (Real.exp_pos _), mul_one]
    exact hlt
  rw [doubleExp, hfloor]
  norm_num

-- An agent without files, and the diary of another one.
noncomputable def emptyHost : Host where
  exp := doubleExp
  now := 0
  memoryFile := fun _ => none
  cold := fun _ _ _ => []

def diary : Stores where
  shared := [{ id := "5f1d", agentId := "bob", project := "", scope := "private",
               content := "the database password", ns := "technical", topicTag := "facts",
               createdAt := 0 }]
  vec := []
  vecAvailable := false
  shared_ids := by simp
  vec_ids := by simp

theorem diary_kept_without_filter :
    Confidential emptyHost diary { query := "password", agentId := "alice" } :=
  (confidential_iff_sealed ⟨-1074, by norm_num, doubleExp_underflow⟩).mpr
    (.inr (.inr ⟨fun h => absurd h (by decide), fun h => absurd h (by decide)⟩))

theorem diary_leaks_with_filter :
    ¬ Confidential emptyHost diary { query := "password", agentId := "alice", ns := "technical" } :=
  not_confidential_of_palace (.inl (by decide)) ⟨-1074, by norm_num, doubleExp_underflow⟩
    (by decide) (List.mem_singleton_self _) (by decide) (by decide) (by decide)

end EvoClaw.MemoryBus
