import EvoClaw.Keyed
import Mathlib.Algebra.Order.Ring.Int
import Mathlib.Algebra.Order.Ring.Nat
import Mathlib.Data.List.Count
import Mathlib.Data.List.Nodup

namespace Sqlite.FullText

variable {α ρ : Type*} [DecidableEq α]

-- An index with external content keeps no rows: only how many entries there are for each
-- tuple of values, which is negative after a 'delete' of values that are not there.
abbrev Index (α : Type*) := α → ℤ

def Index.empty : Index α := fun _ => 0

def Index.insert (index : Index α) (entry : α) : Index α :=
  fun other => if other = entry then index other + 1 else index other

-- INSERT INTO fts(fts, rowid, ..) VALUES('delete', ..)
def Index.delete (index : Index α) (entry : α) : Index α :=
  fun other => if other = entry then index other - 1 else index other

-- DELETE FROM fts WHERE rowid IN ids: the values are read from the content table.
def Index.deleteRowids (index : Index α) (rowid : ρ → Nat) (entry : ρ → α) (content : List ρ)
    (ids : List Nat) : Index α :=
  ids.foldl
    (fun index id =>
      match content.find? fun row => rowid row == id with
      | none => index
      | some row => index.delete (entry row))
    index

def Index.deleteAll (index : Index α) (entries : List α) : Index α :=
  entries.foldl Index.delete index

-- One entry for every row, and none for anything else.
def Mirrors (index : Index α) (entries : List α) : Prop :=
  (∀ entry ∈ entries, index entry = 1) ∧ ∀ entry, entry ∉ entries → index entry = 0

theorem Index.insert_apply (index : Index α) (entry other : α) :
    index.insert entry other = if other = entry then index other + 1 else index other := rfl

theorem Index.deleteAll_apply (index : Index α) (entries : List α) (entry : α) :
    index.deleteAll entries entry = index entry - entries.count entry := by
  induction entries generalizing index with
  | nil => simp [Index.deleteAll]
  | cons head rest ih =>
      have hrest : index.deleteAll (head :: rest) = (index.delete head).deleteAll rest := rfl
      rw [hrest, ih, List.count_cons]
      by_cases he : head = entry
      · subst he
        simp only [Index.delete, if_pos, beq_self_eq_true]
        push_cast
        omega
      · have hne : entry ≠ head := fun h => he h.symm
        simp [Index.delete, he, hne]

theorem mirrors_iff_count {index : Index α} {entries : List α} (hnodup : entries.Nodup) :
    Mirrors index entries ↔ ∀ entry, index entry = entries.count entry := by
  constructor
  · intro h entry
    by_cases hmem : entry ∈ entries
    · rw [h.1 entry hmem, List.count_eq_one_of_mem hnodup hmem]
      rfl
    · rw [h.2 entry hmem, List.count_eq_zero_of_not_mem hmem]
      rfl
  · intro h
    refine ⟨fun entry hmem => ?_, fun entry hmem => ?_⟩
    · rw [h, List.count_eq_one_of_mem hnodup hmem]
      rfl
    · rw [h, List.count_eq_zero_of_not_mem hmem]
      rfl

omit [DecidableEq α] in
theorem mirrors_empty : Mirrors (Index.empty : Index α) [] :=
  ⟨fun _ hmem => absurd hmem List.not_mem_nil, fun _ _ => rfl⟩

theorem Mirrors.insert {index : Index α} {entries : List α} (h : Mirrors index entries)
    {entry : α} (hfresh : entry ∉ entries) : Mirrors (index.insert entry) (entries ++ [entry]) := by
  refine ⟨fun other hmem => ?_, fun other hmem => ?_⟩
  · rw [Index.insert_apply]
    by_cases he : other = entry
    · subst he
      rw [if_pos rfl, h.2 other hfresh]
      rfl
    · rw [if_neg he]
      exact h.1 other ((List.mem_append.mp hmem).resolve_right fun hs => he (List.mem_singleton.mp hs))
  · rw [List.mem_append, not_or, List.mem_singleton] at hmem
    rw [Index.insert_apply, if_neg hmem.2, h.2 other hmem.1]

theorem count_map_filter (entry : ρ → α) (p : ρ → Bool) (rows : List ρ) (value : α) :
    (rows.map entry).count value =
      ((rows.filter p).map entry).count value + ((rows.filter (!p ·)).map entry).count value := by
  induction rows with
  | nil => rfl
  | cons row rest ih =>
      cases hp : p row with
      | true =>
          rw [List.filter_cons_of_pos hp, List.filter_cons_of_neg (by simp [hp])]
          simp only [List.map_cons, List.count_cons, ih]
          omega
      | false =>
          rw [List.filter_cons_of_neg (by simp [hp]), List.filter_cons_of_pos (by simp [hp])]
          simp only [List.map_cons, List.count_cons, ih]
          omega

theorem Mirrors.deleteAll {index : Index α} {entry : ρ → α} {rows : List ρ}
    (h : Mirrors index (rows.map entry)) (hnodup : (rows.map entry).Nodup) (p : ρ → Bool) :
    Mirrors (index.deleteAll ((rows.filter p).map entry)) ((rows.filter (!p ·)).map entry) := by
  have hkept : ((rows.filter (!p ·)).map entry).Nodup :=
    hnodup.sublist (List.filter_sublist.map entry)
  rw [mirrors_iff_count hkept]
  rw [mirrors_iff_count hnodup] at h
  intro value
  rw [Index.deleteAll_apply, h value, count_map_filter entry p rows value]
  push_cast
  omega

-- While the rows are there, their entries are the ones that go.
theorem Index.deleteRowids_eq {rowid : ρ → Nat} {entry : ρ → α} {content rows : List ρ}
    (hnodup : (content.map rowid).Nodup) (hsub : ∀ row ∈ rows, row ∈ content) (index : Index α) :
    index.deleteRowids rowid entry content (rows.map rowid) = index.deleteAll (rows.map entry) := by
  induction rows generalizing index with
  | nil => rfl
  | cons row rest ih =>
      have hrest := ih (fun other hmem => hsub other (List.mem_cons_of_mem row hmem))
        (index.delete (entry row))
      have hfind : content.find? (fun other => rowid other == rowid row) = some row :=
        Keyed.find?_of_mem hnodup (hsub row List.mem_cons_self)
      have hhead : index.deleteRowids rowid entry content ((row :: rest).map rowid) =
          (index.delete (entry row)).deleteRowids rowid entry content (rest.map rowid) := by
        simp only [Index.deleteRowids, List.map_cons, List.foldl_cons, hfind]
      rw [hhead, hrest]
      rfl

end Sqlite.FullText

namespace Sqlite

variable {ρ : Type*}

-- A table with an INTEGER PRIMARY KEY AUTOINCREMENT. `sequence` is its row of
-- sqlite_sequence: no id is given twice.
structure Table (ρ : Type*) where
  rows : List (Nat × ρ)
  sequence : Nat
  ids : (rows.map Prod.fst).Nodup
  bounded : ∀ row ∈ rows, row.1 ≤ sequence

def maxRowid : Nat := 2 ^ 63 - 1

namespace Table

def empty : Table ρ where
  rows := []
  sequence := 0
  ids := List.nodup_nil
  bounded := fun _ h => absurd h List.not_mem_nil

theorem fresh (table : Table ρ) : table.sequence + 1 ∉ table.rows.map Prod.fst := by
  intro hmem
  obtain ⟨row, hrow, he⟩ := List.mem_map.mp hmem
  have hle := table.bounded row hrow
  omega

-- SQLITE_FULL when the largest id is gone.
def insert (table : Table ρ) (values : ρ) : Option (Table ρ) :=
  if table.sequence < maxRowid then
    some {
      rows := table.rows ++ [(table.sequence + 1, values)]
      sequence := table.sequence + 1
      ids := by
        rw [List.map_append]
        exact List.nodup_append.mpr ⟨table.ids, List.nodup_singleton _, by
          intro id hid other hother
          rw [List.mem_singleton.mp hother]
          intro he
          rw [he] at hid
          exact table.fresh hid⟩
      bounded := by
        intro row hmem
        cases List.mem_append.mp hmem with
        | inl hold => exact Nat.le_succ_of_le (table.bounded row hold)
        | inr hnew =>
            cases List.mem_singleton.mp hnew
            exact Nat.le_refl _ }
  else none

-- The id of the row that was inserted last.
def lastInsertRowid (table : Table ρ) : Nat := table.sequence

def delete (table : Table ρ) (p : ρ → Bool) : Table ρ where
  rows := table.rows.filter fun row => !p row.2
  sequence := table.sequence
  ids := table.ids.sublist (List.filter_sublist.map _)
  bounded row hmem := table.bounded row (List.mem_of_mem_filter hmem)

def selected (table : Table ρ) (p : ρ → Bool) : List (Nat × ρ) :=
  table.rows.filter fun row => p row.2

-- UPDATE .. WHERE id = ?
def update (table : Table ρ) (id : Nat) (f : ρ → ρ) : Table ρ where
  rows := table.rows.map fun row => if row.1 = id then (row.1, f row.2) else row
  sequence := table.sequence
  ids := by
    have hids : ((table.rows.map fun row => if row.1 = id then (row.1, f row.2) else row).map
        Prod.fst) = table.rows.map Prod.fst := by
      rw [List.map_map]
      refine List.map_congr_left fun row _ => ?_
      by_cases h : row.1 = id <;> simp [h]
    rw [hids]
    exact table.ids
  bounded := by
    intro row hmem
    obtain ⟨old, hold, rfl⟩ := List.mem_map.mp hmem
    have hle := table.bounded old hold
    by_cases h : old.1 = id
    · rw [if_pos h]
      exact hle
    · rw [if_neg h]
      exact hle

theorem insert_eq_some {table next : Table ρ} {values : ρ} (h : table.insert values = some next) :
    next.rows = table.rows ++ [(table.sequence + 1, values)] ∧
      next.sequence = table.sequence + 1 := by
  unfold insert at h
  split at h
  · cases h
    exact ⟨rfl, rfl⟩
  · cases h

@[simp] theorem delete_rows (table : Table ρ) (p : ρ → Bool) :
    (table.delete p).rows = table.rows.filter fun row => !p row.2 := rfl

@[simp] theorem update_rows (table : Table ρ) (id : Nat) (f : ρ → ρ) :
    (table.update id f).rows =
      table.rows.map fun row => if row.1 = id then (row.1, f row.2) else row := rfl

theorem mem_selected {table : Table ρ} {p : ρ → Bool} {row : Nat × ρ} :
    row ∈ table.selected p ↔ row ∈ table.rows ∧ p row.2 = true := by
  simp [selected]

end Table

end Sqlite
