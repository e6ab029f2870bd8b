import Mathlib.Algebra.Order.Group.Unbundled.Basic
import Mathlib.Algebra.Order.Group.Defs
import Mathlib.Data.Finset.Card
import Mathlib.Data.List.Basic

-- A bounded table of keys in the order of their last use. An entry keeps the time of its
-- insertion, and counts as long as that is not longer ago than a time to live.
namespace RecencyTable

variable {μ κ T : Type*} [DecidableEq κ] [AddCommGroup T] [LinearOrder T]
  [IsOrderedAddMonoid T] {limit : Nat} {ttl now start : T} {table : List (κ × T)} {k key : κ}

-- The table without the entry of a key.
def others (table : List (κ × T)) (key : κ) : List (κ × T) :=
  table.filter fun entry => entry.1 ≠ key

-- The entry that was used least recently makes room.
def cut (limit : Nat) (table : List (κ × T)) : List (κ × T) :=
  if limit < table.length then table.tail else table

def insert (limit : Nat) (table : List (κ × T)) (key : κ) (now : T) : List (κ × T) :=
  cut limit (others table key ++ [(key, now)])

-- Whether the key is in the table and not too old, and the table afterwards.
def present (limit : Nat) (ttl now : T) (table : List (κ × T)) (key : κ) :
    Bool × List (κ × T) :=
  match table.lookup key with
  | some since =>
      if now - since < ttl then (true, others table key ++ [(key, since)])
      else (false, insert limit table key now)
  | none => (false, insert limit table key now)

structure Answer (μ T : Type*) where
  subject : μ
  time : T
  found : Bool
deriving DecidableEq

def answers (limit : Nat) (ttl : T) (key : μ → κ) :
    List (κ × T) → List (μ × T) → List (Answer μ T)
  | _, [] => []
  | table, (subject, now) :: rest =>
      let (found, table) := present limit ttl now table (key subject)
      ⟨subject, now, found⟩ :: answers limit ttl key table rest

omit [IsOrderedAddMonoid T] in
theorem answers_cons (key : μ → κ) (subject : μ) (rest : List (μ × T)) :
    answers limit ttl key table ((subject, now) :: rest) =
      ⟨subject, now, (present limit ttl now table (key subject)).1⟩ ::
        answers limit ttl key (present limit ttl now table (key subject)).2 rest := rfl

omit [AddCommGroup T] [LinearOrder T] [IsOrderedAddMonoid T] in
theorem mem_of_lookup (h : table.lookup k = some start) : (k, start) ∈ table := by
  induction table with
  | nil => cases h
  | cons entry table ih =>
      obtain ⟨other, since⟩ := entry
      rw [List.lookup_cons] at h
      split at h
      · next heq =>
          cases h
          rw [beq_iff_eq.mp heq]
          exact List.mem_cons_self
      · exact List.mem_cons_of_mem _ (ih h)

omit [DecidableEq κ] [AddCommGroup T] [LinearOrder T] [IsOrderedAddMonoid T] in
theorem mem_of_mem_cut {entry : κ × T} (h : entry ∈ cut limit table) : entry ∈ table := by
  unfold cut at h
  split at h
  · exact List.mem_of_mem_tail h
  · exact h

omit [IsOrderedAddMonoid T] in
-- An entry is an old one, or the one of the key itself.
theorem mem_present {entry : κ × T} (h : entry ∈ (present limit ttl now table key).2) :
    entry ∈ table ∨ (present limit ttl now table key).1 = false ∧ entry = (key, now) := by
  have hinsert : entry ∈ insert limit table key now → entry ∈ table ∨ entry = (key, now) := by
    intro hmem
    rcases List.mem_append.mp (mem_of_mem_cut hmem) with hold | hnew
    · exact Or.inl (List.mem_of_mem_filter hold)
    · exact Or.inr (List.mem_singleton.mp hnew)
  unfold present at h ⊢
  split at h
  · next since hlookup =>
      split at h
      · rcases List.mem_append.mp h with hold | hnew
        · exact Or.inl (List.mem_of_mem_filter hold)
        · rw [List.mem_singleton.mp hnew]
          exact Or.inl (mem_of_lookup hlookup)
      · next hold => exact (hinsert h).imp_right fun heq => ⟨by rw [if_neg hold], heq⟩
  · exact (hinsert h).imp_right fun heq => ⟨rfl, heq⟩

omit [IsOrderedAddMonoid T] in
theorem insert_of_present (h : (present limit ttl now table key).1 = false) :
    (present limit ttl now table key).2 = insert limit table key now := by
  unfold present at h ⊢
  split
  · split
    · next hlookup hfresh => simp [hlookup, hfresh] at h
    · rfl
  · rfl

section Soundness

variable {key : μ → κ} {answered : List (Answer μ T)} {calls : List (μ × T)}

-- Every entry was inserted by a call that did not find its key.
def Inserted (key : μ → κ) (answered : List (Answer μ T)) (table : List (κ × T)) : Prop :=
  ∀ entry ∈ table, ∃ answer ∈ answered,
    key answer.subject = entry.1 ∧ answer.time = entry.2 ∧ answer.found = false

omit [IsOrderedAddMonoid T] in
theorem Inserted.present (h : Inserted key answered table) (subject : μ) :
    Inserted key
      (answered ++ [⟨subject, now, (present limit ttl now table (key subject)).1⟩])
      (RecencyTable.present limit ttl now table (key subject)).2 := by
  intro entry hentry
  rcases mem_present hentry with hold | ⟨hfound, rfl⟩
  · obtain ⟨answer, hanswer, hspec⟩ := h entry hold
    exact ⟨answer, List.mem_append_left _ hanswer, hspec⟩
  · exact ⟨_, List.mem_append_right _ (List.mem_singleton_self _), rfl, rfl, hfound⟩

omit [IsOrderedAddMonoid T] in
theorem map_answers (calls : List (μ × T)) :
    (answers limit ttl key table calls).map (fun answer => (answer.subject, answer.time)) =
      calls := by
  induction calls generalizing table with
  | nil => rfl
  | cons call rest ih => exact congrArg (call :: ·) ih

omit [IsOrderedAddMonoid T] in
theorem mem_calls {before after : List (Answer μ T)} {answer : Answer μ T}
    (hsplit : answers limit ttl key table calls = before ++ answer :: after) :
    (answer.subject, answer.time) ∈ calls := by
  rw [← @map_answers μ κ T _ _ _ limit ttl table key calls, hsplit]
  exact List.mem_map_of_mem (List.mem_append_right _ List.mem_cons_self)

omit [IsOrderedAddMonoid T] in
theorem exists_of_present {k : κ} (h : (present limit ttl now table k).1 = true) :
    ∃ since, (k, since) ∈ table ∧ now - since < ttl := by
  unfold present at h
  split at h
  · next since hlookup =>
      split at h
      · next hfresh => exact ⟨since, mem_of_lookup hlookup, hfresh⟩
      · cases h
  · cases h

omit [IsOrderedAddMonoid T] in
-- A key is found only behind a call that inserted it and is not too long ago.
theorem Inserted.sound (h : Inserted key answered table) {before after : List (Answer μ T)}
    {answer : Answer μ T}
    (hsplit : answers limit ttl key table calls = before ++ answer :: after)
    (hfound : answer.found = true) :
    ∃ earlier ∈ answered ++ before, key earlier.subject = key answer.subject ∧
      earlier.found = false ∧ answer.time - earlier.time < ttl := by
  induction calls generalizing table answered before with
  | nil => simp [answers] at hsplit
  | cons call rest ih =>
      obtain ⟨subject, now⟩ := call
      rw [answers_cons] at hsplit
      cases before with
      | nil =>
          obtain ⟨rfl, -⟩ := List.cons.inj hsplit
          obtain ⟨since, hmem, hfresh⟩ := exists_of_present hfound
          obtain ⟨earlier, hearlier, hkey, htime, hmissed⟩ := h _ hmem
          rw [List.append_nil]
          refine ⟨earlier, hearlier, hkey, hmissed, ?_⟩
          rw [htime]
          exact hfresh
      | cons first before =>
          obtain ⟨rfl, hrest⟩ := List.cons.inj hsplit
          have hlater := ih (h.present subject) hrest
          rwa [List.append_assoc] at hlater

end Soundness

section Completeness

variable {used : List κ} {other : κ}

-- The entry of `k`, and behind it only entries of other keys that have been used since.
def Holds (k : κ) (start : T) (used : List κ) (table : List (κ × T)) : Prop :=
  ∃ front back, table = front ++ (k, start) :: back ∧ k ∉ front.map Prod.fst ∧
    k ∉ back.map Prod.fst ∧ (back.map Prod.fst).Nodup ∧ ∀ key ∈ back.map Prod.fst, key ∈ used

section Entries

omit [AddCommGroup T] [LinearOrder T] [IsOrderedAddMonoid T]

theorem Holds.lookup (h : Holds k start used table) : table.lookup k = some start := by
  obtain ⟨front, back, rfl, hfront, -⟩ := h
  rw [List.lookup_append, List.lookup_eq_none_iff.mpr, Option.none_or, List.lookup_cons_self]
  intro entry hentry
  rw [bne_iff_ne]
  rintro rfl
  exact hfront (List.mem_map_of_mem hentry)

theorem map_others (table : List (κ × T)) (key : κ) :
    (others table key).map Prod.fst = (table.map Prod.fst).filter (· ≠ key) := by
  rw [others, List.filter_map]
  rfl

theorem others_eq_self (h : key ∉ table.map Prod.fst) : others table key = table := by
  rw [others, List.filter_eq_self]
  intro entry hentry
  rw [decide_eq_true_eq]
  rintro rfl
  exact h (List.mem_map_of_mem hentry)

-- To use the key again puts its entry to the end.
theorem Holds.refresh (h : Holds k start used table) (more : List κ) :
    Holds k start more (others table k ++ [(k, start)]) := by
  obtain ⟨front, back, rfl, -⟩ := h
  refine ⟨others (front ++ (k, start) :: back) k, [], rfl, ?_, by simp, by simp, by simp⟩
  rw [map_others]
  simp

-- Another key goes behind it.
theorem Holds.use (h : Holds k start used table) (hne : other ≠ k) (since : T) :
    Holds k start (used ++ [other]) (others table other ++ [(other, since)]) := by
  obtain ⟨front, back, rfl, hfront, hback, hnodup, hused⟩ := h
  refine ⟨others front other, others back other ++ [(other, since)], ?_, ?_, ?_, ?_, ?_⟩
  · unfold others
    rw [List.filter_append, List.filter_cons_of_pos (by simpa using Ne.symm hne),
      List.append_assoc]
    rfl
  · rw [map_others, List.mem_filter]
    exact fun hmem => hfront hmem.1
  · rw [List.map_append, map_others, List.mem_append, List.mem_filter]
    rintro (hmem | hmem)
    · exact hback hmem.1
    · exact hne (List.mem_singleton.mp hmem).symm
  · rw [List.map_append, map_others]
    refine (hnodup.filter _).append (List.nodup_singleton other) ?_
    simp
  · rw [List.map_append, map_others]
    intro key hkey
    rcases List.mem_append.mp hkey with hold | hnew
    · exact List.mem_append_left _ (hused key (List.mem_filter.mp hold).1)
    · exact List.mem_append_right _ hnew

-- The entry is cut only when as many other keys have been used since.
theorem Holds.cut (h : Holds k start used table) (hroom : (used.toFinset.erase k).card < limit) :
    Holds k start used (cut limit table) := by
  obtain ⟨front, back, rfl, hfront, hback, hnodup, hused⟩ := h
  unfold RecencyTable.cut
  split
  · next hfull =>
      cases front with
      | nil =>
          have hsubset : (back.map Prod.fst).toFinset ⊆ used.toFinset.erase k := by
            intro key hkey
            rw [List.mem_toFinset] at hkey
            rw [Finset.mem_erase, List.mem_toFinset]
            exact ⟨fun heq => hback (heq ▸ hkey), hused key hkey⟩
          have hcard := Finset.card_le_card hsubset
          rw [List.toFinset_card_of_nodup hnodup, List.length_map] at hcard
          rw [List.nil_append, List.length_cons] at hfull
          omega
      | cons entry front =>
          rw [List.map_cons, List.mem_cons, not_or] at hfront
          exact ⟨front, back, rfl, hfront.2, hback, hnodup, hused⟩
  · exact ⟨front, back, rfl, hfront, hback, hnodup, hused⟩

theorem holds_insert (hlimit : 0 < limit) (table : List (κ × T)) (k : κ) (now : T) :
    Holds k now [] (RecencyTable.insert limit table k now) := by
  have hholds : Holds k now [] (others table k ++ [(k, now)]) := by
    refine ⟨others table k, [], rfl, ?_, by simp, by simp, by simp⟩
    rw [map_others]
    simp
  exact hholds.cut (by simpa using hlimit)

end Entries

omit [IsOrderedAddMonoid T] in
theorem Holds.present (h : Holds k start used table) (hfresh : now - start < ttl)
    (hroom : ((used ++ [other]).toFinset.erase k).card < limit) :
    Holds k start (used ++ [other]) (present limit ttl now table other).2 := by
  unfold RecencyTable.present
  by_cases heq : other = k
  · subst heq
    rw [h.lookup]
    simp only
    rw [if_pos hfresh]
    exact h.refresh _
  · have hinsert : Holds k start (used ++ [other]) (RecencyTable.insert limit table other now) :=
      (h.use heq now).cut hroom
    split
    · next since _ =>
        split
        · exact h.use heq since
        · exact hinsert
    · exact hinsert

variable {key : μ → κ} {calls : List (μ × T)} {before between after : List (Answer μ T)}
  {earlier answer : Answer μ T}

-- A fresh entry is found again if not too many other keys have been used since.
theorem Holds.complete (h : Holds k start used table)
    (hsorted : calls.Pairwise fun call later => call.2 ≤ later.2)
    (hsplit : answers limit ttl key table calls = between ++ answer :: after)
    (hkey : key answer.subject = k) (hfresh : answer.time - start < ttl)
    (hroom : ((used ++ between.map fun answer => key answer.subject).toFinset.erase k).card <
      limit) :
    answer.found = true := by
  induction calls generalizing table used between with
  | nil => simp [answers] at hsplit
  | cons call rest ih =>
      obtain ⟨subject, now⟩ := call
      rw [answers_cons] at hsplit
      rw [List.pairwise_cons] at hsorted
      cases between with
      | nil =>
          obtain ⟨rfl, -⟩ := List.cons.inj hsplit
          subst hkey
          unfold RecencyTable.present
          simp only [h.lookup]
          rw [if_pos hfresh]
      | cons first between =>
          obtain ⟨rfl, hrest⟩ := List.cons.inj hsplit
          have hcall : (answer.subject, answer.time) ∈ rest := mem_calls hrest
          have hnow : now - start < ttl :=
            lt_of_le_of_lt (sub_le_sub_right (hsorted.1 _ hcall) start) hfresh
          rw [List.map_cons, List.append_cons] at hroom
          refine ih (h.present hnow (lt_of_le_of_lt (Finset.card_le_card ?_) hroom)) hsorted.2
            hrest hroom
          refine Finset.erase_subset_erase k fun key hkey => ?_
          rw [List.mem_toFinset] at hkey ⊢
          exact List.mem_append_left _ hkey

-- A key that was inserted is found again within its time to live, if fewer other keys than the
-- table holds have been used since.
theorem complete (hlimit : 0 < limit)
    (hsorted : calls.Pairwise fun call later => call.2 ≤ later.2)
    (hsplit : answers limit ttl key table calls =
      before ++ earlier :: (between ++ answer :: after))
    (hkey : key earlier.subject = key answer.subject) (hmissed : earlier.found = false)
    (hfresh : answer.time - earlier.time < ttl)
    (hroom : ((between.map fun answer => key answer.subject).toFinset.erase
      (key answer.subject)).card < limit) :
    answer.found = true := by
  induction calls generalizing table before with
  | nil => simp [answers] at hsplit
  | cons call rest ih =>
      obtain ⟨subject, now⟩ := call
      rw [answers_cons] at hsplit
      rw [List.pairwise_cons] at hsorted
      cases before with
      | nil =>
          obtain ⟨rfl, hrest⟩ := List.cons.inj hsplit
          rw [insert_of_present hmissed] at hrest
          rw [← hkey] at hroom
          exact (holds_insert hlimit table (key subject) now).complete hsorted.2 hrest hkey.symm
            hfresh hroom
      | cons first before =>
          obtain ⟨rfl, hrest⟩ := List.cons.inj hsplit
          exact ih hsorted.2 hrest

end Completeness

section History

variable {key : μ → κ} {answered : List (Answer μ T)} {clock : T}

-- How many other keys were used by the answers.
def othersUsed (key : μ → κ) (answered : List (Answer μ T)) (k : κ) : Nat :=
  ((answered.map fun answer => key answer.subject).toFinset.erase k).card

-- An insertion that is not too old is in the table, unless as many other keys as the table holds
-- have been used since.
def Remembered (limit : Nat) (ttl clock : T) (key : μ → κ) (answered : List (Answer μ T))
    (table : List (κ × T)) : Prop :=
  ∀ before earlier between, answered = before ++ earlier :: between → earlier.found = false →
    clock - earlier.time < ttl → othersUsed key between (key earlier.subject) < limit →
    Holds (key earlier.subject) earlier.time (between.map fun answer => key answer.subject) table

omit [IsOrderedAddMonoid T] in
theorem remembered_nil (table : List (κ × T)) : Remembered limit ttl clock key [] table := by
  intro before earlier between hsplit
  cases before <;> cases hsplit

theorem Remembered.later (h : Remembered limit ttl clock key answered table) (hnow : clock ≤ now) :
    Remembered limit ttl now key answered table :=
  fun before earlier between hsplit hmissed hfresh =>
    h before earlier between hsplit hmissed
      (lt_of_le_of_lt (sub_le_sub_right hnow earlier.time) hfresh)

omit [IsOrderedAddMonoid T] in
theorem Remembered.present (h : Remembered limit ttl clock key answered table) (hlimit : 0 < limit)
    (subject : μ) :
    Remembered limit ttl clock key
      (answered ++ [⟨subject, clock, (present limit ttl clock table (key subject)).1⟩])
      (RecencyTable.present limit ttl clock table (key subject)).2 := by
  intro before earlier between hsplit hmissed hfresh hroom
  rcases between.eq_nil_or_concat with rfl | ⟨between, last, rfl⟩
  · obtain ⟨rfl, hearlier⟩ := List.append_inj' hsplit rfl
    obtain ⟨rfl, -⟩ := List.cons.inj hearlier
    rw [insert_of_present hmissed]
    exact holds_insert hlimit table (key subject) clock
  · rw [List.concat_eq_append] at hsplit hroom ⊢
    rw [← List.cons_append, ← List.append_assoc] at hsplit
    obtain ⟨rfl, hlast⟩ := List.append_inj' hsplit rfl
    obtain ⟨rfl, -⟩ := List.cons.inj hlast
    rw [othersUsed, List.map_append] at hroom
    have hbefore : othersUsed key between (key earlier.subject) < limit := by
      refine lt_of_le_of_lt (Finset.card_le_card ?_) hroom
      refine Finset.erase_subset_erase _ fun other hother => ?_
      rw [List.mem_toFinset] at hother ⊢
      exact List.mem_append_left _ hother
    rw [List.map_append]
    exact (h before earlier between rfl hmissed hfresh hbefore).present hfresh hroom

omit [IsOrderedAddMonoid T] in
-- A key that is inserted once more was inserted long ago, or before many others were used.
theorem Remembered.spaced (h : Remembered limit ttl clock key answered table) {subject : μ}
    (hmissed : (RecencyTable.present limit ttl clock table (key subject)).1 = false)
    {before between : List (Answer μ T)} {earlier : Answer μ T}
    (hsplit : answered = before ++ earlier :: between) (hearlier : earlier.found = false)
    (hkey : key earlier.subject = key subject) :
    ttl ≤ clock - earlier.time ∨ limit ≤ othersUsed key between (key subject) := by
  by_contra hboth
  rw [not_or, not_le, not_le] at hboth
  have hholds := h before earlier between hsplit hearlier hboth.1 (hkey ▸ hboth.2)
  have hfound : (RecencyTable.present limit ttl clock table (key subject)).1 = true := by
    unfold RecencyTable.present
    rw [← hkey, hholds.lookup]
    dsimp only
    rw [if_pos hboth.1]
  rw [hfound] at hmissed
  cases hmissed

end History

end RecencyTable
