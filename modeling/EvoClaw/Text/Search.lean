import Mathlib.Data.List.Infix

namespace EvoClaw.Text

variable {α : Type*} [DecidableEq α]

-- text.find(word)
def find (word : List α) : List α → Option Nat
  | [] => if word = [] then some 0 else none
  | c :: rest => if word <+: c :: rest then some 0 else (find word rest).map (· + 1)

-- text.rfind(word)
def rfind (word : List α) : List α → Option Nat
  | [] => if word = [] then some 0 else none
  | c :: rest =>
      match rfind word rest with
      | some i => some (i + 1)
      | none => if word <+: c :: rest then some 0 else none

-- word in text
def contains (text word : List α) : Bool :=
  (find word text).isSome

-- text.count(word), where `word` is not empty. The next `skip` characters belong to the
-- occurrence before them.
def countFrom (word : List α) : Nat → List α → Nat
  | _, [] => 0
  | skip + 1, _ :: rest => countFrom word skip rest
  | 0, c :: rest =>
      if word <+: c :: rest then countFrom word (word.length - 1) rest + 1
      else countFrom word 0 rest

-- text.count(word)
def count (word text : List α) : Nat :=
  if word = [] then text.length + 1 else countFrom word 0 text

-- text.replace(word, by, 1)
def replaceFirst (word replacement text : List α) : List α :=
  match find word text with
  | some i => text.take i ++ (replacement ++ text.drop (i + word.length))
  | none => text

example : count "aa".toList "aaaa".toList = 2 := by decide

def OccursAt {α : Type*} (word text : List α) (i : Nat) : Prop :=
  ∃ before after, text = before ++ (word ++ after) ∧ before.length = i

-- No occurrence begins inside another one.
def Separate {α : Type*} (word text : List α) : Prop :=
  ∀ i j, OccursAt word text i → OccursAt word text j → i < j → i + word.length ≤ j

variable {word text before after : List α} {c : α} {i : Nat}

theorem find_spec (h : find word text = some i) :
    text = text.take i ++ (word ++ text.drop (i + word.length)) := by
  induction text generalizing i with
  | nil =>
      unfold find at h
      split_ifs at h with hword
      simp [hword]
  | cons c rest ih =>
      unfold find at h
      split_ifs at h with hbegins
      · cases h
        simpa using (List.prefix_iff_eq_append.mp hbegins).symm
      · obtain ⟨j, hj, rfl⟩ := Option.map_eq_some_iff.mp h
        rw [show j + 1 + word.length = j + word.length + 1 by omega]
        simpa using ih hj

theorem find_le (h : text = before ++ (word ++ after)) :
    ∃ i, find word text = some i ∧ i ≤ before.length := by
  induction before generalizing text with
  | nil =>
      have hbegins : word <+: text := ⟨after, h.symm⟩
      refine ⟨0, ?_, Nat.le_refl 0⟩
      cases text with
      | nil => simpa [find] using hbegins
      | cons c rest => exact if_pos hbegins
  | cons c before ih =>
      subst h
      rw [List.cons_append]
      unfold find
      split_ifs
      · exact ⟨0, rfl, Nat.zero_le _⟩
      · obtain ⟨i, hi, hle⟩ := ih rfl
        exact ⟨i + 1, by rw [hi]; rfl, Nat.succ_le_succ hle⟩

-- The first occurrence is the one that nothing before it overlaps.
theorem find_append (after : List α) (hfirst : ¬ word <:+: before ++ word.dropLast) :
    find word (before ++ (word ++ after)) = some before.length := by
  have hfound : ∃ i, find word (before ++ (word ++ after)) = some i ∧ i ≤ before.length :=
    find_le rfl
  obtain ⟨i, hi, hle⟩ := hfound
  rw [hi]
  congr 1
  by_contra hne
  apply hfirst
  have hword : word ≠ [] := by
    rintro rfl
    exact hfirst List.nil_infix
  have hpos : 0 < word.length := List.length_pos_iff.mpr hword
  have hfound : (before ++ (word ++ after)).take i ++ word <+: before ++ (word ++ after) :=
    ⟨_, by rw [List.append_assoc]; exact (find_spec hi).symm⟩
  have hbefore : before ++ word.dropLast <+: before ++ (word ++ after) :=
    (List.prefix_append_right_inj before).mpr
      ((List.dropLast_prefix word).trans (List.prefix_append word after))
  have hshort : ((before ++ (word ++ after)).take i ++ word).length ≤
      (before ++ word.dropLast).length := by
    simp only [List.length_append, List.length_take, List.length_dropLast]
    omega
  have hbegins := List.prefix_of_prefix_length_le hfound hbefore hshort
  exact List.infix_append_right.trans hbegins.isInfix

theorem infix_of_rfind (h : rfind word text = some i) : word <:+: text := by
  induction text generalizing i with
  | nil =>
      unfold rfind at h
      split_ifs at h with hword
      rw [hword]
  | cons c rest ih =>
      unfold rfind at h
      split at h
      · next j hj => exact List.infix_cons (ih hj)
      · split_ifs at h with hbegins
        exact hbegins.isInfix

-- The last occurrence is the one behind which no other begins.
theorem rfind_append (hword : word ≠ []) (hlast : ¬ word <:+: (word ++ after).tail) :
    rfind word (before ++ (word ++ after)) = some before.length := by
  have hnone : rfind word (word ++ after).tail = none := by
    cases h : rfind word (word ++ after).tail with
    | none => rfl
    | some i => exact absurd (infix_of_rfind h) hlast
  induction before with
  | nil =>
      obtain ⟨c, rest, hcons⟩ := List.exists_cons_of_ne_nil hword
      subst hcons
      simp only [List.cons_append, List.tail_cons, List.nil_append] at hnone ⊢
      unfold rfind
      rw [hnone]
      exact if_pos ⟨after, rfl⟩
  | cons c before ih =>
      rw [List.cons_append]
      unfold rfind
      rw [ih]
      rfl

omit [DecidableEq α] in
theorem exists_last (h : word <:+: text) :
    word = [] ∨
      ∃ before after, text = before ++ (word ++ after) ∧ ¬ word <:+: (word ++ after).tail := by
  induction text with
  | nil => exact Or.inl (List.infix_nil.mp h)
  | cons c rest ih =>
      by_cases hrest : word <:+: rest
      · rcases ih hrest with hnil | ⟨before, after, rfl, hlast⟩
        · exact Or.inl hnil
        · exact Or.inr ⟨c :: before, after, rfl, hlast⟩
      · rcases List.infix_cons_iff.mp h with ⟨after, hbegins⟩ | hinside
        · exact Or.inr ⟨[], after, hbegins.symm, by rwa [hbegins]⟩
        · exact absurd hinside hrest

omit [DecidableEq α] in
theorem exists_first (hword : word ≠ []) (h : word <:+: text) :
    ∃ before after, text = before ++ (word ++ after) ∧ ¬ word <:+: before := by
  induction text with
  | nil => exact absurd (List.infix_nil.mp h) hword
  | cons c rest ih =>
      by_cases hbegins : word <+: c :: rest
      · obtain ⟨after, hafter⟩ := hbegins
        exact ⟨[], after, hafter.symm, fun hnil => hword (List.infix_nil.mp hnil)⟩
      · have hrest : word <:+: rest := (List.infix_cons_iff.mp h).resolve_left hbegins
        obtain ⟨before, after, rfl, hfirst⟩ := ih hrest
        refine ⟨c :: before, after, rfl, fun hinfix => ?_⟩
        rcases List.infix_cons_iff.mp hinfix with hhead | hinside
        · exact hbegins (hhead.trans (List.prefix_append (c :: before) (word ++ after)))
        · exact hfirst hinside

omit [DecidableEq α] in
-- A word lies on one side of a character that it does not have.
theorem infix_split (hc : c ∉ word) (h : word <:+: before ++ c :: after) :
    word <:+: before ∨ word <:+: after := by
  rcases List.infix_append_iff_ne_nil.mp h with h | h | ⟨left, right, -, hright, rfl, -, hbegins⟩
  · exact Or.inl h
  · rcases List.infix_cons_iff.mp h with h | h
    · cases word with
      | nil => exact Or.inl List.nil_infix
      | cons d word =>
          obtain ⟨more, hmore⟩ := h
          cases hmore
          simp at hc
    · exact Or.inr h
  · cases right with
    | nil => exact absurd rfl hright
    | cons d right =>
        obtain ⟨more, hmore⟩ := hbegins
        cases hmore
        simp at hc

omit [DecidableEq α] in
-- A separator that neither front part has cuts a text in one way only.
theorem split_unique {front : List α} {rest : List α} (hbefore : c ∉ before) (hfront : c ∉ front)
    (h : before ++ c :: after = front ++ c :: rest) : before = front ∧ after = rest := by
  induction before generalizing front with
  | nil =>
      cases front with
      | nil => exact ⟨rfl, (List.cons.inj h).2⟩
      | cons d front =>
          have heq : c = d := (List.cons.inj h).1
          exact absurd (heq ▸ List.mem_cons_self) hfront
  | cons d before ih =>
      rw [List.mem_cons, not_or] at hbefore
      cases front with
      | nil =>
          have heq : d = c := (List.cons.inj h).1
          exact absurd heq.symm hbefore.1
      | cons e front =>
          rw [List.mem_cons, not_or] at hfront
          obtain ⟨rfl, hrest⟩ := List.cons.inj h
          obtain ⟨rfl, rfl⟩ := ih hbefore.2 hfront.2 hrest
          exact ⟨rfl, rfl⟩

section Counting

variable {rest : List α} {j skip : Nat}

omit [DecidableEq α] in
theorem OccursAt.tail (h : OccursAt word (c :: rest) (i + 1)) : OccursAt word rest i := by
  obtain ⟨before, after, htext, hlength⟩ := h
  cases before with
  | nil => cases hlength
  | cons d before =>
      rw [List.cons_append] at htext
      exact ⟨before, after, (List.cons.inj htext).2, Nat.succ.inj hlength⟩

omit [DecidableEq α] in
theorem OccursAt.begins (h : OccursAt word text 0) : word <+: text := by
  obtain ⟨before, after, rfl, hlength⟩ := h
  obtain rfl := List.length_eq_zero_iff.mp hlength
  exact ⟨after, rfl⟩

omit [DecidableEq α] in
theorem not_occursAt_nil (hword : word ≠ []) : ¬ OccursAt word [] i := by
  rintro ⟨before, after, htext, -⟩
  have hparts := List.append_eq_nil_iff.mp (List.append_eq_nil_iff.mp htext.symm).2
  exact hword hparts.1

omit [DecidableEq α] in
theorem OccursAt.le (h : OccursAt word text i) : i + word.length ≤ text.length := by
  obtain ⟨before, after, rfl, rfl⟩ := h
  simp only [List.length_append]
  omega

omit [DecidableEq α] in
theorem occursAt_map {β : Type*} {f : α → β} (hf : Function.Injective f) :
    OccursAt (word.map f) (text.map f) i ↔ OccursAt word text i := by
  constructor
  · rintro ⟨before, after, htext, hlength⟩
    obtain ⟨front, rest, rfl, rfl, hrest⟩ := List.map_eq_append_iff.mp htext
    obtain ⟨middle, back, rfl, hmiddle, -⟩ := List.map_eq_append_iff.mp hrest
    rw [List.map_inj_right fun _ _ h => hf h] at hmiddle
    exact ⟨front, back, by rw [hmiddle], by rw [← hlength, List.length_map]⟩
  · rintro ⟨before, after, rfl, rfl⟩
    exact ⟨before.map f, after.map f, by simp, by simp⟩

theorem countFrom_pos (hword : word ≠ []) (h : OccursAt word text i) (hskip : skip ≤ i) :
    1 ≤ countFrom word skip text := by
  induction text generalizing i skip with
  | nil => exact absurd h (not_occursAt_nil hword)
  | cons c rest ih =>
      cases skip with
      | succ skip =>
          obtain ⟨i, rfl⟩ := Nat.exists_eq_add_of_lt (Nat.lt_of_lt_of_le (Nat.zero_lt_succ _) hskip)
          rw [Nat.zero_add] at h hskip
          exact ih h.tail (Nat.le_of_succ_le_succ hskip)
      | zero =>
          rw [countFrom]
          split_ifs with hbegins
          · omega
          · cases i with
            | zero => exact absurd h.begins hbegins
            | succ i => exact ih h.tail (Nat.zero_le i)

-- Two occurrences that do not overlap are both counted.
theorem countFrom_two (hword : word ≠ []) (hi : OccursAt word text i) (hj : OccursAt word text j)
    (hapart : i + word.length ≤ j) (hskip : skip ≤ i) : 2 ≤ countFrom word skip text := by
  have hlength := List.length_pos_iff.mpr hword
  induction text generalizing i j skip with
  | nil => exact absurd hi (not_occursAt_nil hword)
  | cons c rest ih =>
      obtain ⟨j, rfl⟩ := Nat.exists_eq_add_of_lt (show 0 < j by omega)
      rw [Nat.zero_add] at hj hapart
      cases skip with
      | succ skip =>
          obtain ⟨i, rfl⟩ := Nat.exists_eq_add_of_lt (show 0 < i by omega)
          rw [Nat.zero_add] at hi hapart hskip
          exact ih hi.tail hj.tail (by omega) (by omega)
      | zero =>
          rw [countFrom]
          split_ifs with hbegins
          · have hrest : 1 ≤ countFrom word (word.length - 1) rest :=
              countFrom_pos hword hj.tail (by omega)
            omega
          · cases i with
            | zero => exact absurd hi.begins hbegins
            | succ i => exact ih hi.tail hj.tail (by omega) (Nat.zero_le i)

-- A text with one counted occurrence has one, where none overlaps another.
theorem occursAt_unique (hcount : count word text ≤ 1) (hseparate : Separate word text)
    (hi : OccursAt word text i) (hj : OccursAt word text j) : i = j := by
  by_cases hword : word = []
  · have htext : text = [] := by
      rw [count, if_pos hword] at hcount
      exact List.length_eq_zero_iff.mp (by omega)
    obtain ⟨before, after, hsplit, rfl⟩ := hi
    obtain ⟨front, back, hother, rfl⟩ := hj
    rw [htext] at hsplit hother
    rw [(List.append_eq_nil_iff.mp hsplit.symm).1, (List.append_eq_nil_iff.mp hother.symm).1]
  · rw [count, if_neg hword] at hcount
    rcases Nat.lt_trichotomy i j with hlt | heq | hlt
    · have := countFrom_two hword hi hj (hseparate i j hi hj hlt) (Nat.zero_le i)
      omega
    · exact heq
    · have := countFrom_two hword hj hi (hseparate j i hj hi hlt) (Nat.zero_le j)
      omega

end Counting

end EvoClaw.Text
