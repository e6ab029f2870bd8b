import EvoClaw.SkillsEngine.Files

-- What merge_env_additions adds, and what it adds again when it runs on its own output.
namespace EvoClaw.SkillsEngine

-- A line that gives the variable of this name, with a value or without.
def namesVariable (name line : List Char) : Bool :=
  isComment line = false ∧ keyOf line = name

-- The lines that the merge puts behind the existing ones.
def addedLines (existing incoming : List (List Char)) : List (List Char) :=
  (mergeEnvAdditions existing incoming).drop existing.length

structure MergesWell (existing incoming : List (List Char)) : Prop where
  starts : existing <+: mergeEnvAdditions existing incoming
  once : ∀ name, ((addedLines existing incoming).filter (namesVariable name)).length ≤ 1
  keeps : ∀ name ∈ keysOf existing, ∀ line ∈ addedLines existing incoming,
    namesVariable name line = false
  idempotent : mergeEnvAdditions (mergeEnvAdditions existing incoming) incoming =
    mergeEnvAdditions existing incoming

-- No comments come in, and what is not defined comes first with a value.
def ComesWithValues (existing incoming : List (List Char)) : Prop :=
  ∀ line ∈ incoming, isComment line = false ∧ (keyOf line ∈ keysOf existing ∨
    ∀ first ∈ incoming.find? (namesVariable (keyOf line)), '=' ∈ first)

instance (existing incoming : List (List Char)) : Decidable (ComesWithValues existing incoming) :=
  inferInstanceAs (Decidable (∀ line ∈ incoming, _))

section Keys

variable {name line : List Char} {keys : List (List Char)}

theorem namesVariable_iff :
    namesVariable name line = true ↔ isComment line = false ∧ keyOf line = name := by
  rw [namesVariable, decide_eq_true_iff]

theorem namesVariable_comment (h : isComment line = true) : namesVariable name line = false := by
  simp [namesVariable, h]

theorem mem_keysOf {lines : List (List Char)} :
    name ∈ keysOf lines ↔ ∃ line ∈ lines, namesVariable name line = true ∧ '=' ∈ line := by
  simp only [keysOf, List.mem_map, List.mem_filter, decide_eq_true_eq, namesVariable_iff]
  constructor
  · rintro ⟨line, ⟨hmem, hvalue, hcomment⟩, hkey⟩
    exact ⟨line, hmem, ⟨hcomment, hkey⟩, hvalue⟩
  · rintro ⟨line, hmem, ⟨hcomment, hkey⟩, hvalue⟩
    exact ⟨line, ⟨hmem, hvalue, hcomment⟩, hkey⟩

theorem keysOf_append (lines rest : List (List Char)) :
    keysOf (lines ++ rest) = keysOf lines ++ keysOf rest := by
  rw [keysOf, List.filter_append, List.map_append, ← keysOf, ← keysOf]

end Keys

section NewLines

variable (keys : List (List Char))

-- Of a variable that is not known yet, the first line is added.
theorem filter_newLines (name : List Char) (lines : List (List Char)) :
    (newLines keys lines).filter (namesVariable name) =
      if name ∈ keys then [] else (lines.find? (namesVariable name)).toList := by
  induction lines generalizing keys with
  | nil => simp [newLines]
  | cons line rest ih =>
      rw [newLines]
      split
      · rename_i hcomment
        have hother : namesVariable name line = false := namesVariable_comment hcomment
        rw [List.filter_cons_of_neg (by simp [hother]), List.find?_cons_of_neg (by simp [hother]),
          ih keys]
      · rename_i hcomment
        have hline : namesVariable name line = true ↔ keyOf line = name :=
          namesVariable_iff.trans (and_iff_right (eq_false_of_ne_true hcomment))
        split
        · rename_i hknown
          rw [ih keys]
          split
          · rfl
          · rename_i hname
            have hother : keyOf line ≠ name := fun heq => hname (heq ▸ hknown)
            rw [List.find?_cons_of_neg fun h => hother (hline.mp h)]
        · rename_i hnew
          by_cases hname : keyOf line = name
          · -- the line is added, and none of the name behind it
            subst hname
            rw [List.filter_cons_of_pos (hline.mpr rfl), List.find?_cons_of_pos (hline.mpr rfl),
              ih, if_pos List.mem_cons_self, if_neg hnew]
            rfl
          · rw [List.filter_cons_of_neg fun h => hname (hline.mp h),
              List.find?_cons_of_neg fun h => hname (hline.mp h), ih]
            have hmem : name ∈ keyOf line :: keys ↔ name ∈ keys := by
              rw [List.mem_cons, or_iff_right (Ne.symm hname)]
            simp only [hmem]

theorem mem_keysOf_newLines {name : List Char} (hname : name ∉ keys) (lines : List (List Char)) :
    name ∈ keysOf (newLines keys lines) ↔
      ∃ first ∈ lines.find? (namesVariable name), '=' ∈ first := by
  have hfirst := filter_newLines keys name lines
  rw [if_neg hname] at hfirst
  have hmem : ∀ line, line ∈ newLines keys lines ∧ namesVariable name line = true ↔
      line ∈ lines.find? (namesVariable name) := by
    intro line
    rw [← List.mem_filter, hfirst, Option.mem_toList, Option.mem_def]
  simp only [mem_keysOf, ← hmem, and_assoc]

theorem newLines_eq_nil_iff (lines : List (List Char)) :
    newLines keys lines = [] ↔ ∀ line ∈ lines, isComment line = false ∧ keyOf line ∈ keys := by
  induction lines with
  | nil => simp [newLines]
  | cons line rest ih =>
      rw [newLines, List.forall_mem_cons, ← ih]
      split
      · rename_i hcomment
        simp [hcomment]
      · rename_i hcomment
        split
        · rename_i hknown
          simp [hcomment, hknown]
        · rename_i hnew
          simp [hnew]

end NewLines

section Merge

variable (existing incoming : List (List Char))

@[simp] theorem addedLines_eq :
    addedLines existing incoming = newLines (keysOf existing) incoming := by
  rw [addedLines, mergeEnvAdditions, List.drop_left]

-- The second merge adds what the first one has left without a key.
theorem merge_idempotent_iff :
    mergeEnvAdditions (mergeEnvAdditions existing incoming) incoming =
      mergeEnvAdditions existing incoming ↔ ComesWithValues existing incoming := by
  rw [mergeEnvAdditions, List.append_right_eq_self, newLines_eq_nil_iff, mergeEnvAdditions,
    keysOf_append]
  refine forall₂_congr fun line hline => and_congr_right fun hcomment => ?_
  rw [List.mem_append]
  by_cases hknown : keyOf line ∈ keysOf existing
  · simp [hknown]
  · rw [or_iff_right hknown, or_iff_right hknown, mem_keysOf_newLines _ hknown]
    -- the line itself gives the variable, so there is a first one
    have hsome : (incoming.find? (namesVariable (keyOf line))).isSome = true :=
      List.find?_isSome.mpr ⟨line, hline, namesVariable_iff.mpr ⟨hcomment, rfl⟩⟩
    obtain ⟨first, hfirst⟩ := Option.isSome_iff_exists.mp hsome
    simp [hfirst]

-- The merge keeps the existing lines and adds each variable once, whatever comes in. It is
-- idempotent if and only if every line that it adds is one that it finds again.
theorem mergesWell_iff : MergesWell existing incoming ↔ ComesWithValues existing incoming := by
  refine ⟨fun h => (merge_idempotent_iff existing incoming).mp h.idempotent, fun h => ?_⟩
  refine ⟨List.prefix_append existing _, fun name => ?_, fun name hname line hline => ?_,
    (merge_idempotent_iff existing incoming).mpr h⟩
  · rw [addedLines_eq, filter_newLines]
    split
    · exact Nat.zero_le 1
    · exact Option.length_toList_le
  · rw [addedLines_eq] at hline
    have hnone := filter_newLines (keysOf existing) name incoming
    rw [if_pos hname, List.filter_eq_nil_iff] at hnone
    exact eq_false_of_ne_true (hnone line hline)

-- A bare name, as skills are to list their variables, and a comment come in twice.
theorem tokens_added_again :
    ¬ MergesWell [] (["# chat".toList, "WHATSAPP_TOKEN".toList]) := fun h =>
  absurd h.idempotent (by decide)

end Merge

end EvoClaw.SkillsEngine
