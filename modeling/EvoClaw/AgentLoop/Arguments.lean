import EvoClaw.JsonText.TrailingCommas
import EvoClaw.Text.Substitute

-- The arguments of a tool call as the model writes them, and their repair.
namespace EvoClaw.AgentLoop.Arguments

open JsonText Text

section Repair

-- The length of a match of r',\s*([}\]])' at the beginning of a text.
def trailingComma : List Char → Option Nat
  | ',' :: rest => if closes rest then some ((rest.takeWhile isSpace).length + 2) else none
  | _ => none

-- re.sub(r',\s*([}\]])', r'\1', raw)
def repair (raw : List Char) : List Char :=
  substitute trailingComma (fun found => found.drop (found.length - 1)) 0 raw

inductive Parsed where
  | accepted (args : Json)
  | recovered (args : Json)
  | refused

-- The arguments that the tool is called with.
def parseArguments (floatOf : List Char → BitVec 64) (arguments : Option (List Char)) : Parsed :=
  match arguments.bind (loads floatOf) with
  | some args => .accepted args
  | none =>
      let rawArgs := arguments.getD []
      if strip rawArgs ≠ [] ∧ rawArgs ≠ "{}".toList then
        match loads floatOf (repair rawArgs) with
        | some args => .recovered args
        | none => .refused
      else .refused

variable {c : Char} {text rest : List Char}

theorem repair_other (h : c = ',' → closes rest = false) :
    repair (c :: rest) = c :: repair rest := by
  have hnone : trailingComma (c :: rest) = none := by
    by_cases hc : c = ','
    · subst hc
      simp [trailingComma, h rfl]
    · unfold trailingComma
      split
      · next heq =>
          cases heq
          exact absurd rfl hc
      · rfl
  unfold repair
  rw [substitute, hnone]

theorem exists_of_closes (h : closes rest = true) :
    ∃ bracket after, rest.dropWhile isSpace = bracket :: after ∧ isClosing bracket = true := by
  unfold closes at h
  cases hrest : rest.dropWhile isSpace with
  | nil =>
      rw [hrest] at h
      cases h
  | cons bracket after =>
      rw [hrest] at h
      exact ⟨bracket, after, rfl, h⟩

theorem repair_comma (h : closes rest = true) :
    repair (',' :: rest) = repair (rest.dropWhile isSpace) := by
  obtain ⟨bracket, after, hrest, hclosing⟩ := exists_of_closes h
  have hsplit : rest = (rest.takeWhile isSpace ++ [bracket]) ++ after := by
    rw [List.append_assoc, List.singleton_append, ← hrest, List.takeWhile_append_dropWhile]
  have hmatch : trailingComma (',' :: ((rest.takeWhile isSpace ++ [bracket]) ++ after)) =
      some ((rest.takeWhile isSpace ++ [bracket]).length + 1) := by
    rw [← hsplit, List.length_append]
    simp [trailingComma, h]
  have hbracket : bracket ≠ ',' := by
    rintro rfl
    cases hclosing
  rw [hrest, repair_other fun hc => absurd hc hbracket]
  unfold repair
  nth_rewrite 1 [hsplit]
  rw [substitute_match hmatch]
  simp

end Repair

section Inserted

-- Commas, each with whitespace behind it, are inserted in front of closing brackets outside
-- of the strings.
inductive Inserted : Mode → List Char → List Char → Prop where
  | nil {mode : Mode} : Inserted mode [] []
  | keep {mode : Mode} {c : Char} {original text : List Char} :
      Inserted (mode.next c) original text → Inserted mode (c :: original) (c :: text)
  | comma (spaces : List Char) {original text : List Char} : (∀ c ∈ spaces, isSpace c = true) →
      closes original = true → Inserted .outside original text →
      Inserted .outside original (',' :: (spaces ++ text))

variable {mode : Mode} {original text : List Char}

theorem Inserted.refl (mode : Mode) (text : List Char) : Inserted mode text text := by
  induction text generalizing mode with
  | nil => exact .nil
  | cons c text ih => exact .keep (ih _)

theorem Inserted.keeps (used : List Char) (h : Inserted (used.foldl Mode.next mode) original text) :
    Inserted mode (used ++ original) (used ++ text) := by
  induction used generalizing mode with
  | nil => exact h
  | cons c used ih => exact .keep (ih h)

theorem Inserted.closes (h : Inserted mode original text) (hcloses : closes text = true) :
    closes original = true := by
  induction h with
  | nil => exact hcloses
  | keep h ih =>
      rw [closes_cons_iff] at hcloses ⊢
      exact hcloses.imp_right fun hspace => ⟨hspace.1, ih hspace.2⟩
  | comma => cases hcloses

theorem space_plain {c : Char} (h : isSpace c = true) : c ≠ '"' ∧ c ≠ ',' := by
  constructor <;> rintro rfl <;> cases h

theorem repair_spaces {spaces rest : List Char} (h : ∀ c ∈ spaces, isSpace c = true) :
    repair (spaces ++ rest) = spaces ++ repair rest := by
  induction spaces with
  | nil => rfl
  | cons c spaces ih =>
      have hcomma := (space_plain (h c List.mem_cons_self)).2
      rw [List.cons_append, repair_other fun hc => absurd hc hcomma,
        ih fun c hc => h c (List.mem_cons_of_mem _ hc)]
      rfl

-- A repaired text from which a comma is missing has lost whitespace too. Where a comma is left,
-- it stands in front of a bracket as before.
theorem Inserted.thinner (h : Inserted mode original text)
    (houtside : Free (· = .outside) mode original) (hinside : Free (· ≠ .outside) mode original)
    (hrepaired : Free (· = .outside) mode (repair text)) : Thinner mode original (repair text) := by
  induction h with
  | nil => exact .nil
  | @keep mode c original text h ih =>
      have hopen : c = ',' → JsonText.closes text = false := by
        intro hc
        have horiginal : JsonText.closes original = false := by
          by_cases hmode : mode = .outside
          · exact houtside.1 hmode hc
          · exact hinside.1 hmode hc
        rw [← Bool.not_eq_true] at horiginal ⊢
        exact fun hcloses => horiginal (h.closes hcloses)
      rw [repair_other hopen] at hrepaired ⊢
      exact .keep (ih houtside.2 hinside.2 hrepaired.2)
  | @comma spaces original text hspaces hcloses h ih =>
      cases htext : JsonText.closes text with
      | true =>
          have hall : JsonText.closes (spaces ++ text) = true := by
            rw [closes_append hspaces, htext]
          rw [repair_comma hall, List.dropWhile_append_of_pos hspaces] at hrepaired ⊢
          have hspace : ∀ c ∈ text.takeWhile isSpace, isSpace c = true :=
            fun c hc => List.mem_takeWhile_imp hc
          have hsplit :
              repair text = text.takeWhile isSpace ++ repair (text.dropWhile isSpace) := by
            rw [← repair_spaces hspace, List.takeWhile_append_dropWhile]
          have hfree : Free (· = .outside) .outside (repair text) := by
            rw [hsplit]
            exact free_append (fun c hc => space_plain (hspace c hc)) hrepaired
          have hthinner := ih houtside hinside hfree
          have hbegin := hthinner.closes_eq
          rw [hcloses, hsplit, closes_append hspace] at hbegin
          rw [hsplit] at hthinner
          exact hthinner.drop_spaces hspace hbegin
      | false =>
          have hkept : JsonText.closes (spaces ++ text) = false := by
            rw [closes_append hspaces, htext]
          rw [repair_other fun _ => hkept, repair_spaces hspaces] at hrepaired
          have hthinner := ih houtside hinside
            (free_of_append (fun c hc => (space_plain (hspaces c hc)).1) hrepaired.2)
          have hclosed := hrepaired.1 rfl rfl
          rw [closes_append hspaces, hthinner.closes_eq, hcloses] at hclosed
          cases hclosed

end Inserted

section Literals

-- The string literal that a text is inside of, up to its closing quote.
def literal : Mode → List Char → List Char
  | _, [] => []
  | mode, c :: rest =>
      if mode = .inside ∧ c = '"' then [] else c :: literal (mode.next c) rest

-- The string literals that open in a text, as they are written there.
def literals : Mode → List Char → List (List Char)
  | _, [] => []
  | mode, c :: rest =>
      if mode = .outside ∧ c = '"' then literal .inside rest :: literals .inside rest
      else literals (mode.next c) rest

-- A comma, whitespace and a closing bracket.
def HasTrailingComma (text : List Char) : Prop :=
  ∃ before rest, text = before ++ ',' :: rest ∧ closes rest = true

variable {mode : Mode} {c : Char} {original text rest : List Char}

theorem hasTrailingComma_cons : HasTrailingComma (c :: rest) ↔
    c = ',' ∧ closes rest = true ∨ HasTrailingComma rest := by
  constructor
  · rintro ⟨before, after, heq, hcloses⟩
    cases before with
    | nil =>
        cases heq
        exact .inl ⟨rfl, hcloses⟩
    | cons d before =>
        cases heq
        exact .inr ⟨before, after, rfl, hcloses⟩
  · rintro (⟨rfl, hcloses⟩ | ⟨before, after, rfl, hcloses⟩)
    · exact ⟨[], rest, rfl, hcloses⟩
    · exact ⟨c :: before, after, rfl, hcloses⟩

theorem not_hasTrailingComma_nil : ¬HasTrailingComma [] := by
  rintro ⟨before, rest, heq, -⟩
  cases before <;> cases heq

theorem repair_length_le (text : List Char) : (repair text).length ≤ text.length := by
  induction hn : text.length using Nat.strong_induction_on generalizing text with
  | _ n ih =>
      subst hn
      cases text with
      | nil => exact Nat.le_refl _
      | cons c rest =>
          by_cases hmatch : c = ',' ∧ closes rest = true
          · obtain ⟨rfl, hcloses⟩ := hmatch
            have hdrop : (rest.dropWhile isSpace).length ≤ rest.length :=
              (List.dropWhile_sublist _).length_le
            have := ih (rest.dropWhile isSpace).length (by simp; omega) _ rfl
            rw [repair_comma hcloses, List.length_cons]
            omega
          · rw [repair_other (by simpa using hmatch)]
            exact Nat.succ_le_succ (ih rest.length (by simp) rest rfl)

-- What a repair leaves as it is.
theorem repair_eq_self_iff (text : List Char) : repair text = text ↔ ¬HasTrailingComma text := by
  induction text with
  | nil => exact iff_of_true rfl not_hasTrailingComma_nil
  | cons c rest ih =>
      rw [hasTrailingComma_cons, not_or]
      by_cases hmatch : c = ',' ∧ closes rest = true
      · refine iff_of_false ?_ fun h => h.1 hmatch
        obtain ⟨rfl, hcloses⟩ := hmatch
        intro heq
        have hshort := repair_length_le (rest.dropWhile isSpace)
        have hdrop : (rest.dropWhile isSpace).length ≤ rest.length :=
          (List.dropWhile_sublist _).length_le
        rw [← repair_comma hcloses, heq, List.length_cons] at hshort
        omega
      · rw [repair_other (by simpa using hmatch), List.cons.injEq, ih]
        exact ⟨fun h => ⟨hmatch, h.2⟩, fun h => ⟨rfl, h.2⟩⟩

instance : DecidablePred HasTrailingComma := fun text =>
  decidable_of_iff (¬repair text = text) (by rw [repair_eq_self_iff, not_not])

theorem next_ne_outside (hmode : mode ≠ .outside) (hc : ¬(mode = .inside ∧ c = '"')) :
    mode.next c ≠ .outside := by
  cases mode with
  | outside => exact absurd rfl hmode
  | inside =>
      have hquote : c ≠ '"' := fun h => hc ⟨rfl, h⟩
      by_cases hslash : c = '\\'
      · subst hslash
        decide
      · rw [next_inside hquote hslash]
        decide
  | escaping =>
      show Mode.inside ≠ .outside
      decide

theorem next_plain (hmode : mode ≠ .outside) (hquote : c ≠ '"') (hslash : c ≠ '\\') :
    mode.next c = .inside := by
  cases mode with
  | outside => exact absurd rfl hmode
  | inside => exact next_inside hquote hslash
  | escaping => rfl

theorem literal_end : literal .inside ('"' :: rest) = [] := if_pos ⟨rfl, rfl⟩

theorem literal_cons (h : ¬(mode = .inside ∧ c = '"')) :
    literal mode (c :: rest) = c :: literal (mode.next c) rest := if_neg h

theorem literals_open :
    literals .outside ('"' :: rest) = literal .inside rest :: literals .inside rest :=
  if_pos ⟨rfl, rfl⟩

theorem literals_cons (h : ¬(mode = .outside ∧ c = '"')) :
    literals mode (c :: rest) = literals (mode.next c) rest := if_neg h

-- The insertions are between the literals.
theorem Inserted.literals_eq (h : Inserted mode original text) :
    literals mode text = literals mode original ∧
      (mode ≠ .outside → literal mode text = literal mode original) := by
  induction h with
  | nil => exact ⟨rfl, fun _ => rfl⟩
  | @keep mode c original text h ih =>
      constructor
      · by_cases hopen : mode = .outside ∧ c = '"'
        · obtain ⟨rfl, rfl⟩ := hopen
          have hliteral : literal .inside text = literal .inside original := ih.2 (by decide)
          have hliterals : literals .inside text = literals .inside original := ih.1
          rw [literals_open, literals_open, hliteral, hliterals]
        · rw [literals_cons hopen, literals_cons hopen, ih.1]
      · intro hmode
        by_cases hend : mode = .inside ∧ c = '"'
        · obtain ⟨rfl, rfl⟩ := hend
          rw [literal_end, literal_end]
        · rw [literal_cons hend, literal_cons hend, ih.2 (next_ne_outside hmode hend)]
  | @comma spaces original text hspaces hcloses h ih =>
      refine ⟨?_, fun hmode => absurd rfl hmode⟩
      have hskip : ∀ {spaces : List Char}, (∀ c ∈ spaces, isSpace c = true) →
          literals .outside (spaces ++ text) = literals .outside text := by
        intro spaces hspaces
        induction spaces with
        | nil => rfl
        | cons c spaces ih =>
            have hquote := (space_plain (hspaces c List.mem_cons_self)).1
            rw [List.cons_append, literals_cons (fun h => hquote h.2), next_outside hquote]
            exact ih fun c hc => hspaces c (List.mem_cons_of_mem _ hc)
      rw [literals_cons (by decide)]
      exact (hskip hspaces).trans ih.1

theorem closes_literal (text : List Char) : closes (literal .inside text) = closes text := by
  induction text with
  | nil => rfl
  | cons c rest ih =>
      by_cases hquote : c = '"'
      · subst hquote
        rw [literal_end]
        rfl
      · rw [literal_cons fun h => hquote h.2]
        cases hspace : isSpace c with
        | true =>
            have hslash : c ≠ '\\' := by
              rintro rfl
              cases hspace
            rw [next_inside hquote hslash, closes_space hspace, closes_space hspace, ih]
        | false => rw [closes_solid hspace, closes_solid hspace]

theorem free_inside_iff : Free (· ≠ .outside) mode text ↔
    (mode ≠ .outside → ¬HasTrailingComma (literal mode text)) ∧
      ∀ found ∈ literals mode text, ¬HasTrailingComma found := by
  induction text generalizing mode with
  | nil =>
      exact iff_of_true trivial
        ⟨fun _ => not_hasTrailingComma_nil, fun found h => by cases h⟩
  | cons c rest ih =>
      unfold Free
      rw [ih]
      by_cases hopen : mode = .outside ∧ c = '"'
      · obtain ⟨rfl, rfl⟩ := hopen
        rw [literals_open, List.forall_mem_cons]
        exact ⟨fun h => ⟨fun hmode => absurd rfl hmode, h.2.1 (by decide), h.2.2⟩,
          fun h => ⟨fun hmode => absurd rfl hmode, fun _ => h.2.1, h.2.2⟩⟩
      · rw [literals_cons hopen]
        by_cases hmode : mode = .outside
        · subst hmode
          have hquote : c ≠ '"' := fun h => hopen ⟨rfl, h⟩
          rw [next_outside hquote]
          simp
        · by_cases hend : mode = .inside ∧ c = '"'
          · obtain ⟨rfl, rfl⟩ := hend
            rw [literal_end]
            simp [Mode.next, not_hasTrailingComma_nil]
          · have hnext := next_ne_outside hmode hend
            rw [literal_cons hend, hasTrailingComma_cons, not_or, not_and, Bool.not_eq_true]
            have hcomma : c = ',' → closes (literal (mode.next c) rest) = closes rest := by
              rintro rfl
              rw [next_plain hmode (by decide) (by decide), closes_literal]
            constructor
            · intro h
              exact ⟨fun _ => ⟨fun hc => by rw [hcomma hc]; exact h.1 hmode hc, h.2.1 hnext⟩, h.2.2⟩
            · intro h
              exact ⟨fun _ hc => by rw [← hcomma hc]; exact (h.1 hmode).1 hc,
                fun _ => (h.1 hmode).2, h.2⟩

end Literals

section Recovery

variable {mode : Mode} {c : Char} {original text rest : List Char}
  {floatOf : List Char → BitVec 64} {v args : Json}

-- Characters that neither open nor close a string.
theorem literals_plain {used : List Char} (hused : ∀ c ∈ used, c ≠ '"' ∧ c ≠ '\\')
    (hmode : mode ≠ .escaping) : literals mode (used ++ rest) = literals mode rest := by
  induction used with
  | nil => rfl
  | cons c used ih =>
      obtain ⟨hquote, hslash⟩ := hused c List.mem_cons_self
      have hnext : mode.next c = mode := by
        cases mode with
        | outside => exact next_outside hquote
        | inside => exact next_inside hquote hslash
        | escaping => exact absurd rfl hmode
      rw [List.cons_append, literals_cons fun h => hquote h.2, hnext]
      exact ih fun c hc => hused c (List.mem_cons_of_mem _ hc)

theorem literal_plain {used : List Char} (hused : ∀ c ∈ used, c ≠ '"' ∧ c ≠ '\\') :
    literal .inside (used ++ rest) = used ++ literal .inside rest := by
  induction used with
  | nil => rfl
  | cons c used ih =>
      obtain ⟨hquote, hslash⟩ := hused c List.mem_cons_self
      rw [List.cons_append, literal_cons fun h => hquote h.2, next_inside hquote hslash,
        ih fun c hc => hused c (List.mem_cons_of_mem _ hc)]
      rfl

theorem space_unquoted (h : isSpace c = true) : c ≠ '"' ∧ c ≠ '\\' := by
  constructor <;> rintro rfl <;> cases h

-- A match is inside of one literal or between two.
theorem literals_match {spaces : List Char} (hspaces : ∀ c ∈ spaces, isSpace c = true)
    (hc : isClosing c = true) :
    literals mode (',' :: (spaces ++ c :: rest)) = literals mode (c :: rest) ∧
      (mode ≠ .outside → literal mode (',' :: (spaces ++ c :: rest)) =
        ',' :: (spaces ++ literal mode (c :: rest))) := by
  have hquote : c ≠ '"' := by
    rintro rfl
    cases hc
  have hslash : c ≠ '\\' := by
    rintro rfl
    cases hc
  have hplain : ∀ c ∈ spaces, c ≠ '"' ∧ c ≠ '\\' := fun c hc => space_unquoted (hspaces c hc)
  rw [literals_cons (fun h => by cases h.2), literals_cons fun h => hquote h.2]
  by_cases hmode : mode = .outside
  · subst hmode
    rw [next_outside (by decide), next_outside hquote, literals_plain hplain (by decide),
      literals_cons fun h => hquote h.2, next_outside hquote]
    exact ⟨rfl, fun h => absurd rfl h⟩
  · rw [next_plain hmode (by decide) (by decide), next_plain hmode hquote hslash,
      literals_plain hplain (by decide), literals_cons fun h => hquote h.2,
      next_inside hquote hslash]
    refine ⟨rfl, fun _ => ?_⟩
    rw [literal_cons (fun h => by cases h.2), literal_cons fun h => hquote h.2,
      next_plain hmode (by decide) (by decide), next_plain hmode hquote hslash,
      literal_plain hplain, literal_cons fun h => hquote h.2, next_inside hquote hslash]

-- Every literal is repaired by itself.
theorem literals_repair (mode : Mode) (text : List Char) :
    literals mode (repair text) = (literals mode text).map repair ∧
      (mode ≠ .outside → literal mode (repair text) = repair (literal mode text)) := by
  induction hn : text.length using Nat.strong_induction_on generalizing mode text with
  | _ n ih =>
      subst hn
      cases text with
      | nil => exact ⟨rfl, fun _ => rfl⟩
      | cons c rest =>
          by_cases hmatch : c = ',' ∧ closes rest = true
          · obtain ⟨rfl, hcloses⟩ := hmatch
            obtain ⟨bracket, after, hafter, hbracket⟩ := exists_of_closes hcloses
            have hspaces : ∀ c ∈ rest.takeWhile isSpace, isSpace c = true :=
              fun c hc => List.mem_takeWhile_imp hc
            have hrest : rest = rest.takeWhile isSpace ++ bracket :: after := by
              rw [← hafter, List.takeWhile_append_dropWhile]
            have hshort : (bracket :: after).length < (',' :: rest).length := by
              rw [← hafter]
              exact Nat.lt_succ_of_le (List.dropWhile_sublist _).length_le
            obtain ⟨hliterals, hliteral⟩ := ih _ hshort mode _ rfl
            obtain ⟨hsame, hsame'⟩ := @literals_match mode bracket after _ hspaces hbracket
            rw [← hrest] at hsame hsame'
            rw [repair_comma hcloses, hafter, hsame]
            refine ⟨hliterals, fun hmode => ?_⟩
            have hquote : bracket ≠ '"' := by
              rintro rfl
              cases hbracket
            have hsolid := isClosing_solid hbracket
            rw [hliteral hmode, hsame' hmode, literal_cons fun h => hquote h.2, repair_comma,
              List.dropWhile_append_of_pos hspaces,
              List.dropWhile_cons_of_neg (Bool.eq_false_iff.mp hsolid)]
            rw [closes_append hspaces, closes_solid hsolid, hbracket]
          · have hopen : c = ',' → closes rest = false := by simpa using hmatch
            obtain ⟨hliterals, hliteral⟩ := ih rest.length (by simp) (mode.next c) rest rfl
            rw [repair_other hopen]
            constructor
            · by_cases hquote : mode = .outside ∧ c = '"'
              · obtain ⟨rfl, rfl⟩ := hquote
                rw [literals_open, literals_open, List.map_cons]
                exact congrArg₂ _ (hliteral (by decide)) hliterals
              · rw [literals_cons hquote, literals_cons hquote, hliterals]
            · intro hmode
              by_cases hend : mode = .inside ∧ c = '"'
              · obtain ⟨rfl, rfl⟩ := hend
                rw [literal_end, literal_end]
                rfl
              · rw [literal_cons hend, literal_cons hend, hliteral (next_ne_outside hmode hend),
                  repair_other]
                rintro rfl
                rw [next_plain hmode (by decide) (by decide), closes_literal, hopen rfl]

-- What is recovered is the original value, and its strings are untouched, exactly if none of
-- them has a trailing comma itself.
theorem recovered_value_iff {inserted : List Char} (hvalue : loads floatOf original = some v)
    (hinserted : Inserted .outside original inserted)
    (hrecovered : parseArguments floatOf (some inserted) = .recovered args) :
    args = v ∧ literals .outside (repair inserted) = literals .outside original ↔
      ∀ found ∈ literals .outside original, ¬HasTrailingComma found := by
  have hrepaired : loads floatOf (repair inserted) = some args := by
    unfold parseArguments at hrecovered
    grind
  have hliterals : literals .outside (repair inserted) =
      (literals .outside original).map repair := by
    rw [(literals_repair .outside inserted).1, hinserted.literals_eq.1]
  constructor
  · rintro ⟨-, hsame⟩ found hfound
    rw [hliterals] at hsame
    have hself := List.map_inj_left.mp (hsame.trans (List.map_id _).symm) found hfound
    exact (repair_eq_self_iff found).mp hself
  · intro hfree
    have hinside : Free (· ≠ .outside) .outside original :=
      free_inside_iff.mpr ⟨fun hmode => absurd rfl hmode, hfree⟩
    have hthinner := hinserted.thinner (free_of_loads hvalue) hinside (free_of_loads hrepaired)
    refine ⟨loads_thinner hthinner hvalue hrepaired, ?_⟩
    have hself : ∀ found ∈ literals .outside original, repair found = id found :=
      fun found hfound => (repair_eq_self_iff found).mpr (hfree found hfound)
    rw [hliterals, List.map_congr_left hself, List.map_id]

theorem parseArguments_recovered {raw : List Char} (htrailing : ¬Free (· = .outside) .outside raw)
    (hraw : strip raw ≠ [] ∧ raw ≠ "{}".toList)
    (h : loads floatOf (repair raw) = some args) :
    parseArguments floatOf (some raw) = .recovered args := by
  have hnone : loads floatOf raw = none := by
    by_contra hsome
    obtain ⟨v, hv⟩ := Option.ne_none_iff_exists'.mp hsome
    exact htrailing (free_of_loads hv)
  unfold parseArguments
  rw [Option.bind_some, hnone]
  dsimp only [Option.getD_some]
  rw [if_pos hraw, h]

def noFloat (_ : List Char) : BitVec 64 := 0

-- The arguments of a call that writes a text.
def contentArgs (text : String) : Json := .obj [("content", .str text)]

theorem loads_contentArgs (text : String) :
    loads noFloat (dumps (fun _ => []) (contentArgs text)) = some (contentArgs text) :=
  loads_dumps ⟨List.nodup_singleton _, trivial, trivial⟩

theorem recovered_value_plain :
    contentArgs "a" = contentArgs "a" ∧
      literals .outside (repair "\x7b\"content\": \"a\",\n\x7d".toList) =
        literals .outside "\x7b\"content\": \"a\"\x7d".toList := by
  refine (recovered_value_iff (loads_contentArgs "a")
    (.keeps "\x7b\"content\": \"a\"".toList
      (.comma ['\n'] (List.forall_mem_singleton.mpr rfl) ?_ (.refl _ _)))
    (parseArguments_recovered ?_ ?_ (loads_contentArgs "a"))).mpr ?_
  all_goals decide

-- The comma and the bracket of the text that is to be written are taken for a trailing comma.
theorem recovered_text_changed :
    loads noFloat "\x7b\"content\": \"a,]\"\x7d".toList = some (contentArgs "a,]") ∧
    Inserted .outside "\x7b\"content\": \"a,]\"\x7d".toList "\x7b\"content\": \"a,]\",\x7d".toList ∧
    parseArguments noFloat (some "\x7b\"content\": \"a,]\",\x7d".toList) =
      .recovered (contentArgs "a]") ∧
    contentArgs "a]" ≠ contentArgs "a,]" := by
  refine ⟨loads_contentArgs "a,]", ?_, parseArguments_recovered ?_ ?_ (loads_contentArgs "a]"), ?_⟩
  · exact .keeps "\x7b\"content\": \"a,]\"".toList (.comma [] (List.forall_mem_nil _)
      (by decide) (.refl _ _))
  · decide
  · decide
  · simp [contentArgs]

end Recovery

end EvoClaw.AgentLoop.Arguments
