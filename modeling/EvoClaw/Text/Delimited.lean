import EvoClaw.Text.Search

-- Texts in which an opening and a closing word mark blocks.
namespace EvoClaw.Text

section Headed

variable {α : Type*} {head : α} {word other before after left right : List α}

-- The first character of the word does not come again in it, so that two such words do not
-- overlap.
def Headed (head : α) (word : List α) : Prop := ∃ tail, word = head :: tail ∧ head ∉ tail

theorem Headed.ne_nil (h : Headed head word) : word ≠ [] := by
  obtain ⟨tail, rfl, -⟩ := h
  exact List.cons_ne_nil head tail

theorem skip_of_notMem (h : head ∉ left) (heq : left ++ right = before ++ head :: after) :
    ∃ between, before = left ++ between ∧ right = between ++ head :: after := by
  rcases List.append_eq_append_iff.mp heq with ⟨between, hbefore, hright⟩ | ⟨between, hleft, hafter⟩
  · exact ⟨between, hbefore, hright⟩
  · cases between with
    | nil => exact ⟨[], by simpa using hleft.symm, by simpa using hafter.symm⟩
    | cons c between =>
        cases hafter
        rw [hleft] at h
        simp at h

-- What is joined by a separator that the first parts do not have in them.
theorem parts_of_notMem (hleft : head ∉ left) (hbefore : head ∉ before)
    (heq : left ++ head :: right = before ++ head :: after) : left = before ∧ right = after := by
  obtain ⟨between, rfl, hright⟩ := skip_of_notMem hleft heq
  cases between with
  | nil => exact ⟨(List.append_nil left).symm, (List.cons.inj hright).2⟩
  | cons c between =>
      cases hright
      exact absurd (by simp) hbefore

-- An occurrence lies on one side of a place at which the first character stands.
theorem Headed.side (hword : Headed head word)
    (heq : left ++ head :: right = before ++ (word ++ after)) :
    (∃ between, left = before ++ (word ++ between)) ∨
      ∃ between, before = left ++ between ∧ head :: right = between ++ (word ++ after) := by
  obtain ⟨tail, rfl, htail⟩ := hword
  rcases List.append_eq_append_iff.mp heq with ⟨between, hbefore, hright⟩ | ⟨between, hleft, hafter⟩
  · exact Or.inr ⟨between, hbefore, hright⟩
  · cases between with
    | nil => exact Or.inr ⟨[], by simpa using hleft.symm, by simpa using hafter.symm⟩
    | cons c between =>
        simp only [List.cons_append, List.cons.injEq] at hafter
        obtain ⟨rfl, hafter⟩ := hafter
        obtain ⟨rest, rfl, -⟩ := skip_of_notMem htail hafter
        exact Or.inl ⟨rest, by simpa using hleft⟩

-- An occurrence lies before another word, or begins with it, or lies behind it.
theorem Headed.around (hword : Headed head word) (hother : Headed head other)
    (heq : left ++ (other ++ right) = before ++ (word ++ after)) :
    (∃ between, left = before ++ (word ++ between)) ∨
      (before = left ∧ other ++ right = word ++ after) ∨
      ∃ between, before = left ++ (other ++ between) ∧ right = between ++ (word ++ after) := by
  obtain ⟨tail, rfl, htail⟩ := hother
  rcases hword.side (show left ++ head :: (tail ++ right) = _ from heq) with hleft | hright
  · exact Or.inl hleft
  · obtain ⟨between, rfl, hbehind⟩ := hright
    obtain ⟨wordTail, rfl, -⟩ := hword
    cases between with
    | nil => exact Or.inr (Or.inl ⟨by simp, hbehind⟩)
    | cons c between =>
        simp only [List.cons_append, List.cons.injEq] at hbehind
        obtain ⟨rfl, hbehind⟩ := hbehind
        obtain ⟨rest, rfl, hrest⟩ := skip_of_notMem htail hbehind
        exact Or.inr (Or.inr ⟨rest, by simp, hrest⟩)

theorem Headed.not_infix_append (hword : Headed head word) (h : ¬ word <:+: before)
    (hafter : ¬ word <:+: head :: after) : ¬ word <:+: before ++ head :: after := by
  rintro ⟨left, right, heq⟩
  rw [List.append_assoc] at heq
  rcases hword.side heq.symm with ⟨between, hbefore⟩ | ⟨between, -, hbehind⟩
  · exact h ⟨left, between, by rw [hbefore, List.append_assoc]⟩
  · exact hafter ⟨between, right, by rw [hbehind, List.append_assoc]⟩

-- Two words that mark the begin and the end, of which neither is the begin of the other.
structure Delimiters (head : α) (opening closing : List α) : Prop where
  opening_headed : Headed head opening
  closing_headed : Headed head closing
  opening_not_prefix : ¬ opening <+: closing
  closing_not_prefix : ¬ closing <+: opening

theorem Delimiters.append_ne {opening closing : List α} (h : Delimiters head opening closing)
    (left right : List α) : opening ++ left ≠ closing ++ right := by
  intro heq
  have hopening : opening <+: closing ++ right := ⟨left, heq⟩
  rcases List.prefix_or_prefix_of_prefix hopening (List.prefix_append closing right) with h' | h'
  · exact h.opening_not_prefix h'
  · exact h.closing_not_prefix h'

end Headed

section Blocks

variable {α : Type*} {head : α} {opening closing left right before after : List α}

-- A block begins here.
def BlockBegins (opening closing text : List α) : Prop :=
  opening <+: text ∧ closing <:+: text.drop opening.length

def HasBlock (opening closing text : List α) : Prop :=
  ∃ before body after, text = before ++ (opening ++ (body ++ (closing ++ after)))

-- Each opening word is closed.
def Settled (opening closing text : List α) : Prop :=
  ∀ before after, text = before ++ (opening ++ after) → closing <:+: after

-- The opening and closing words pair up.
inductive Balanced (opening closing : List α) : List α → Prop
  | plain {text : List α} : ¬ opening <:+: text → ¬ closing <:+: text →
      Balanced opening closing text
  | block {before body after : List α} : ¬ opening <:+: before → ¬ closing <:+: before →
      Balanced opening closing body → Balanced opening closing after →
      Balanced opening closing (before ++ (opening ++ (body ++ (closing ++ after))))

-- Blocks, one after the other.
inductive Blocks (opening closing : List α) : List α → Prop
  | nil : Blocks opening closing []
  | cons {body rest : List α} : ¬ closing <:+: body → Blocks opening closing rest →
      Blocks opening closing (opening ++ (body ++ (closing ++ rest)))

-- The word, with blocks between its characters.
inductive Spread (opening closing : List α) : List α → List α → Prop
  | last (c : α) : Spread opening closing [c] [c]
  | cons {blocks word text : List α} (c : α) : Blocks opening closing blocks →
      Spread opening closing word text → Spread opening closing (c :: word) (c :: (blocks ++ text))

-- An opening word that is broken by blocks, and a closing word behind it that may be.
def JoinsBlock (opening closing text : List α) : Prop :=
  ∃ before broken between last after,
    text = before ++ (broken ++ (between ++ (last ++ after))) ∧
    Settled opening closing before ∧ Spread opening closing opening broken ∧ broken ≠ opening ∧
    Settled opening closing between ∧ Spread opening closing closing last

theorem Balanced.not_opening {text : List α} (h : Balanced opening closing text)
    (hclosing : ¬ closing <:+: text) : ¬ opening <:+: text := by
  cases h with
  | plain hopening _ => exact hopening
  | @block before body after =>
      exact absurd ⟨before ++ (opening ++ body), after, by simp⟩ hclosing

theorem Balanced.not_closing {text : List α} (h : Balanced opening closing text)
    (hopening : ¬ opening <:+: text) : ¬ closing <:+: text := by
  cases h with
  | plain _ hclosing => exact hclosing
  | @block before body after =>
      exact absurd ⟨before, body ++ (closing ++ after), by simp⟩ hopening

theorem Balanced.last_closing {text : List α} (h : Balanced opening closing text)
    (hclosing : closing <:+: text) :
    ∃ before after, text = before ++ (closing ++ after) ∧ ¬ opening <:+: after := by
  induction h with
  | plain _ hnone => exact absurd hclosing hnone
  | @block before body after _ _ _ hafter _ ih =>
      by_cases hlater : closing <:+: after
      · obtain ⟨left, right, heq, hright⟩ := ih hlater
        exact ⟨before ++ (opening ++ (body ++ (closing ++ left))), right, by simp [heq], hright⟩
      · exact ⟨before ++ (opening ++ body), after, by simp, hafter.not_opening hlater⟩

theorem Delimiters.settled_of_closing (h : Delimiters head opening closing)
    (hafter : Settled opening closing after) (before : List α) :
    Settled opening closing (before ++ (closing ++ after)) := by
  intro left right heq
  rcases h.opening_headed.around h.closing_headed heq with
    ⟨between, hbefore⟩ | ⟨-, hsame⟩ | ⟨between, -, hbehind⟩
  · have hright : between ++ (closing ++ after) = right := by
      rw [hbefore] at heq
      simpa using heq
    exact ⟨between, after, by rw [List.append_assoc, hright]⟩
  · exact absurd hsame.symm (h.append_ne _ _)
  · exact hafter between right hbehind

theorem settled_of_not_opening {text : List α} (h : ¬ opening <:+: text) :
    Settled opening closing text :=
  fun before after heq => absurd ⟨before, after, by rw [heq, List.append_assoc]⟩ h

theorem Blocks.eq_nil_or_cons (h : Delimiters head opening closing) {blocks : List α}
    (hblocks : Blocks opening closing blocks) : blocks = [] ∨ ∃ rest, blocks = head :: rest := by
  cases hblocks with
  | nil => exact Or.inl rfl
  | cons _ _ =>
      obtain ⟨tail, rfl, -⟩ := h.opening_headed
      exact Or.inr ⟨_, rfl⟩

-- A word with which a broken one begins ends before the first block.
theorem Spread.begins_with (h : Delimiters head opening closing) {word broken other rest : List α}
    (hspread : Spread opening closing word broken) (hother : head ∉ other.tail)
    (hbegins : other <+: broken ++ rest) :
    (∃ d more, word = other ++ d :: more) ∨ broken = word := by
  induction hspread generalizing other with
  | last c => exact Or.inr rfl
  | @cons blocks word text c hblocks hspread ih =>
      cases other with
      | nil => exact Or.inl ⟨c, word, rfl⟩
      | cons d other =>
          rw [List.cons_append, List.cons_prefix_cons] at hbegins
          obtain ⟨rfl, hbegins⟩ := hbegins
          rw [List.tail_cons] at hother
          rcases hblocks.eq_nil_or_cons h with rfl | ⟨behind, rfl⟩
          · have htail : head ∉ other.tail := fun hmem => hother (List.mem_of_mem_tail hmem)
            rcases ih htail hbegins with ⟨e, more, rfl⟩ | rfl
            · exact Or.inl ⟨e, more, rfl⟩
            · exact Or.inr rfl
          · cases other with
            | nil =>
                cases hspread with
                | last e => exact Or.inl ⟨e, [], rfl⟩
                | cons e _ _ => exact Or.inl ⟨e, _, rfl⟩
            | cons e other =>
                rw [List.cons_append, List.cons_append, List.cons_prefix_cons] at hbegins
                rw [hbegins.1] at hother
                simp at hother

theorem Spread.eq_cons {word broken : List α} (hspread : Spread opening closing word broken)
    (hword : Headed head word) : ∃ rest, broken = head :: rest := by
  obtain ⟨tail, rfl, -⟩ := hword
  cases hspread with
  | last c => exact ⟨[], rfl⟩
  | cons c _ _ => exact ⟨_, rfl⟩

theorem blockBegins_block (opening body closing after : List α) :
    BlockBegins opening closing (opening ++ (body ++ (closing ++ after))) := by
  refine ⟨List.prefix_append opening _, ?_⟩
  rw [List.drop_left]
  exact ⟨body, after, List.append_assoc body closing after⟩

-- The cases of the search: the end, a block, and a character outside the blocks.
theorem Delimiters.scan_induction {motive : List α → Prop} (h : Delimiters head opening closing)
    (nil : motive [])
    (block : ∀ body rest, ¬ closing <:+: body → motive rest →
      motive (opening ++ (body ++ (closing ++ rest))))
    (char : ∀ c rest, ¬ BlockBegins opening closing (c :: rest) → motive rest →
      motive (c :: rest))
    (text : List α) : motive text := by
  induction hn : text.length using Nat.strong_induction_on generalizing text with
  | _ n ih =>
      subst hn
      cases text with
      | nil => exact nil
      | cons c rest =>
          by_cases hbegins : BlockBegins opening closing (c :: rest)
          · obtain ⟨⟨behind, hbehind⟩, hinfix⟩ := hbegins
            rw [← hbehind, List.drop_left] at hinfix
            obtain ⟨body, after, rfl, hfirst⟩ : ∃ body after,
                behind = body ++ (closing ++ after) ∧ ¬ closing <:+: body :=
              exists_first h.closing_headed.ne_nil hinfix
            rw [← hbehind]
            refine block body after hfirst (ih after.length ?_ after rfl)
            have hpos := List.length_pos_iff.mpr h.opening_headed.ne_nil
            rw [← hbehind]
            simp only [List.length_append]
            omega
          · exact char c rest hbegins (ih rest.length (by simp) rest rfl)

theorem Delimiters.first_closing {body before left right : List α} (h : Delimiters head opening closing)
    (hbody : ¬ closing <:+: body) (hbefore : ¬ closing <:+: before)
    (heq : body ++ (closing ++ left) = before ++ (closing ++ right)) :
    body = before ∧ left = right := by
  rcases h.closing_headed.around h.closing_headed heq with
    ⟨between, hbetween⟩ | ⟨hsame, hrest⟩ | ⟨between, hbetween, -⟩
  · exact absurd ⟨before, between, by rw [hbetween, List.append_assoc]⟩ hbody
  · exact ⟨hsame.symm, List.append_cancel_left hrest⟩
  · exact absurd ⟨body, between, by rw [hbetween, List.append_assoc]⟩ hbefore

end Blocks

end EvoClaw.Text
