import EvoClaw.AgentTools.Files
import EvoClaw.Greedy
import EvoClaw.Json
import EvoClaw.Ranking
import EvoClaw.Text.Blanks
import Mathlib.Data.List.ReduceOption
import Mathlib.Data.List.TakeWhile

-- MemoryStack of hot.py: the sections of a MEMORY.md that go into a prompt.
namespace EvoClaw.MemoryBus

open AgentTools (universalNewlines)
open Text

abbrev Section := List Char

def DEFAULT_BUDGET : Nat := 1200

def CHARS_PER_TOKEN : Nat := 4

section Patterns

-- The characters that \w matches.
variable (isWord : Char → Bool)

def isDigit (c : Char) : Bool :=
  (digitValue c).isSome

-- A letter of a pattern under re.IGNORECASE.
def letter (p c : Char) : Bool :=
  c.toLower = p ∨ (p = 'k' ∧ c = Char.ofNat 0x212a) ∨ (p = 's' ∧ c = Char.ofNat 0x17f) ∨
    (p = 'i' ∧ (c = Char.ofNat 0x130 ∨ c = Char.ofNat 0x131))

def literal (p c : Char) : Bool := c = p

-- What is left behind a match of these classes of characters, one after the other.
def matchClasses : List (Char → Bool) → List Char → Option (List Char)
  | [], text => some text
  | _ :: _, [] => none
  | p :: classes, c :: rest => if p c then matchClasses classes rest else none

-- Whether \b matches between two characters, or at an end of the text.
def wordBoundary (before after : Option Char) : Bool :=
  before.any isWord ≠ after.any isWord

-- \b(word|...)\b
def matchWord (words : List String) (before : Option Char) (text : List Char) : Bool :=
  words.any fun word =>
    match matchClasses (word.toList.map fun p => if p = ' ' then literal p else letter p) text with
    | none => false
    | some rest =>
        let last := text[word.length - 1]?
        wordBoundary isWord before text.head? && wordBoundary isWord last rest.head?

def IMPORTANCE_KEYWORDS : List String :=
  ["critical", "decision", "preference", "important", "urgent", "todo", "fixme"]

def RECENCY_WORDS : List String := ["today", "yesterday", "just now", "recently"]

-- \d{4}-\d{2}-\d{2}, and \d{1,2}/\d{1,2}/\d{2,4}
def DATES : List (List (Char → Bool)) :=
  let digits (n : Nat) := List.replicate n isDigit
  (digits 4 ++ [literal '-'] ++ digits 2 ++ [literal '-'] ++ digits 2) ::
    [1, 2].flatMap fun month => [1, 2].flatMap fun day => [2, 3, 4].map fun year =>
      digits month ++ [literal '/'] ++ digits day ++ [literal '/'] ++ digits year

def matchTimestamp (before : Option Char) (text : List Char) : Bool :=
  (DATES.any fun date => (matchClasses date text).isSome) ||
    matchWord isWord RECENCY_WORDS before text

-- pattern.search(text), where `before` stands in front of the text.
def search (pattern : Option Char → List Char → Bool) (before : Option Char) : List Char → Bool
  | [] => pattern before []
  | c :: rest => pattern before (c :: rest) || search pattern (some c) rest

-- (?m)^##\s|^---\s*$ at the beginning of a line
def opensSection (text : List Char) : Bool :=
  match text with
  | '#' :: '#' :: c :: _ => isSpace c
  | '-' :: '-' :: '-' :: rest =>
      let blank := rest.takeWhile isSpace
      '\n' ∈ blank ∨ rest.drop blank.length = []
  | _ => false

end Patterns

-- re.split in front of every line that opens a section.
def splitParts (lineStart : Bool) : List Char → List Section
  | [] => [[]]
  | c :: rest =>
      let parts := (splitParts (c = '\n') rest).modifyHead (c :: ·)
      if lineStart && opensSection (c :: rest) then [] :: parts else parts

-- _split_sections
def splitSections (text : List Char) : List Section :=
  (splitParts true text).filter fun part => strip part ≠ []

-- _score_section
def scoreSection (isWord : Char → Bool) (text : Section) : ℚ :=
  let score : ℚ := 1 / 2
  let score := if search (matchTimestamp isWord) none text then max score (7 / 10) else score
  if search (matchWord isWord IMPORTANCE_KEYWORDS) none text then max score (9 / 10) else score

-- The loop over the scored sections: what it selects, and how much it uses.
def selectSections (charBudget : Nat) (scored : List Section) : List Section × Nat :=
  scored.foldl (fun (selected, used) part =>
    let cost := part.length + 1
    if charBudget < used + cost then (selected, used) else (selected ++ [part], used + cost)) ([], 0)

-- The sections of the text in document order that are in the selection.
def originalOrder (isWord : Char → Bool) (raw : List Char) (tokenBudget : Nat) : List Section :=
  let sections := splitSections raw
  let scored := Ranking.byScore (scoreSection isWord) sections
  let selected := (selectSections (tokenBudget * CHARS_PER_TOKEN) scored).1
  sections.filter selected.contains

-- What open(path, encoding="utf-8", errors="ignore") reads.
def readIgnoring (bytes : List UInt8) : List Char :=
  universalNewlines (Utf8.scan bytes).reduceOption

-- wake_up. There is no file where it cannot be read.
def wakeUp (isWord : Char → Bool) (file : Option (List UInt8)) (tokenBudget : Nat) : List Char :=
  match file.map readIgnoring with
  | none => []
  | some raw =>
      if strip raw = [] then []
      else ['\n'].intercalate (originalOrder isWord raw tokenBudget)

section Sections

variable {isWord : Char → Bool} {raw : List Char} {parts : List Section}

theorem splitParts_ne_nil (lineStart : Bool) (text : List Char) : splitParts lineStart text ≠ [] := by
  induction text generalizing lineStart with
  | nil => exact List.cons_ne_nil _ _
  | cons c rest ih =>
      rw [splitParts]
      split
      · exact List.cons_ne_nil _ _
      · simpa using ih (c = '\n')

-- The parts are the text, cut into pieces.
theorem flatten_splitParts (lineStart : Bool) (text : List Char) :
    (splitParts lineStart text).flatten = text := by
  induction text generalizing lineStart with
  | nil => rfl
  | cons c rest ih =>
      have hrest := ih (c = '\n')
      obtain ⟨part, parts, hparts⟩ := List.exists_cons_of_ne_nil (splitParts_ne_nil (c = '\n') rest)
      rw [hparts, List.flatten_cons] at hrest
      rw [splitParts, hparts, List.modifyHead_cons]
      split
      · rw [List.flatten_cons, List.flatten_cons, List.nil_append, List.cons_append, hrest]
      · rw [List.flatten_cons, List.cons_append, hrest]

theorem splitSections_blank (h : strip raw = []) : splitSections raw = [] := by
  refine List.filter_eq_nil_iff.mpr fun part hpart => ?_
  have hblank : strip part = [] := by
    refine strip_eq_nil_iff.mpr fun c hc => strip_eq_nil_iff.mp h c ?_
    rw [← flatten_splitParts true raw]
    exact List.mem_flatten_of_mem hpart hc
  simp [hblank]

theorem wakeUp_eq (bytes : List UInt8) (tokenBudget : Nat) :
    wakeUp isWord (some bytes) tokenBudget =
      ['\n'].intercalate (originalOrder isWord (readIgnoring bytes) tokenBudget) := by
  rw [wakeUp, Option.map_some]
  dsimp only
  split
  · rename_i hblank
    rw [originalOrder, splitSections_blank hblank]
    rfl
  · rfl

end Sections

section Budget

open Greedy

variable (isWord : Char → Bool) (bytes : List UInt8) (tokenBudget : Nat)

-- What a section takes of the budget, with the newline behind it.
def cost (part : Section) : Nat := part.length + 1

def sectionsOf : List Section := splitSections (readIgnoring bytes)

def keptSections : List Section := originalOrder isWord (readIgnoring bytes) tokenBudget

def charBudget : Nat := tokenBudget * CHARS_PER_TOKEN

-- Some of the sections in their order, within the budget, and no other one fits in anywhere.
structure FillsBudget : Prop where
  joined : wakeUp isWord (some bytes) tokenBudget =
    ['\n'].intercalate (keptSections isWord bytes tokenBudget)
  ordered : (keptSections isWord bytes tokenBudget).Sublist (sectionsOf bytes)
  bounded : (wakeUp isWord (some bytes) tokenBudget).length ≤ charBudget tokenBudget
  full : ∀ part ∈ sectionsOf bytes, part ∉ keptSections isWord bytes tokenBudget →
    ∀ more : List Section, more.Perm (part :: keptSections isWord bytes tokenBudget) →
      charBudget tokenBudget < (['\n'].intercalate more).length

def scoredSections : List Section :=
  Ranking.byScore (scoreSection isWord) (sectionsOf bytes)

-- In the order of the scores: the sections that the budget still has room for, each with a
-- newline, and those that are passed over.
def chosen : List Section := taken cost (charBudget tokenBudget) 0 (scoredSections isWord bytes)

def skipped : List Section := passed cost (charBudget tokenBudget) 0 (scoredSections isWord bytes)

-- No section is passed over that is the same as a chosen one, or that only lacks the room for
-- a newline in the end. Or there is one of the first kind, which is of the second kind as well.
def SkipsCleanly : Prop :=
  (∀ part ∈ skipped isWord bytes tokenBudget, part ∉ chosen isWord bytes tokenBudget ∧
    total cost (chosen isWord bytes tokenBudget) + part.length ≠ charBudget tokenBudget) ∨
  ∃ part, (skipped isWord bytes tokenBudget).filter (chosen isWord bytes tokenBudget).contains = [part] ∧
    total cost (chosen isWord bytes tokenBudget) + part.length = charBudget tokenBudget

variable {isWord bytes tokenBudget}

theorem length_intercalate (parts : List Section) :
    (['\n'].intercalate parts).length = total cost parts - 1 := by
  induction parts with
  | nil => rfl
  | cons part rest ih =>
      cases rest with
      | nil => simp [cost]
      | cons next rest =>
          rw [List.intercalate_cons_cons, List.length_append, List.length_append, ih, @total_cons _ cost part]
          simp only [total_cons, cost, List.length_singleton]
          omega

theorem selectSections_eq (budget : Nat) (scored : List Section) :
    (selectSections budget scored).1 = taken cost budget 0 scored := by
  exact congrArg Prod.fst (foldl_eq [])

theorem keptSections_eq :
    keptSections isWord bytes tokenBudget =
      (sectionsOf bytes).filter (chosen isWord bytes tokenBudget).contains := by
  rw [keptSections, originalOrder, selectSections_eq]
  rfl

theorem chosen_skipped_perm :
    (chosen isWord bytes tokenBudget ++ skipped isWord bytes tokenBudget).Perm (sectionsOf bytes) :=
  taken_passed_perm.trans (List.mergeSort_perm _ _)

-- Copies of chosen sections are kept as well.
theorem total_kept (isWord : Char → Bool) (bytes : List UInt8) (tokenBudget : Nat) :
    total cost (keptSections isWord bytes tokenBudget) =
      total cost (chosen isWord bytes tokenBudget) +
        total cost ((skipped isWord bytes tokenBudget).filter (chosen isWord bytes tokenBudget).contains) := by
  rw [keptSections_eq, ← total_perm (chosen_skipped_perm.filter _), List.filter_append, total_append,
    List.filter_eq_self.mpr fun part hpart => List.contains_iff_mem.mpr hpart]

theorem mem_kept {part : Section} (hpart : part ∈ sectionsOf bytes) :
    part ∈ keptSections isWord bytes tokenBudget ↔ part ∈ chosen isWord bytes tokenBudget := by
  rw [keptSections_eq, List.mem_filter, and_iff_right hpart, List.contains_iff_mem]

theorem chosen_le (isWord : Char → Bool) (bytes : List UInt8) (tokenBudget : Nat) :
    total cost (chosen isWord bytes tokenBudget) ≤ charBudget tokenBudget := by
  have hle : 0 + total cost (chosen isWord bytes tokenBudget) ≤ charBudget tokenBudget :=
    taken_le (Nat.zero_le _)
  rwa [Nat.zero_add] at hle

theorem skipped_lt {part : Section} (h : part ∈ skipped isWord bytes tokenBudget) :
    charBudget tokenBudget < total cost (chosen isWord bytes tokenBudget) + part.length + 1 := by
  have hlt := passed_lt h
  rwa [Nat.zero_add] at hlt

theorem length_with {part : Section} {more : List Section}
    (h : more.Perm (part :: keptSections isWord bytes tokenBudget)) :
    (['\n'].intercalate more).length =
      total cost (keptSections isWord bytes tokenBudget) + part.length := by
  rw [length_intercalate, total_perm h, total_cons, cost]
  omega

theorem length_wakeUp (isWord : Char → Bool) (bytes : List UInt8) (tokenBudget : Nat) :
    (wakeUp isWord (some bytes) tokenBudget).length =
      total cost (keptSections isWord bytes tokenBudget) - 1 := by
  rw [wakeUp_eq]
  exact length_intercalate _

theorem FillsBudget.skipsCleanly (h : FillsBudget isWord bytes tokenBudget) :
    SkipsCleanly isWord bytes tokenBudget := by
  have hkept := total_kept isWord bytes tokenBudget
  have hbounded := h.bounded
  rw [length_wakeUp, hkept] at hbounded
  cases hcopies : (skipped isWord bytes tokenBudget).filter
      (chosen isWord bytes tokenBudget).contains with
  | nil =>
      left
      intro part hpart
      have hnew : part ∉ chosen isWord bytes tokenBudget := by
        simpa using List.filter_eq_nil_iff.mp hcopies part hpart
      have hmem : part ∈ sectionsOf bytes :=
        chosen_skipped_perm.subset (List.mem_append_right _ hpart)
      refine ⟨hnew, Nat.ne_of_gt ?_⟩
      have hfull := h.full part hmem (fun hin => hnew ((mem_kept hmem).mp hin)) _ (List.Perm.refl _)
      rwa [length_with (List.Perm.refl _), hkept, hcopies, total_nil, Nat.add_zero] at hfull
  | cons part rest =>
      right
      have hpart : part ∈ skipped isWord bytes tokenBudget := by
        have hmem : part ∈ (skipped isWord bytes tokenBudget).filter
            (chosen isWord bytes tokenBudget).contains := hcopies ▸ List.mem_cons_self
        exact (List.mem_filter.mp hmem).1
      have hlt := skipped_lt hpart
      rw [hcopies, total_cons, cost] at hbounded
      -- two copies would be too much
      cases rest with
      | nil =>
          refine ⟨part, hcopies, ?_⟩
          rw [total_nil] at hbounded
          omega
      | cons other rest =>
          rw [total_cons, cost] at hbounded
          omega

theorem SkipsCleanly.fillsBudget (h : SkipsCleanly isWord bytes tokenBudget) :
    FillsBudget isWord bytes tokenBudget := by
  have hkept := total_kept isWord bytes tokenBudget
  have hle := chosen_le isWord bytes tokenBudget
  refine ⟨wakeUp_eq bytes tokenBudget, keptSections_eq ▸ List.filter_sublist, ?_, ?_⟩
  · rw [length_wakeUp, hkept]
    obtain hclean | ⟨part, hcopies, hexact⟩ := h
    · have hcopies : (skipped isWord bytes tokenBudget).filter
          (chosen isWord bytes tokenBudget).contains = [] :=
        List.filter_eq_nil_iff.mpr fun part hpart => by simpa using (hclean part hpart).1
      rw [hcopies, total_nil]
      omega
    · rw [hcopies, total_cons, total_nil, cost]
      omega
  · intro part hmem hout more hmore
    have hnew : part ∉ chosen isWord bytes tokenBudget := fun hin => hout ((mem_kept hmem).mpr hin)
    rw [length_with hmore, hkept]
    obtain hclean | ⟨copy, hcopies, hexact⟩ := h
    · have hpart : part ∈ skipped isWord bytes tokenBudget :=
        (List.mem_append.mp (chosen_skipped_perm.symm.subset hmem)).resolve_left hnew
      have hlt := skipped_lt hpart
      have hne := (hclean part hpart).2
      omega
    · rw [hcopies, total_cons, total_nil, cost]
      omega

-- The sections fill the budget if and only if the loop skips cleanly.
theorem fillsBudget_iff (isWord : Char → Bool) (bytes : List UInt8) (tokenBudget : Nat) :
    FillsBudget isWord bytes tokenBudget ↔ SkipsCleanly isWord bytes tokenBudget :=
  ⟨FillsBudget.skipsCleanly, SkipsCleanly.fillsBudget⟩

def asciiWord (c : Char) : Bool :=
  c.isAlphanum || c = '_'

def twin : Section := "## Tea\nmilk\n".toList

theorem sectionsOf_twins : sectionsOf (Utf8.encode (twin ++ twin)) = [twin, twin] := by
  rw [sectionsOf, readIgnoring, Utf8.scan_encode]
  decide

-- There is room for one of two equal sections. Both are kept.
theorem twins_exceed_budget : ¬ FillsBudget asciiWord (Utf8.encode (twin ++ twin)) 4 := by
  intro h
  have hscored : scoredSections asciiWord (Utf8.encode (twin ++ twin)) = [twin, twin] := by
    have hperm : (scoredSections asciiWord (Utf8.encode (twin ++ twin))).Perm
        (List.replicate 2 twin) := by
      rw [scoredSections, sectionsOf_twins]
      exact List.mergeSort_perm _ _
    exact List.perm_replicate.mp hperm
  have hchosen : chosen asciiWord (Utf8.encode (twin ++ twin)) 4 = [twin] := by
    rw [chosen, hscored]
    decide
  have hbounded := h.bounded
  rw [h.joined, keptSections_eq, sectionsOf_twins, hchosen] at hbounded
  exact absurd hbounded (by decide)

end Budget

end EvoClaw.MemoryBus
