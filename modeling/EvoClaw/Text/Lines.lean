import EvoClaw.Json
import Mathlib.Data.List.Basic

namespace EvoClaw.Text

-- The characters at which str.splitlines cuts.
def isLineBreak (c : Char) : Bool :=
  let code := c.toNat
  (0x0a ≤ code ∧ code ≤ 0x0d) ∨ (0x1c ≤ code ∧ code ≤ 0x1e) ∨ code = 0x85 ∨ code = 0x2028 ∨
    code = 0x2029

-- `line` is what has been read of the current line, in reverse.
def linesFrom (line : List Char) : List Char → List (List Char)
  | [] => if line = [] then [] else [line.reverse]
  | '\r' :: '\n' :: rest => line.reverse :: linesFrom [] rest
  | c :: rest =>
      if isLineBreak c then line.reverse :: linesFrom [] rest else linesFrom (c :: line) rest

-- str.splitlines
def splitlines (text : List Char) : List (List Char) :=
  linesFrom [] text

-- `word` is what has been read of the current word, in reverse.
def wordsFrom (word : List Char) : List Char → List (List Char)
  | [] => if word = [] then [] else [word.reverse]
  | c :: rest =>
      if isSpace c then
        if word = [] then wordsFrom [] rest else word.reverse :: wordsFrom [] rest
      else wordsFrom (c :: word) rest

-- str.split()
def words (text : List Char) : List (List Char) :=
  wordsFrom [] text

-- "\n".join(lines) + "\n"
def joinLines (lines : List (List Char)) : List Char :=
  List.intercalate ['\n'] lines ++ ['\n']

example : splitlines "a\r\nb\n\nc".toList = ["a".toList, "b".toList, [], "c".toList] := by decide

section Lines

variable {line word before after rest : List Char}

theorem isSpace_of_isLineBreak {c : Char} (h : isLineBreak c = true) : isSpace c = true := by
  simp only [isLineBreak, isSpace, decide_eq_true_eq] at h ⊢
  omega

theorem wordsFrom_append (h : ∀ c ∈ before, isSpace c = false) :
    wordsFrom word (before ++ rest) = wordsFrom (before.reverse ++ word) rest := by
  induction before generalizing word with
  | nil => rfl
  | cons c before ih =>
      have hc : isSpace c = false := h c List.mem_cons_self
      rw [List.cons_append, wordsFrom, if_neg (by simp [hc]),
        ih fun d hd => h d (List.mem_cons_of_mem c hd)]
      simp

theorem words_cons (hne : word ≠ []) (hword : ∀ c ∈ word, isSpace c = false) :
    words (word ++ ' ' :: rest) = word :: words rest := by
  have hspace : isSpace ' ' = true := by decide
  rw [words, wordsFrom_append hword, List.append_nil, wordsFrom, if_pos hspace,
    if_neg (by simpa using hne), List.reverse_reverse]
  rfl

theorem words_singleton (hne : word ≠ []) (hword : ∀ c ∈ word, isSpace c = false) :
    words word = [word] := by
  have happend := @wordsFrom_append [] word [] hword
  rw [List.append_nil, List.append_nil] at happend
  rw [words, happend, wordsFrom, if_neg (by simpa using hne), List.reverse_reverse]

theorem linesFrom_cons {c : Char} (hc : isLineBreak c = false) :
    linesFrom word (c :: rest) = linesFrom (c :: word) rest := by
  rw [linesFrom.eq_def]
  split
  · cases rest <;> simp_all
  · rename_i heq
    obtain ⟨rfl, rfl⟩ := List.cons.inj heq
    exact absurd hc (by decide)
  · rename_i heq
    obtain ⟨rfl, rfl⟩ := List.cons.inj heq
    rw [if_neg (by simp [hc])]

theorem linesFrom_append (h : ∀ c ∈ line, isLineBreak c = false) :
    linesFrom word (line ++ rest) = linesFrom (line.reverse ++ word) rest := by
  induction line generalizing word with
  | nil => rfl
  | cons c line ih =>
      rw [List.cons_append, linesFrom_cons (h c List.mem_cons_self),
        ih fun d hd => h d (List.mem_cons_of_mem c hd)]
      simp

theorem linesFrom_newline : linesFrom word ('\n' :: rest) = word.reverse :: linesFrom [] rest := by
  rw [linesFrom.eq_def]
  rfl

theorem mem_linesFrom_cons {c : Char} (hne : line ≠ []) (h : ∀ word, line ∈ linesFrom word rest) :
    line ∈ linesFrom word (c :: rest) := by
  rw [linesFrom.eq_def]
  split
  · rename_i heq
    cases heq
  · -- the newline would end an empty line
    rename_i heq
    obtain ⟨rfl, rfl⟩ := List.cons.inj heq
    have hmem := h []
    rw [linesFrom_newline] at hmem
    exact List.mem_cons_of_mem _ ((List.mem_cons.mp hmem).resolve_left hne)
  · rename_i heq
    obtain ⟨rfl, rfl⟩ := List.cons.inj heq
    split
    · exact List.mem_cons_of_mem _ (h [])
    · exact h _

theorem mem_linesFrom_append (hne : line ≠ []) (h : ∀ word, line ∈ linesFrom word rest) :
    line ∈ linesFrom word (before ++ rest) := by
  induction before generalizing word with
  | nil => exact h word
  | cons c before ih => exact mem_linesFrom_cons hne fun _ => ih

-- What stands between two newlines and holds no other line break is a line.
theorem mem_splitlines {text : List Char} (hne : line ≠ [])
    (h : ∀ c ∈ line, isLineBreak c = false) (hmem : line ∈ text.splitOn '\n') :
    line ∈ splitlines text := by
  obtain ⟨above, below, hsplit⟩ := List.append_of_mem hmem
  have htext : List.intercalate ['\n'] (text.splitOn '\n') = text := List.intercalate_splitOn _
  rw [hsplit] at htext
  rw [← htext, splitlines]
  clear hmem hsplit htext
  have hreverse : line.reverse ≠ [] := by simpa using hne
  induction above with
  | nil =>
      cases below with
      | nil =>
          have hlast := @linesFrom_append line [] [] h
          rw [List.append_nil, List.append_nil] at hlast
          rw [List.nil_append, List.intercalate_singleton, hlast, linesFrom, if_neg hreverse,
            List.reverse_reverse]
          exact List.mem_singleton.mpr rfl
      | cons first below =>
          rw [List.nil_append, List.intercalate_cons_cons, List.append_assoc, List.singleton_append,
            linesFrom_append h, linesFrom_newline, List.append_nil, List.reverse_reverse]
          exact List.mem_cons_self
  | cons first above ih =>
      have hrest : above ++ line :: below ≠ [] := by simp
      rw [List.cons_append, List.intercalate_cons_of_ne_nil hrest, List.append_assoc,
        List.singleton_append]
      refine mem_linesFrom_append hne fun word => ?_
      rw [linesFrom_newline]
      exact List.mem_cons_of_mem _ ih

end Lines

end EvoClaw.Text
