import EvoClaw.Text.Lines
import Mathlib.Data.List.Induction

-- How str.splitlines goes through a text that is put together from lines.
namespace EvoClaw.Text

variable {word line text before rest : List Char} {c : Char}

-- The text before a line begins.
def EndsLine (text : List Char) : Prop :=
  text = [] ∨ ∃ before c, text = before ++ [c] ∧ isLineBreak c = true

-- Lines end with newlines and nothing else.
def Unixy (text : List Char) : Prop :=
  ∀ c ∈ text, isLineBreak c = true → c = '\n'

instance : DecidablePred Unixy := fun text =>
  List.decidableBAll _ text

theorem none_of_all {p : Char → Bool} (h : text.all (fun c => ! p c) = true) :
    ∀ c ∈ text, p c = false := by
  intro c hc
  simpa using List.all_eq_true.mp h c hc

theorem linesFrom_nil : linesFrom word [] = if word = [] then [] else [word.reverse] := by
  rw [linesFrom]

theorem linesFrom_crlf : linesFrom word ('\r' :: '\n' :: rest) = word.reverse :: linesFrom [] rest := by
  rw [linesFrom.eq_def]
  rfl

theorem linesFrom_break (hc : isLineBreak c = true) (hrest : c = '\r' → rest.head? ≠ some '\n') :
    linesFrom word (c :: rest) = word.reverse :: linesFrom [] rest := by
  rw [linesFrom.eq_def]
  split
  · next heq => cases heq
  · next heq =>
      obtain ⟨rfl, rfl⟩ := List.cons.inj heq
      exact absurd rfl (hrest rfl)
  · next heq =>
      obtain ⟨rfl, rfl⟩ := List.cons.inj heq
      rw [if_pos hc]

-- A line break ends what stands before it, unless it is the first half of a CR LF.
theorem linesFrom_append_break (hc : isLineBreak c = true)
    (hrest : c = '\r' → rest.head? ≠ some '\n') :
    linesFrom word (before ++ c :: rest) = linesFrom word (before ++ [c]) ++ linesFrom [] rest := by
  have hbreak (word : List Char) :
      linesFrom word (c :: rest) = linesFrom word [c] ++ linesFrom [] rest := by
    rw [linesFrom_break hc hrest, linesFrom_break hc (by simp)]
    rfl
  induction before using List.twoStepInduction generalizing word with
  | nil => exact hbreak word
  | singleton x =>
      by_cases hcrlf : x = '\r' ∧ c = '\n'
      · obtain ⟨rfl, rfl⟩ := hcrlf
        rw [List.singleton_append, List.singleton_append, linesFrom_crlf, linesFrom_crlf]
        rfl
      by_cases hx : isLineBreak x = true
      · have hnot : x = '\r' → c ≠ '\n' := fun hx hc => hcrlf ⟨hx, hc⟩
        rw [List.singleton_append, List.singleton_append, linesFrom_break hx (by simpa using hnot),
          linesFrom_break hx (by simpa using hnot), hbreak]
        rfl
      · rw [Bool.not_eq_true] at hx
        rw [List.singleton_append, List.singleton_append, linesFrom_cons hx, linesFrom_cons hx]
        exact hbreak _
  | cons_cons x y before ih ih' =>
      simp only [List.cons_append] at ih' ⊢
      by_cases hcrlf : x = '\r' ∧ y = '\n'
      · obtain ⟨rfl, rfl⟩ := hcrlf
        rw [linesFrom_crlf, linesFrom_crlf, ih]
        rfl
      by_cases hx : isLineBreak x = true
      · have hnot : x = '\r' → y ≠ '\n' := fun hx hy => hcrlf ⟨hx, hy⟩
        rw [linesFrom_break hx (by simpa using hnot), linesFrom_break hx (by simpa using hnot), ih']
        rfl
      · rw [Bool.not_eq_true] at hx
        rw [linesFrom_cons hx, linesFrom_cons hx, ih']

theorem splitlines_append (h : EndsLine text) (hrest : rest.head? ≠ some '\n') :
    splitlines (text ++ rest) = splitlines text ++ splitlines rest := by
  obtain rfl | ⟨before, c, rfl, hc⟩ := h
  · rfl
  · rw [List.append_assoc, List.singleton_append]
    exact linesFrom_append_break hc fun _ => hrest

theorem splitlines_append_newline (text rest : List Char) :
    splitlines (text ++ '\n' :: rest) = splitlines (text ++ ['\n']) ++ splitlines rest :=
  linesFrom_append_break (by decide) fun h => absurd h (by decide)

-- A line and the newline behind it.
theorem splitlines_line (h : ∀ c ∈ line, isLineBreak c = false) (rest : List Char) :
    splitlines (line ++ '\n' :: rest) = line :: splitlines rest := by
  rw [splitlines, linesFrom_append h, linesFrom_newline, List.append_nil, List.reverse_reverse]
  rfl

theorem splitlines_joinLines {lines : List (List Char)} (hne : lines ≠ [])
    (h : ∀ line ∈ lines, ∀ c ∈ line, isLineBreak c = false) :
    splitlines (joinLines lines) = lines := by
  induction lines with
  | nil => exact absurd rfl hne
  | cons line lines ih =>
      have hline := h line List.mem_cons_self
      cases lines with
      | nil =>
          rw [joinLines, List.intercalate_singleton, splitlines_line hline]
          rfl
      | cons next lines =>
          have hrest := ih (List.cons_ne_nil next lines) fun l hl => h l (List.mem_cons_of_mem line hl)
          have hjoin : joinLines (line :: next :: lines) = line ++ '\n' :: joinLines (next :: lines) := by
            simp [joinLines, List.intercalate_cons_cons]
          rw [hjoin, splitlines_line hline, hrest]

-- The newline at the very end makes no difference behind a line that is not empty.
theorem linesFrom_newline_end (hne : text ≠ [] ∨ word ≠ [])
    (hlast : ∀ before c, text = before ++ [c] → isLineBreak c = false) :
    linesFrom word (text ++ ['\n']) = linesFrom word text := by
  induction text using List.twoStepInduction generalizing word with
  | nil =>
      have hword : word ≠ [] := hne.resolve_left fun h => h rfl
      rw [List.nil_append, linesFrom_newline, linesFrom_nil, linesFrom_nil, if_neg hword]
      rfl
  | singleton x =>
      have hx := hlast [] x rfl
      rw [List.singleton_append, linesFrom_cons hx, linesFrom_cons hx, linesFrom_newline,
        linesFrom_nil, linesFrom_nil, if_neg (List.cons_ne_nil x word)]
      rfl
  | cons_cons x y text ih ih' =>
      have hlast' : ∀ before c, y :: text = before ++ [c] → isLineBreak c = false :=
        fun before c heq => hlast (x :: before) c (by rw [heq]; rfl)
      simp only [List.cons_append] at ih' ⊢
      have hcons (word : List Char) : linesFrom word (y :: (text ++ ['\n'])) = linesFrom word (y :: text) :=
        ih' y (.inl (List.cons_ne_nil y text)) hlast'
      by_cases hcrlf : x = '\r' ∧ y = '\n'
      · obtain ⟨rfl, rfl⟩ := hcrlf
        rw [linesFrom_crlf, linesFrom_crlf]
        cases text with
        | nil => exact absurd (hlast' [] '\n' rfl) (by decide)
        | cons z text =>
            rw [ih (.inl (List.cons_ne_nil z text))]
            intro before c heq
            exact hlast' ('\n' :: before) c (by rw [heq]; rfl)
      by_cases hx : isLineBreak x = true
      · have hnot : x = '\r' → y ≠ '\n' := fun hx hy => hcrlf ⟨hx, hy⟩
        rw [linesFrom_break hx (by simpa using hnot), linesFrom_break hx (by simpa using hnot), hcons]
      · rw [Bool.not_eq_true] at hx
        rw [linesFrom_cons hx, linesFrom_cons hx, hcons]

theorem not_break_of_mem_linesFrom (hword : ∀ c ∈ word, isLineBreak c = false)
    (h : line ∈ linesFrom word text) : ∀ c ∈ line, isLineBreak c = false := by
  have hreverse : ∀ c ∈ word.reverse, isLineBreak c = false :=
    fun c hc => hword c (List.mem_reverse.mp hc)
  induction text using List.twoStepInduction generalizing word with
  | nil =>
      rw [linesFrom] at h
      split at h
      · cases h
      · rw [List.mem_singleton.mp h]
        exact hreverse
  | singleton x =>
      by_cases hx : isLineBreak x = true
      · rw [linesFrom_break hx (by simp)] at h
        rcases List.mem_cons.mp h with rfl | h
        · exact hreverse
        · cases h
      · rw [Bool.not_eq_true] at hx
        rw [linesFrom_cons hx, linesFrom, if_neg (List.cons_ne_nil x word)] at h
        rw [List.mem_singleton.mp h]
        intro c hc
        rcases List.mem_cons.mp (List.mem_reverse.mp hc) with rfl | hc
        · exact hx
        · exact hword c hc
  | cons_cons x y text ih ih' =>
      by_cases hcrlf : x = '\r' ∧ y = '\n'
      · obtain ⟨rfl, rfl⟩ := hcrlf
        rw [linesFrom_crlf] at h
        rcases List.mem_cons.mp h with rfl | h
        · exact hreverse
        · exact ih (by simp) h (by simp)
      by_cases hx : isLineBreak x = true
      · have hnot : x = '\r' → y ≠ '\n' := fun hx hy => hcrlf ⟨hx, hy⟩
        rw [linesFrom_break hx (by simpa using hnot)] at h
        rcases List.mem_cons.mp h with rfl | h
        · exact hreverse
        · exact ih' y (by simp) h (by simp)
      · rw [Bool.not_eq_true] at hx
        rw [linesFrom_cons hx] at h
        have hlonger : ∀ c ∈ x :: word, isLineBreak c = false := by
          intro c hc
          rcases List.mem_cons.mp hc with rfl | hc
          · exact hx
          · exact hword c hc
        exact ih' y hlonger h fun c hc => hlonger c (List.mem_reverse.mp hc)

-- A line holds no line break.
theorem not_break_of_mem_splitlines (h : line ∈ splitlines text) :
    ∀ c ∈ line, isLineBreak c = false :=
  not_break_of_mem_linesFrom (by simp) h

theorem linesFrom_unixy (h : Unixy text) :
    linesFrom word (text ++ ['\n']) = (text.splitOn '\n').modifyHead (word.reverse ++ ·) := by
  induction text generalizing word with
  | nil => simp [linesFrom_newline, linesFrom, List.splitOn]
  | cons c text ih =>
      have htext : Unixy text := fun d hd => h d (List.mem_cons_of_mem c hd)
      obtain ⟨first, others, hsplit⟩ := List.exists_cons_of_ne_nil (List.splitOnP_ne_nil (· == '\n') text)
      by_cases hc : c = '\n'
      · subst hc
        rw [List.cons_append, linesFrom_newline, ih htext]
        simp [List.splitOn, List.splitOnP_cons_eq_if_modifyHead, hsplit]
      · have hbreak : isLineBreak c = false := by
          rw [← Bool.not_eq_true]
          exact fun hbreak => hc (h c List.mem_cons_self hbreak)
        rw [List.cons_append, linesFrom_cons hbreak, ih htext]
        simp [List.splitOn, List.splitOnP_cons_eq_if_modifyHead, hc, hsplit]

-- Then splitting at the line breaks is splitting at the newlines.
theorem splitlines_unixy (h : Unixy text) : splitlines (text ++ ['\n']) = text.splitOn '\n' := by
  rw [splitlines, linesFrom_unixy h]
  obtain ⟨first, others, hsplit⟩ := List.exists_cons_of_ne_nil (List.splitOnP_ne_nil (· == '\n') text)
  simp [List.splitOn, hsplit]

end EvoClaw.Text
