import EvoClaw.Text.LineEnds
import Mathlib.Algebra.BigOperators.Group.List.Basic
import Mathlib.Data.List.DropRight

namespace EvoClaw.Text

variable {α β : Type*} {blank : α → Bool} {text left word : List α} {c : α}

-- str.strip, for any kind of blanks
def trim (blank : α → Bool) (text : List α) : List α :=
  ((text.dropWhile blank).reverse.dropWhile blank).reverse

theorem trim_spec (blank : α → Bool) (text : List α) :
    ∃ left right, text = left ++ (trim blank text ++ right) ∧ (∀ c ∈ left, blank c = true) ∧
      (∀ c ∈ right, blank c = true) := by
  refine ⟨text.takeWhile blank,
    ((text.dropWhile blank).reverse.takeWhile blank).reverse, ?_,
    fun c hc => List.mem_takeWhile_imp hc,
    fun c hc => List.mem_takeWhile_imp (List.mem_reverse.mp hc)⟩
  unfold trim
  rw [← List.reverse_append, List.takeWhile_append_dropWhile, List.reverse_reverse,
    List.takeWhile_append_dropWhile]

theorem trim_isInfix (blank : α → Bool) (text : List α) : trim blank text <:+: text := by
  obtain ⟨left, right, htext, -, -⟩ := trim_spec blank text
  exact ⟨left, right, by rw [List.append_assoc]; exact htext.symm⟩

theorem mem_trim (hmem : c ∈ text) (hc : blank c = false) : c ∈ trim blank text := by
  obtain ⟨left, right, htext, hleft, hright⟩ := trim_spec blank text
  rw [htext, List.mem_append, List.mem_append] at hmem
  rcases hmem with h | h | h
  · exact absurd (hleft c h) (by simp [hc])
  · exact h
  · exact absurd (hright c h) (by simp [hc])

theorem infix_behind_blanks (hc : blank c = false) (hleft : ∀ d ∈ left, blank d = true)
    (h : c :: word <:+: left ++ text) : c :: word <:+: text := by
  induction left with
  | nil => exact h
  | cons d left ih =>
      rcases List.infix_cons_iff.mp h with hbegins | hinside
      · rw [List.cons_prefix_cons] at hbegins
        have hd := hleft d List.mem_cons_self
        rw [← hbegins.1, hc] at hd
        cases hd
      · exact ih (fun e he => hleft e (List.mem_cons_of_mem d he)) hinside

-- A word that neither begins nor ends with a blank is not touched.
theorem infix_trim {first last : α} {inner : List α} (hfirst : blank first = false)
    (hlast : blank last = false) (h : first :: (inner ++ [last]) <:+: text) :
    first :: (inner ++ [last]) <:+: trim blank text := by
  obtain ⟨left, right, htext, hleft, hright⟩ := trim_spec blank text
  rw [htext] at h
  have hbehind := infix_behind_blanks hfirst hleft h
  have hword : first :: (inner ++ [last]) = (last :: (inner.reverse ++ [first])).reverse := by simp
  rw [hword] at hbehind ⊢
  rw [← List.reverse_infix, List.reverse_append, List.reverse_reverse] at hbehind
  have hbefore := infix_behind_blanks hlast (fun d hd => hright d (List.mem_reverse.mp hd)) hbehind
  rw [← List.reverse_infix, List.reverse_reverse] at hbefore
  exact hbefore

theorem dropWhile_trim (blank : α → Bool) (text : List α) :
    (trim blank text).dropWhile blank = trim blank text := by
  unfold trim
  cases h : text.dropWhile blank with
  | nil => rfl
  | cons c rest =>
      have hc : blank c = false := by
        have hhead := List.head_dropWhile_not blank (show text.dropWhile blank ≠ [] by simp [h])
        simpa [h] using hhead
      have hkept : ((c :: rest).reverse.dropWhile blank).reverse =
          c :: (rest.reverse.dropWhile blank).reverse := by
        rw [List.reverse_cons, List.dropWhile_append]
        split
        · next hnil =>
            rw [List.isEmpty_iff] at hnil
            simp [hnil, hc]
        · simp
      rw [hkept, List.dropWhile_cons_of_neg (by simp [hc])]

theorem trim_trim (blank : α → Bool) (text : List α) :
    trim blank (trim blank text) = trim blank text := by
  have hinner : trim blank (trim blank text) =
      (((trim blank text).dropWhile blank).reverse.dropWhile blank).reverse := rfl
  rw [hinner, dropWhile_trim]
  unfold trim
  rw [List.reverse_reverse, List.dropWhile_idempotent]

theorem map_trim (f : β → α) (entries : List β) :
    (trim (blank ∘ f) entries).map f = trim blank (entries.map f) := by
  unfold trim
  rw [List.dropWhile_map, ← List.map_reverse, List.dropWhile_map, ← List.map_reverse]

end EvoClaw.Text

-- Blanks around a text, and what a text holds besides blanks.
namespace EvoClaw.Text

variable {word line text right : List Char} {c : Char}

theorem mem_of_mem_strip (h : c ∈ strip text) : c ∈ text :=
  (trim_isInfix isSpace text).subset h

theorem strip_eq_nil_iff : strip text = [] ↔ ∀ c ∈ text, isSpace c = true := by
  constructor
  · intro h c hc
    by_contra hspace
    have hmem : c ∈ trim isSpace text := mem_trim hc (eq_false_of_ne_true hspace)
    rw [show trim isSpace text = strip text from rfl, h] at hmem
    cases hmem
  · intro h
    rw [strip, List.dropWhile_eq_nil_iff.mpr h]
    rfl

theorem strip_of_no_blank (h : ∀ c ∈ text, isSpace c = false) : strip text = text := by
  have hkeep : ∀ {l : List Char}, (∀ c ∈ l, isSpace c = false) → l.dropWhile isSpace = l := by
    intro l hl
    cases l with
    | nil => rfl
    | cons c l => rw [List.dropWhile_cons_of_neg (by simp [hl c List.mem_cons_self])]
  have hreverse : ∀ c ∈ text.reverse, isSpace c = false :=
    fun c hc => h c (List.mem_reverse.mp hc)
  rw [strip, hkeep h, hkeep hreverse, List.reverse_reverse]

theorem strip_cons_blank (hc : isSpace c = true) (text : List Char) :
    strip (c :: text) = strip text := by
  rw [strip, List.dropWhile_cons_of_pos hc]
  rfl

theorem strip_concat_blank (hc : isSpace c = true) (text : List Char) :
    strip (text ++ [c]) = strip text := by
  rw [strip, strip, List.dropWhile_append]
  split
  · next h =>
      rw [List.isEmpty_iff] at h
      simp [h, hc]
  · rw [List.reverse_append, List.reverse_singleton, List.singleton_append,
      List.dropWhile_cons_of_pos hc]

theorem strip_append_blanks (h : ∀ c ∈ right, isSpace c = true) (text : List Char) :
    strip (text ++ right) = strip text := by
  induction right using List.reverseRecOn with
  | nil => rw [List.append_nil]
  | append_singleton right c ih =>
      rw [← List.append_assoc, strip_concat_blank (h c (by simp))]
      exact ih fun d hd => h d (List.mem_append_left _ hd)

-- A text that does not begin with a blank.
theorem strip_cons (hc : isSpace c = false) (text : List Char) :
    strip (c :: text) = (c :: text).rdropWhile isSpace := by
  rw [strip, List.dropWhile_cons_of_neg (by simp [hc])]
  rfl

theorem strip_eq_self (hc : isSpace c = false)
    (hlast : isSpace ((c :: text).getLast (List.cons_ne_nil c text)) = false) :
    strip (c :: text) = c :: text := by
  rw [strip_cons hc, List.rdropWhile_eq_self_iff]
  exact fun _ => by rw [hlast]; exact Bool.false_ne_true

theorem rdropWhile_append_of_last (hc : isSpace c = false) (text right : List Char) :
    (text ++ c :: right).rdropWhile isSpace = text ++ c :: right.rdropWhile isSpace := by
  induction right using List.reverseRecOn with
  | nil =>
      rw [List.rdropWhile_concat_neg _ _ _ (by simp [hc]), List.rdropWhile_nil]
  | append_singleton right d ih =>
      have hshape : text ++ c :: (right ++ [d]) = text ++ c :: right ++ [d] := by simp
      rw [hshape, List.rdropWhile_concat, List.rdropWhile_concat]
      split
      · exact ih
      · exact hshape.symm

-- How many characters are not blank.
def weight (text : List Char) : Nat :=
  text.countP fun c => ! isSpace c

@[simp] theorem weight_nil : weight [] = 0 := rfl

@[simp] theorem weight_append (text right : List Char) :
    weight (text ++ right) = weight text + weight right :=
  List.countP_append

theorem weight_cons (c : Char) (text : List Char) :
    weight (c :: text) = (if isSpace c then 0 else 1) + weight text := by
  rw [← List.singleton_append, weight_append]
  cases h : isSpace c <;> simp [weight, h]

theorem weight_reverse (text : List Char) : weight text.reverse = weight text :=
  List.countP_reverse ..

theorem weight_eq_zero_iff : weight text = 0 ↔ ∀ c ∈ text, isSpace c = true := by
  simp [weight, List.countP_eq_zero]

theorem weight_strip (text : List Char) : weight (strip text) = weight text := by
  obtain ⟨left, right, htext, hleft, hright⟩ := trim_spec isSpace text
  have hshape : text = left ++ (strip text ++ right) := htext
  have hparts := congrArg weight hshape
  rw [weight_append, weight_append, weight_eq_zero_iff.mpr hleft, weight_eq_zero_iff.mpr hright]
    at hparts
  omega

-- Line breaks are blanks, so nothing is lost between the lines.
theorem sum_weight_linesFrom (word text : List Char) :
    ((linesFrom word text).map weight).sum = weight word + weight text := by
  induction text using List.twoStepInduction generalizing word with
  | nil =>
      rw [linesFrom_nil]
      split
      · next h => simp [h]
      · simp [weight_reverse]
  | singleton x =>
      by_cases hx : isLineBreak x = true
      · rw [linesFrom_break hx (by simp), linesFrom_nil, if_pos rfl, weight_cons,
          if_pos (isSpace_of_isLineBreak hx)]
        simp [weight_reverse]
      · rw [Bool.not_eq_true] at hx
        rw [linesFrom_cons hx, linesFrom_nil, if_neg (List.cons_ne_nil x word), weight_cons]
        simp [weight_reverse, weight_cons, Nat.add_comm]
  | cons_cons x y text ih ih' =>
      by_cases hcrlf : x = '\r' ∧ y = '\n'
      · obtain ⟨rfl, rfl⟩ := hcrlf
        rw [linesFrom_crlf, List.map_cons, List.sum_cons, ih, weight_reverse, weight_cons,
          if_pos (by decide), weight_cons, if_pos (by decide), weight_nil]
        omega
      by_cases hx : isLineBreak x = true
      · have hnot : x = '\r' → y ≠ '\n' := fun hx hy => hcrlf ⟨hx, hy⟩
        rw [linesFrom_break hx (by simpa using hnot), List.map_cons, List.sum_cons, ih',
          weight_reverse, weight_cons x, if_pos (isSpace_of_isLineBreak hx), weight_nil]
      · rw [Bool.not_eq_true] at hx
        rw [linesFrom_cons hx, ih', weight_cons x word, weight_cons x]
        omega

-- The line that has been begun goes on to the first line break.
theorem linesFrom_begun (hword : word ≠ []) (text : List Char) :
    ∃ rest, linesFrom word text =
      (word.reverse ++ text.takeWhile fun c => ! isLineBreak c) :: rest := by
  induction text generalizing word with
  | nil =>
      rw [linesFrom_nil, if_neg hword]
      exact ⟨[], by simp⟩
  | cons c text ih =>
      by_cases hc : isLineBreak c = true
      · rw [List.takeWhile_cons_of_neg (by simp [hc]), List.append_nil]
        by_cases hcrlf : c = '\r' ∧ text.head? = some '\n'
        · obtain ⟨rfl, hhead⟩ := hcrlf
          obtain ⟨rest, rfl⟩ := List.head?_eq_some_iff.mp hhead
          exact ⟨_, linesFrom_crlf⟩
        · exact ⟨_, linesFrom_break hc fun hcr hhead => hcrlf ⟨hcr, hhead⟩⟩
      · rw [Bool.not_eq_true] at hc
        obtain ⟨rest, hrest⟩ := ih (List.cons_ne_nil c word)
        refine ⟨rest, ?_⟩
        rw [linesFrom_cons hc, hrest, List.takeWhile_cons_of_pos (by simp [hc]), List.reverse_cons,
          List.append_assoc]
        rfl

end EvoClaw.Text
