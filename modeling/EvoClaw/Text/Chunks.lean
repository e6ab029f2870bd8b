import EvoClaw.Text.Search
import Mathlib.Algebra.Order.Ring.Nat
import Mathlib.Data.List.DropRight

namespace EvoClaw.Text

variable {α : Type*} {blank : α → Bool} {text tail spaces : List α}
  {pieces accepted : List (List α)}

-- The pieces are the text, in order, up to blanks before, between and behind them.
def Covers (blank : α → Bool) : List (List α) → List α → Prop
  | [], text => ∀ c ∈ text, blank c = true
  | piece :: rest, text =>
      ∃ gap tail, text = gap ++ (piece ++ tail) ∧ (∀ c ∈ gap, blank c = true) ∧
        Covers blank rest tail

theorem Covers.spaced (hspaces : ∀ c ∈ spaces, blank c = true) (h : Covers blank pieces text) :
    Covers blank pieces (spaces ++ text) := by
  cases pieces with
  | nil => exact fun c hc => (List.mem_append.mp hc).elim (hspaces c) (h c)
  | cons piece rest =>
      obtain ⟨gap, tail, rfl, hgap, hrest⟩ := h
      refine ⟨spaces ++ gap, tail, (List.append_assoc ..).symm, fun c hc => ?_, hrest⟩
      exact (List.mem_append.mp hc).elim (hspaces c) (hgap c)

theorem Covers.append {first second : List (List α)} (h : Covers blank first text)
    (hsecond : Covers blank second tail) : Covers blank (first ++ second) (text ++ tail) := by
  induction first generalizing text with
  | nil => exact hsecond.spaced h
  | cons piece rest ih =>
      obtain ⟨gap, inner, rfl, hgap, hrest⟩ := h
      exact ⟨gap, inner ++ tail, by simp, hgap, ih hrest⟩

-- Each piece may come in pieces of its own.
theorem Covers.refine {parts : List (List (List α))} (h : Covers blank pieces text)
    (hparts : List.Forall₂ (fun piece inner => Covers blank inner piece) pieces parts) :
    Covers blank parts.flatten text := by
  induction hparts generalizing text with
  | nil => exact h
  | cons hpiece _ ih =>
      obtain ⟨gap, tail, rfl, hgap, hrest⟩ := h
      exact (hpiece.append (ih hrest)).spaced hgap

theorem covers_singleton (blank : α → Bool) (text : List α) : Covers blank [text] text :=
  ⟨[], [], by simp, fun _ h => (nomatch h), fun _ h => nomatch h⟩

theorem Covers.filter_ne_nil [DecidableEq α] (h : Covers blank pieces text) :
    Covers blank (pieces.filter (· ≠ [])) text := by
  induction pieces generalizing text with
  | nil => exact h
  | cons piece rest ih =>
      obtain ⟨gap, tail, rfl, hgap, hrest⟩ := h
      by_cases hpiece : piece = []
      · subst hpiece
        rw [List.filter_cons_of_neg (by simp)]
        exact (ih hrest).spaced hgap
      · rw [List.filter_cons_of_pos (by simpa using hpiece)]
        exact ⟨gap, tail, rfl, hgap, ih hrest⟩

-- What is not blank is all there, in order.
theorem Covers.filter_flatten (h : Covers blank pieces text) :
    pieces.flatten.filter (fun c => !blank c) = text.filter (fun c => !blank c) := by
  induction pieces generalizing text with
  | nil =>
      have hnone : text.filter (fun c => !blank c) = [] := by
        rw [List.filter_eq_nil_iff]
        intro c hc
        simp [h c hc]
      rw [hnone]
      rfl
  | cons piece rest ih =>
      obtain ⟨gap, tail, rfl, hgap, hrest⟩ := h
      have hnone : gap.filter (fun c => !blank c) = [] := by
        rw [List.filter_eq_nil_iff]
        intro c hc
        simp [hgap c hc]
      rw [List.flatten_cons, List.filter_append, List.filter_append, List.filter_append, hnone,
        ih hrest]
      rfl

section Accepted

-- A piece that blanks do not stand for.
def Solid (blank : α → Bool) (piece : List α) : Bool := piece.any fun c => !blank c

def solidCount (blank : α → Bool) (piece : List α) : Nat := piece.countP fun c => !blank c

theorem solidCount_eq_zero {piece : List α} :
    solidCount blank piece = 0 ↔ Solid blank piece = false := by
  simp [solidCount, Solid, List.countP_eq_zero]

theorem blank_of_not_solid {piece : List α} (h : Solid blank piece = false) :
    ∀ c ∈ piece, blank c = true := by
  simpa [Solid] using h

theorem Covers.solidCount (h : Covers blank pieces text) :
    (pieces.map (solidCount blank)).sum = Text.solidCount blank text := by
  induction pieces generalizing text with
  | nil =>
      have hzero : Text.solidCount blank text = 0 := by
        rw [Text.solidCount, List.countP_eq_zero]
        intro c hc
        simp [h c hc]
      exact hzero.symm
  | cons piece rest ih =>
      obtain ⟨gap, tail, rfl, hgap, hrest⟩ := h
      have hzero : Text.solidCount blank gap = 0 := by
        rw [Text.solidCount, List.countP_eq_zero]
        intro c hc
        simp [hgap c hc]
      have hsum := ih hrest
      rw [List.map_cons, List.sum_cons, hsum]
      simp only [Text.solidCount, List.countP_append] at hzero ⊢
      omega

theorem solidCount_sublist (blank : α → Bool) (h : accepted.Sublist pieces) :
    (accepted.map (solidCount blank)).sum ≤ (pieces.map (solidCount blank)).sum := by
  induction h with
  | slnil => exact Nat.le_refl _
  | cons piece _ ih =>
      rw [List.map_cons, List.sum_cons]
      omega
  | cons_cons piece _ ih =>
      simp only [List.map_cons, List.sum_cons]
      omega

theorem filter_solid_of_count (h : accepted.Sublist pieces)
    (hcount : (accepted.map (solidCount blank)).sum = (pieces.map (solidCount blank)).sum) :
    accepted.filter (Solid blank) = pieces.filter (Solid blank) := by
  induction h with
  | slnil => rfl
  | cons piece hsub ih =>
      have hle := solidCount_sublist blank hsub
      rw [List.map_cons, List.sum_cons] at hcount
      have hzero : solidCount blank piece = 0 := by omega
      rw [List.filter_cons_of_neg (by simp [solidCount_eq_zero.mp hzero])]
      exact ih (by omega)
  | cons_cons piece _ ih =>
      simp only [List.map_cons, List.sum_cons] at hcount
      have hrest := ih (by omega)
      simp only [List.filter_cons, hrest]

-- The text has been accepted exactly when all of its solid pieces have been.
theorem Covers.accepted_iff (h : Covers blank pieces text) (hsub : accepted.Sublist pieces) :
    Covers blank accepted text ↔
      accepted.filter (Solid blank) = pieces.filter (Solid blank) := by
  constructor
  · intro haccepted
    exact filter_solid_of_count hsub (haccepted.solidCount.trans h.solidCount.symm)
  · intro heq
    induction hsub generalizing text with
    | slnil => exact h
    | cons piece hsub ih =>
        obtain ⟨gap, tail, rfl, hgap, hrest⟩ := h
        have hpiece : Solid blank piece = false := by
          by_contra hsolid
          rw [List.filter_cons_of_pos (by simpa using hsolid)] at heq
          have hle := (hsub.filter (Solid blank)).length_le
          rw [heq, List.length_cons] at hle
          omega
        rw [List.filter_cons_of_neg (by simp [hpiece])] at heq
        exact ((ih hrest heq).spaced (blank_of_not_solid hpiece)).spaced hgap
    | cons_cons piece _ ih =>
        obtain ⟨gap, tail, rfl, hgap, hrest⟩ := h
        refine ⟨gap, tail, rfl, hgap, ih hrest ?_⟩
        simp only [List.filter_cons] at heq
        split at heq
        · exact (List.cons.inj heq).2
        · exact heq

end Accepted

section Splitting

variable [DecidableEq α] {newline : α} {maxLen least fuel : Nat}

-- The last newline before the limit, if it stands at `least` or behind, and else the limit.
def cutAt (newline : α) (maxLen least : Nat) (text : List α) : Nat :=
  match rfind [newline] (text.take maxLen) with
  | some i => if least ≤ i then i else maxLen
  | none => maxLen

-- while text: a chunk is stripped behind, and the newlines after it are left out. The fuel is
-- one round for each character.
def chunksFrom (blank : α → Bool) (newline : α) (maxLen least : Nat) : Nat → List α → List (List α)
  | 0, _ => []
  | fuel + 1, text =>
      if text = [] then []
      else if text.length ≤ maxLen then [text]
      else
        (text.take (cutAt newline maxLen least text)).rdropWhile blank ::
          chunksFrom blank newline maxLen least fuel
            ((text.drop (cutAt newline maxLen least text)).dropWhile (· = newline))

theorem rfind_prefix {word : List α} {i : Nat} (h : rfind word text = some i) :
    word <+: text.drop i := by
  induction text generalizing i with
  | nil =>
      unfold rfind at h
      split_ifs at h with hword
      simp [hword]
  | cons c rest ih =>
      unfold rfind at h
      split at h
      · next j hj =>
          cases h
          exact ih hj
      · split_ifs at h with hbegins
        cases h
        exact hbegins

theorem length_behind_cut (newline : α) (least : Nat) (hpos : 0 < maxLen)
    (hlong : maxLen < text.length) :
    ((text.drop (cutAt newline maxLen least text)).dropWhile (· = newline)).length <
      text.length := by
  have hle : ∀ n, ((text.drop n).dropWhile (· = newline)).length ≤ text.length - n := by
    intro n
    rw [← List.length_drop]
    exact (List.dropWhile_sublist _).length_le
  have hlimit : ((text.drop maxLen).dropWhile (· = newline)).length < text.length := by
    have hlimit := hle maxLen
    omega
  unfold cutAt
  split
  · next i hi =>
      split
      · -- what stands at the cut is a newline
        obtain ⟨rest, hrest⟩ := rfind_prefix hi
        rw [List.drop_take] at hrest
        cases hdrop : text.drop i with
        | nil =>
            rw [hdrop] at hrest
            simp at hrest
        | cons c behind =>
            have hc : c = newline := by
              rw [hdrop] at hrest
              cases hm : maxLen - i with
              | zero => rw [hm] at hrest; simp at hrest
              | succ m =>
                  rw [hm, List.take_succ_cons, List.singleton_append] at hrest
                  exact (List.cons.inj hrest).1.symm
            have hlength := congrArg List.length hdrop
            rw [List.length_drop, List.length_cons] at hlength
            rw [List.dropWhile_cons_of_pos (by simpa using hc)]
            have hbehind := (List.dropWhile_sublist (l := behind) (· = newline)).length_le
            omega
      · exact hlimit
  · exact hlimit

theorem covers_chunksFrom (hpos : 0 < maxLen) (hnewline : blank newline = true)
    (hfuel : text.length ≤ fuel) :
    Covers blank (chunksFrom blank newline maxLen least fuel text) text := by
  induction fuel generalizing text with
  | zero =>
      have hnil : text = [] := List.length_eq_zero_iff.mp (Nat.le_zero.mp hfuel)
      subst hnil
      exact fun _ h => nomatch h
  | succ fuel ih =>
      unfold chunksFrom
      split
      · next hnil =>
          subst hnil
          exact fun _ h => nomatch h
      · split
        · exact covers_singleton blank text
        · next hlong =>
            have hshorter :=
              length_behind_cut newline least hpos (Nat.lt_of_not_le hlong)
            have hrest := ih (Nat.le_of_lt_succ (Nat.lt_of_lt_of_le hshorter hfuel))
            have hnewlines : ∀ c ∈ (text.drop (cutAt newline maxLen least text)).takeWhile
                (· = newline), blank c = true := by
              intro c hc
              have hc' : c = newline := by simpa using List.mem_takeWhile_imp hc
              rw [hc', hnewline]
            have hbehind := hrest.spaced hnewlines
            rw [List.takeWhile_append_dropWhile] at hbehind
            refine ⟨[], (text.take (cutAt newline maxLen least text)).rtakeWhile blank ++
              text.drop (cutAt newline maxLen least text), ?_, fun _ h => (nomatch h),
              hbehind.spaced fun c hc => List.mem_rtakeWhile_imp hc⟩
            rw [List.nil_append, ← List.append_assoc, List.rdropWhile_append_rtakeWhile,
              List.take_append_drop]

theorem cutAt_le (newline : α) (maxLen least : Nat) (text : List α) :
    cutAt newline maxLen least text ≤ maxLen := by
  unfold cutAt
  split
  · next i hi =>
      split
      · have hbegins := List.IsPrefix.length_le <| rfind_prefix hi
        simp only [List.length_drop, List.length_take, List.length_singleton] at hbegins
        omega
      · exact Nat.le_refl maxLen
  · exact Nat.le_refl maxLen

theorem length_le_of_mem_chunksFrom {chunk : List α}
    (h : chunk ∈ chunksFrom blank newline maxLen least fuel text) : chunk.length ≤ maxLen := by
  induction fuel generalizing text with
  | zero => exact nomatch h
  | succ fuel ih =>
      unfold chunksFrom at h
      split at h
      · exact nomatch h
      · split at h
        · next hshort =>
            rw [List.mem_singleton.mp h]
            exact hshort
        · rcases List.mem_cons.mp h with rfl | hrest
          · have hstripped := (List.rdropWhile_prefix blank
              (l := text.take (cutAt newline maxLen least text))).length_le
            have htaken := List.length_take_le (cutAt newline maxLen least text) text
            have hcut := cutAt_le newline maxLen least text
            omega
          · exact ih hrest

-- One round for each character is enough.
theorem chunksFrom_eq_of_le {enough : Nat} (hpos : 0 < maxLen) (hfuel : text.length ≤ fuel)
    (henough : text.length ≤ enough) :
    chunksFrom blank newline maxLen least fuel text =
      chunksFrom blank newline maxLen least enough text := by
  induction fuel generalizing text enough with
  | zero =>
      have hnil : text = [] := List.length_eq_zero_iff.mp (Nat.le_zero.mp hfuel)
      subst hnil
      cases enough with
      | zero => rfl
      | succ enough => simp [chunksFrom]
  | succ fuel ih =>
      cases enough with
      | zero =>
          have hnil : text = [] := List.length_eq_zero_iff.mp (Nat.le_zero.mp henough)
          subst hnil
          simp [chunksFrom]
      | succ enough =>
          unfold chunksFrom
          split
          · rfl
          · split
            · rfl
            · next hlong =>
                have hshorter := length_behind_cut newline least hpos (Nat.lt_of_not_le hlong)
                have hrest : chunksFrom blank newline maxLen least fuel
                    ((text.drop (cutAt newline maxLen least text)).dropWhile (· = newline)) =
                      chunksFrom blank newline maxLen least enough
                        ((text.drop (cutAt newline maxLen least text)).dropWhile (· = newline)) :=
                  ih (by omega) (by omega)
                rw [hrest]

end Splitting

end EvoClaw.Text

-- Where the chunks of a text begin, and how far they go.
namespace EvoClaw.Text

section Stretches

variable {α : Type*} [DecidableEq α] {blank : α → Bool} {newline : α} {maxLen least fuel : Nat}
  {text rest chunk : List α}

-- What is left of a text behind the first cut.
def behindCut (newline : α) (maxLen least : Nat) (text : List α) : List α :=
  (text.drop (cutAt newline maxLen least text)).dropWhile (· = newline)

-- A chunk begins with the text, and behind every cut.
inductive Begins (newline : α) (maxLen least : Nat) (text : List α) : List α → Prop
  | first : Begins newline maxLen least text text
  | next {rest : List α} (before : Begins newline maxLen least text rest)
      (long : maxLen < rest.length) :
      Begins newline maxLen least text (behindCut newline maxLen least rest)

-- The chunk that begins with a text.
def stretch (blank : α → Bool) (newline : α) (maxLen least : Nat) (text : List α) : List α :=
  if text.length ≤ maxLen then text
  else (text.take (cutAt newline maxLen least text)).rdropWhile blank

theorem begins_iff : Begins newline maxLen least text rest ↔
    rest = text ∨ maxLen < text.length ∧
      Begins newline maxLen least (behindCut newline maxLen least text) rest := by
  constructor
  · intro h
    induction h with
    | first => exact .inl rfl
    | next before long ih =>
        rcases ih with rfl | ⟨hlong, hbehind⟩
        · exact .inr ⟨long, .first⟩
        · exact .inr ⟨hlong, .next hbehind long⟩
  · rintro (rfl | ⟨hlong, hbehind⟩)
    · exact .first
    · induction hbehind with
      | first => exact .next .first hlong
      | next before long ih => exact .next ih long

theorem Begins.suffix (h : Begins newline maxLen least text rest) : rest <:+ text := by
  induction h with
  | first => exact List.suffix_rfl
  | next before long ih =>
      exact ((List.dropWhile_suffix _).trans (List.drop_suffix _ _)).trans ih

theorem stretch_isPrefix (text : List α) : stretch blank newline maxLen least text <+: text := by
  unfold stretch
  split
  · exact List.prefix_rfl
  · exact (List.rdropWhile_prefix blank _).trans (List.take_prefix _ _)

theorem length_stretch_le (text : List α) :
    (stretch blank newline maxLen least text).length ≤ maxLen := by
  unfold stretch
  split
  · assumption
  · have hstripped := List.IsPrefix.length_le <|
      List.rdropWhile_prefix blank (l := text.take (cutAt newline maxLen least text))
    have htaken := List.length_take_le (cutAt newline maxLen least text) text
    have hcut := cutAt_le newline maxLen least text
    omega

theorem mem_chunksFrom_iff (hpos : 0 < maxLen) (hfuel : text.length ≤ fuel) :
    chunk ∈ chunksFrom blank newline maxLen least fuel text ↔
      ∃ rest, Begins newline maxLen least text rest ∧ rest ≠ [] ∧
        chunk = stretch blank newline maxLen least rest := by
  induction fuel generalizing text with
  | zero =>
      have hnil : text = [] := List.length_eq_zero_iff.mp (Nat.le_zero.mp hfuel)
      subst hnil
      simp only [chunksFrom, List.not_mem_nil, false_iff, not_exists]
      rintro rest ⟨hbegins, hne, -⟩
      exact hne (List.suffix_nil.mp hbegins.suffix)
  | succ fuel ih =>
      unfold chunksFrom
      by_cases hnil : text = []
      · subst hnil
        simp only [if_true, List.not_mem_nil, false_iff, not_exists]
        rintro rest ⟨hbegins, hne, -⟩
        exact hne (List.suffix_nil.mp hbegins.suffix)
      rw [if_neg hnil]
      by_cases hshort : text.length ≤ maxLen
      · rw [if_pos hshort, List.mem_singleton]
        constructor
        · rintro rfl
          exact ⟨chunk, .first, hnil, (if_pos hshort).symm⟩
        · rintro ⟨rest, hbegins, -, rfl⟩
          rcases begins_iff.mp hbegins with rfl | ⟨hlong, -⟩
          · exact if_pos hshort
          · omega
      · have hlong := Nat.lt_of_not_le hshort
        have hshorter : (behindCut newline maxLen least text).length < text.length :=
          length_behind_cut newline least hpos hlong
        rw [if_neg hshort, List.mem_cons, ← behindCut, ih (by omega)]
        constructor
        · rintro (rfl | ⟨rest, hbegins, hne, rfl⟩)
          · exact ⟨text, .first, hnil, (if_neg hshort).symm⟩
          · exact ⟨rest, begins_iff.mpr (.inr ⟨hlong, hbegins⟩), hne, rfl⟩
        · rintro ⟨rest, hbegins, hne, rfl⟩
          rcases begins_iff.mp hbegins with rfl | ⟨-, hbehind⟩
          · exact .inl (if_neg hshort)
          · exact .inr ⟨rest, hbehind, hne, rfl⟩

end Stretches

end EvoClaw.Text
