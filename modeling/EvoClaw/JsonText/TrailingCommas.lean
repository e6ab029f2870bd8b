import EvoClaw.JsonText.Quotes

-- Commas in front of closing brackets. json.loads accepts none outside of the strings, and
-- the whitespace in front of a closing bracket makes no difference to it.
namespace EvoClaw.JsonText

section Places

-- Where a reader of any text is behind a character.
def Mode.next : Mode → Char → Mode
  | outside, c => if c = '"' then inside else outside
  | inside, c => if c = '"' then outside else if c = '\\' then escaping else inside
  | escaping, _ => inside

-- Whitespace and a closing bracket begin the text.
def closes (text : List Char) : Bool :=
  (text.dropWhile isSpace).head?.any isClosing

-- No comma in one of the places has only whitespace between it and a closing bracket.
def Free (places : Mode → Prop) : Mode → List Char → Prop
  | _, [] => True
  | mode, c :: rest =>
      (places mode → c = ',' → closes rest = false) ∧ Free places (mode.next c) rest

instance decidableFree (places : Mode → Prop) [DecidablePred places] :
    ∀ (mode : Mode) (text : List Char), Decidable (Free places mode text)
  | _, [] => inferInstanceAs (Decidable True)
  | mode, c :: rest =>
      have := decidableFree places (mode.next c) rest
      inferInstanceAs (Decidable (_ ∧ _))

-- Whitespace that stands in front of closing brackets is left out.
inductive Thinner : Mode → List Char → List Char → Prop where
  | nil {mode : Mode} : Thinner mode [] []
  | keep {mode : Mode} {c : Char} {text thin : List Char} :
      Thinner (mode.next c) text thin → Thinner mode (c :: text) (c :: thin)
  | drop {c : Char} {text thin : List Char} : isSpace c = true → closes text = true →
      Thinner .outside text thin → Thinner .outside (c :: text) thin

variable {places : Mode → Prop} {mode : Mode} {c : Char} {text thin rest : List Char}

theorem closes_space (h : isSpace c = true) : closes (c :: text) = closes text := by
  unfold closes
  rw [List.dropWhile_cons_of_pos h]

theorem closes_solid (h : isSpace c = false) : closes (c :: text) = isClosing c := by
  unfold closes
  rw [List.dropWhile_cons_of_neg (by simp [h])]
  rfl

theorem closes_append {spaces : List Char} (h : ∀ c ∈ spaces, isSpace c = true) :
    closes (spaces ++ text) = closes text := by
  unfold closes
  rw [List.dropWhile_append_of_pos h]

theorem isClosing_solid (h : isClosing c = true) : isSpace c = false := by
  unfold isClosing at h
  simp only [Bool.or_eq_true, decide_eq_true_eq] at h
  rcases h with rfl | rfl <;> decide

theorem isBlank_space (h : isBlank c = true) : isSpace c = true := by
  unfold isBlank at h
  simp only [Bool.or_eq_true, decide_eq_true_eq] at h
  rcases h with ((rfl | rfl) | rfl) | rfl <;> decide

-- What closes begins with whitespace or with the bracket.
theorem closes_cons_iff : closes (c :: text) = true ↔
    isClosing c = true ∨ isSpace c = true ∧ closes text = true := by
  cases hspace : isSpace c with
  | true =>
      rw [closes_space hspace]
      have hclosing : ¬isClosing c = true := fun h => by
        rw [isClosing_solid h] at hspace
        cases hspace
      simp [hclosing]
  | false =>
      rw [closes_solid hspace]
      simp

theorem special_of_closes (h : closes (c :: text) = true) :
    c ≠ '"' ∧ c ≠ '\\' ∧ c ≠ ',' ∧ c.isDigit = false := by
  have hc : isClosing c = true ∨ isSpace c = true := (closes_cons_iff.mp h).imp_right And.left
  have hne : ∀ d : Char, isClosing d = false → isSpace d = false → c ≠ d := by
    rintro d hclosing hspace rfl
    rw [hclosing, hspace] at hc
    simp at hc
  refine ⟨hne _ rfl rfl, hne _ rfl rfl, hne _ rfl rfl, ?_⟩
  by_contra hdigit
  rw [Bool.not_eq_false] at hdigit
  obtain ⟨hsolid, hclosing, -⟩ := isDigit_solid hdigit
  exact hne c hclosing hsolid rfl

theorem next_outside (h : c ≠ '"') : Mode.next .outside c = .outside := if_neg h

theorem next_inside (hquote : c ≠ '"') (hslash : c ≠ '\\') : Mode.next .inside c = .inside := by
  simp [Mode.next, hquote, hslash]

theorem Thinner.refl (mode : Mode) (text : List Char) : Thinner mode text text := by
  induction text generalizing mode with
  | nil => exact .nil
  | cons c text ih => exact .keep (ih _)

theorem Thinner.closes_eq (h : Thinner mode text thin) : closes thin = closes text := by
  induction h with
  | nil => rfl
  | @keep mode c text thin h ih =>
      cases hspace : isSpace c with
      | true => rw [closes_space hspace, closes_space hspace, ih]
      | false => rw [closes_solid hspace, closes_solid hspace]
  | drop hspace hcloses h ih => rw [closes_space hspace, ih]

theorem Thinner.length_le (h : Thinner mode text thin) : thin.length ≤ text.length := by
  induction h with
  | nil => exact Nat.le_refl _
  | keep h ih => exact Nat.succ_le_succ ih
  | drop _ _ h ih => exact Nat.le_succ_of_le ih

-- Only whitespace outside of the strings can be left out.
theorem Thinner.cons_inv (h : Thinner mode (c :: text) thin)
    (hkept : mode ≠ .outside ∨ isSpace c = false) :
    ∃ thin', thin = c :: thin' ∧ Thinner (mode.next c) text thin' := by
  cases h with
  | keep h => exact ⟨_, rfl, h⟩
  | drop hspace hcloses h =>
      rcases hkept with hmode | hsolid
      · exact absurd rfl hmode
      · rw [hspace] at hsolid
        cases hsolid

theorem Thinner.nil_inv (h : Thinner mode [] thin) : thin = [] := by
  cases h
  rfl

-- Plain characters in front of a text do not matter.
theorem free_append {used : List Char} (hused : ∀ c ∈ used, c ≠ '"' ∧ c ≠ ',')
    (h : Free places .outside rest) : Free places .outside (used ++ rest) := by
  induction used with
  | nil => exact h
  | cons c used ih =>
      obtain ⟨hquote, hcomma⟩ := hused c List.mem_cons_self
      refine ⟨fun _ hc => absurd hc hcomma, ?_⟩
      rw [next_outside hquote]
      exact ih fun c hc => hused c (List.mem_cons_of_mem _ hc)

theorem free_of_append {used : List Char} (hused : ∀ c ∈ used, c ≠ '"')
    (h : Free places .outside (used ++ rest)) : Free places .outside rest := by
  induction used with
  | nil => exact h
  | cons c used ih =>
      have hrest := h.2
      rw [next_outside (hused c List.mem_cons_self)] at hrest
      exact ih (fun c hc => hused c (List.mem_cons_of_mem _ hc)) hrest

theorem Thinner.drop_space (h : Thinner .outside text (c :: thin)) (hc : isSpace c = true)
    (hcloses : closes thin = true) : Thinner .outside text thin := by
  have hquote : c ≠ '"' := by
    rintro rfl
    cases hc
  generalize hbegin : c :: thin = whole at h
  generalize hmode : Mode.outside = mode at h
  induction h with
  | nil => cases hbegin
  | keep h ih =>
      cases hbegin
      subst hmode
      rw [next_outside hquote] at h
      exact .drop hc (by rw [← h.closes_eq, hcloses]) h
  | drop hspace hcloses h ih => exact .drop hspace hcloses (ih hbegin rfl)

theorem Thinner.drop_spaces {spaces : List Char} (h : Thinner .outside text (spaces ++ thin))
    (hspaces : ∀ c ∈ spaces, isSpace c = true) (hcloses : closes thin = true) :
    Thinner .outside text thin := by
  induction spaces with
  | nil => exact h
  | cons c spaces ih =>
      have hrest : ∀ c ∈ spaces, isSpace c = true :=
        fun c hc => hspaces c (List.mem_cons_of_mem _ hc)
      have hopen : closes (spaces ++ thin) = true := by rw [closes_append hrest, hcloses]
      rw [List.cons_append] at h
      exact ih (h.drop_space (hspaces c List.mem_cons_self) hopen) hrest

end Places

-- A parser has found something at the beginning of a text. There is no trailing comma in front
-- of what it leaves, and it finds the same where whitespace has been left out.
structure Tolerates {α : Type} (start finish : Mode)
    (parse : List Char → Option (α × List Char)) : Prop where
  free : ∀ {text found rest}, parse text = some (found, rest) →
    Free (· = .outside) finish rest → Free (· = .outside) start text
  thin : ∀ {text found rest thin}, parse text = some (found, rest) → Thinner start text thin →
    ∃ rest', parse thin = some (found, rest') ∧ Thinner finish rest rest'

-- A part of a number is always found, if only an empty one.
theorem Tolerates.total {f : List Char → List Char × List Char} {text thin : List Char}
    (h : Tolerates .outside .outside fun text => some (f text))
    (hthin : Thinner .outside text thin) :
    (f thin).1 = (f text).1 ∧ Thinner .outside (f text).2 (f thin).2 := by
  have hparse : some (f text) = some ((f text).1, (f text).2) := rfl
  obtain ⟨rest', hfound, hrest⟩ := h.thin hparse hthin
  rw [Option.some.injEq] at hfound
  rw [hfound]
  exact ⟨rfl, hrest⟩

section Numbers

variable {c : Char} {text thin rest : List Char} {floatOf : List Char → BitVec 64}

theorem tolerates_digits : Tolerates .outside .outside fun text =>
    some (text.takeWhile Char.isDigit, text.dropWhile Char.isDigit) where
  free := by
    intro text found rest h hrest
    cases h
    rw [← List.takeWhile_append_dropWhile (p := Char.isDigit) (l := text)]
    exact free_append (fun c hc => (isDigit_solid (List.mem_takeWhile_imp hc)).2.2) hrest
  thin := by
    intro text found rest thin h hthin
    cases h
    induction text generalizing thin with
    | nil =>
        rw [hthin.nil_inv]
        exact ⟨[], rfl, .nil⟩
    | cons c text ih =>
        cases hdigit : c.isDigit with
        | true =>
            obtain ⟨hsolid, -, hquote, -⟩ := isDigit_solid hdigit
            obtain ⟨thin', rfl, hrest⟩ := hthin.cons_inv (.inr hsolid)
            rw [next_outside hquote] at hrest
            obtain ⟨rest', hfound, hthin'⟩ := ih hrest
            rw [Option.some.injEq, Prod.mk.injEq] at hfound
            refine ⟨rest', ?_, ?_⟩
            · rw [List.takeWhile_cons_of_pos hdigit, List.takeWhile_cons_of_pos hdigit,
                List.dropWhile_cons_of_pos hdigit, hfound.1, hfound.2]
            · rw [List.dropWhile_cons_of_pos hdigit]
              exact hthin'
        | false =>
            have hstop : thin.takeWhile Char.isDigit = [] ∧ thin.dropWhile Char.isDigit = thin := by
              cases hthin with
              | keep => simp [hdigit]
              | drop _ hcloses hthin' =>
                  rw [← hthin'.closes_eq] at hcloses
                  cases thin with
                  | nil => exact ⟨rfl, rfl⟩
                  | cons d thin => simp [(special_of_closes hcloses).2.2.2]
            refine ⟨thin, ?_, ?_⟩
            · rw [hstop.1, hstop.2, List.takeWhile_cons_of_neg (by simp [hdigit])]
            · rw [List.dropWhile_cons_of_neg (by simp [hdigit])]
              exact hthin

theorem Thinner.digits (h : Thinner .outside text thin) :
    thin.takeWhile Char.isDigit = text.takeWhile Char.isDigit ∧
      Thinner .outside (text.dropWhile Char.isDigit) (thin.dropWhile Char.isDigit) :=
  tolerates_digits.total h

-- A character that is no whitespace and does not close begins both texts or none.
theorem Thinner.head_iff (h : Thinner .outside text thin) {d : Char}
    (hd : isSpace d = false) (hclosing : isClosing d = false) :
    text.head? = some d ↔ thin.head? = some d := by
  cases h with
  | nil => rfl
  | keep => rfl
  | @drop c text _ hspace hcloses h =>
      have hne : ∀ e more, closes (e :: more) = true → e ≠ d := by
        rintro e more he rfl
        rw [closes_solid hd, hclosing] at he
        cases he
      have hleft : (c :: text).head? ≠ some d := by
        rw [List.head?_cons, ne_eq, Option.some.injEq]
        rintro rfl
        rw [hspace] at hd
        cases hd
      rw [← h.closes_eq] at hcloses
      have hright : thin.head? ≠ some d := by
        cases thin with
        | nil => simp
        | cons e more =>
            rw [List.head?_cons, ne_eq, Option.some.injEq]
            exact hne e more hcloses
      exact ⟨fun h => absurd h hleft, fun h => absurd h hright⟩

theorem tolerates_whole : Tolerates .outside .outside fun text =>
    some (wholeDigits text, text.drop (wholeDigits text).length) where
  free := by
    intro text found rest h hrest
    cases h
    have hplain : ∀ c ∈ wholeDigits text, c ≠ '"' ∧ c ≠ ',' := by
      unfold wholeDigits
      split
      · simp
      · exact fun c hc => (isDigit_solid (List.mem_takeWhile_imp hc)).2.2
    have hprefix : wholeDigits text <+: text := by
      unfold wholeDigits
      split
      · exact ⟨_, rfl⟩
      · exact List.takeWhile_prefix _
    rw [← List.prefix_iff_eq_append.mp hprefix]
    exact free_append hplain hrest
  thin := by
    intro text found rest thin h hthin
    cases h
    by_cases hzero : text.head? = some '0'
    · obtain ⟨rest, rfl⟩ := List.head?_eq_some_iff.mp hzero
      obtain ⟨thin', rfl, hrest⟩ := hthin.cons_inv (.inr (by decide))
      exact ⟨thin', rfl, hrest⟩
    · have hzero' := (hthin.head_iff (d := '0') (by decide) (by decide)).not.mp hzero
      have hwhole : ∀ {text : List Char}, text.head? ≠ some '0' →
          wholeDigits text = text.takeWhile Char.isDigit := by
        intro text h
        unfold wholeDigits
        split
        · exact absurd rfl h
        · rfl
      obtain ⟨hsame, hrest⟩ := hthin.digits
      have hdrop : ∀ text : List Char,
          text.drop (text.takeWhile Char.isDigit).length = text.dropWhile Char.isDigit := by
        intro text
        nth_rewrite 2 [← List.takeWhile_append_dropWhile (p := Char.isDigit) (l := text)]
        rw [List.drop_left]
      simp only [hwhole hzero, hwhole hzero', hdrop]
      rw [hsame]
      exact ⟨_, rfl, hrest⟩

theorem fraction_eq (h : text.head? ≠ some '.') : fraction text = ([], text) := by
  unfold fraction
  split
  · exact absurd rfl h
  · rfl

theorem fraction_point (text : List Char) : fraction ('.' :: text) =
    if (text.takeWhile Char.isDigit).isEmpty then ([], '.' :: text)
    else ('.' :: text.takeWhile Char.isDigit, text.dropWhile Char.isDigit) := rfl

theorem tolerates_fraction : Tolerates .outside .outside fun text => some (fraction text) where
  free := by
    intro text found rest h hrest
    rw [Option.some.injEq] at h
    by_cases hpoint : text.head? = some '.'
    · obtain ⟨more, rfl⟩ := List.head?_eq_some_iff.mp hpoint
      have hopen : Free (· = .outside) .outside more →
          Free (· = .outside) .outside (['.'] ++ more) :=
        free_append (by simp)
      rw [fraction_point] at h
      split at h
      · cases h
        exact hrest
      · cases h
        exact hopen (tolerates_digits.free rfl hrest)
    · rw [fraction_eq hpoint] at h
      cases h
      exact hrest
  thin := by
    intro text found rest thin h hthin
    rw [Option.some.injEq] at h
    by_cases hpoint : text.head? = some '.'
    · obtain ⟨more, rfl⟩ := List.head?_eq_some_iff.mp hpoint
      obtain ⟨more', rfl, hmore⟩ := hthin.cons_inv (.inr (by decide))
      obtain ⟨hsame, hrest⟩ := Thinner.digits hmore
      rw [fraction_point] at h
      rw [fraction_point, hsame]
      split at h
      · next hnone =>
          cases h
          rw [if_pos hnone]
          exact ⟨_, rfl, hthin⟩
      · next hsome =>
          cases h
          rw [if_neg hsome]
          exact ⟨_, rfl, hrest⟩
    · rw [fraction_eq hpoint] at h
      have hpoint' := (hthin.head_iff (d := '.') (by decide) (by decide)).not.mp hpoint
      rw [fraction_eq hpoint']
      cases h
      exact ⟨_, rfl, hthin⟩

theorem Thinner.exponentDigits {whole whole' : List Char} (mark : List Char)
    (hwhole : Thinner .outside whole whole') (h : Thinner .outside text thin) :
    (exponentDigits mark whole' thin).1 = (exponentDigits mark whole text).1 ∧
      Thinner .outside (exponentDigits mark whole text).2 (exponentDigits mark whole' thin).2 := by
  obtain ⟨hsame, hrest⟩ := h.digits
  unfold JsonText.exponentDigits
  rw [hsame]
  split
  · exact ⟨rfl, hwhole⟩
  · exact ⟨rfl, hrest⟩

theorem free_exponentDigits (mark : List Char) (hmark : ∀ c ∈ mark, c ≠ '"' ∧ c ≠ ',')
    (h : Free (· = .outside) .outside (exponentDigits mark (mark ++ text) text).2) :
    Free (· = .outside) .outside (mark ++ text) := by
  unfold exponentDigits at h
  split at h
  · exact h
  · exact free_append hmark (tolerates_digits.free rfl h)

def isSign (c : Char) : Prop := c = '+' ∨ c = '-'

def isMark (c : Char) : Prop := c = 'e' ∨ c = 'E'

theorem exponent_other (h : ∀ c, text.head? = some c → ¬isMark c) :
    exponent text = ([], text) := by
  unfold exponent
  split
  · next e sign rest =>
      have := h e rfl
      unfold isMark at this
      rw [if_pos (not_or.mp this)]
  · rfl

theorem exponent_signed {e sign : Char} (he : isMark e) (hsign : isSign sign) :
    exponent (e :: sign :: text) = exponentDigits [e, sign] (e :: sign :: text) text := by
  have hnot : ¬(e ≠ 'e' ∧ e ≠ 'E') := not_and_or.mpr (he.imp not_not.mpr not_not.mpr)
  unfold exponent
  dsimp only
  rw [if_neg hnot]
  exact if_pos hsign

theorem exponent_unsigned {e : Char} (he : isMark e)
    (hsign : ∀ c, text.head? = some c → ¬isSign c) :
    exponent (e :: text) = exponentDigits [e] (e :: text) text := by
  cases text with
  | nil => rfl
  | cons sign rest =>
      have hnot : ¬(e ≠ 'e' ∧ e ≠ 'E') := not_and_or.mpr (he.imp not_not.mpr not_not.mpr)
      unfold exponent
      dsimp only
      rw [if_neg hnot]
      exact if_neg (hsign sign rfl)

theorem isMark_solid (h : isMark c) : isSpace c = false ∧ isClosing c = false ∧ c ≠ '"' ∧ c ≠ ',' := by
  rcases h with rfl | rfl <;> decide

theorem isSign_solid (h : isSign c) : isSpace c = false ∧ isClosing c = false ∧ c ≠ '"' ∧ c ≠ ',' := by
  rcases h with rfl | rfl <;> decide

-- Every text is of one of the three forms.
theorem exponent_cases (text : List Char) :
    (∀ c, text.head? = some c → ¬isMark c) ∨
    (∃ e sign rest, isMark e ∧ isSign sign ∧ text = e :: sign :: rest) ∨
    (∃ e rest, isMark e ∧ (∀ c, rest.head? = some c → ¬isSign c) ∧ text = e :: rest) := by
  by_cases hmark : ∃ c, text.head? = some c ∧ isMark c
  · obtain ⟨e, hhead, he⟩ := hmark
    obtain ⟨rest, rfl⟩ := List.head?_eq_some_iff.mp hhead
    by_cases hsign : ∃ c, rest.head? = some c ∧ isSign c
    · obtain ⟨sign, hhead, hsign⟩ := hsign
      obtain ⟨rest, rfl⟩ := List.head?_eq_some_iff.mp hhead
      exact .inr (.inl ⟨e, sign, rest, he, hsign, rfl⟩)
    · exact .inr (.inr ⟨e, rest, he, fun c hc hs => hsign ⟨c, hc, hs⟩, rfl⟩)
  · exact .inl fun c hc hm => hmark ⟨c, hc, hm⟩

theorem tolerates_exponent : Tolerates .outside .outside fun text => some (exponent text) where
  free := by
    intro text found rest h hrest
    rw [Option.some.injEq] at h
    have hrest' : Free (· = .outside) .outside (exponent text).2 := by
      rw [h]
      exact hrest
    rcases exponent_cases text with hother | ⟨e, sign, more, he, hsign, rfl⟩ |
      ⟨e, more, he, hsign, rfl⟩
    · rw [exponent_other hother] at hrest'
      exact hrest'
    · rw [exponent_signed he hsign] at hrest'
      refine free_exponentDigits [e, sign] ?_ hrest'
      simp only [List.mem_cons, List.not_mem_nil, or_false]
      rintro c (rfl | rfl)
      · exact (isMark_solid he).2.2
      · exact (isSign_solid hsign).2.2
    · rw [exponent_unsigned he hsign] at hrest'
      refine free_exponentDigits [e] ?_ hrest'
      simp only [List.mem_cons, List.not_mem_nil, or_false]
      rintro c rfl
      exact (isMark_solid he).2.2
  thin := by
    intro text found rest thin h hthin
    rw [Option.some.injEq] at h
    suffices hsame : (exponent thin).1 = (exponent text).1 ∧
        Thinner .outside (exponent text).2 (exponent thin).2 by
      rw [h] at hsame
      exact ⟨(exponent thin).2, congrArg some (Prod.ext hsame.1 rfl), hsame.2⟩
    rcases exponent_cases text with hother | ⟨e, sign, more, he, hsign, rfl⟩ |
      ⟨e, more, he, hsign, rfl⟩
    · have hother' : ∀ c, thin.head? = some c → ¬isMark c := by
        intro c hc hmark
        obtain ⟨hsolid, hclosing, -⟩ := isMark_solid hmark
        exact hother c ((hthin.head_iff hsolid hclosing).mpr hc) hmark
      rw [exponent_other hother, exponent_other hother']
      exact ⟨rfl, hthin⟩
    · obtain ⟨thin', rfl, hsigned⟩ := hthin.cons_inv (.inr (isMark_solid he).1)
      rw [next_outside (isMark_solid he).2.2.1] at hsigned
      obtain ⟨more', rfl, hmore⟩ := hsigned.cons_inv (.inr (isSign_solid hsign).1)
      rw [next_outside (isSign_solid hsign).2.2.1] at hmore
      rw [exponent_signed he hsign, exponent_signed he hsign]
      exact Thinner.exponentDigits _ hthin hmore
    · obtain ⟨more', rfl, hmore⟩ := hthin.cons_inv (.inr (isMark_solid he).1)
      rw [next_outside (isMark_solid he).2.2.1] at hmore
      have hsign' : ∀ c, more'.head? = some c → ¬isSign c := by
        intro c hc hs
        obtain ⟨hsolid, hclosing, -⟩ := isSign_solid hs
        exact hsign c ((hmore.head_iff hsolid hclosing).mpr hc) hs
      rw [exponent_unsigned he hsign, exponent_unsigned he hsign']
      exact Thinner.exponentDigits _ hthin hmore

-- The number that has these three parts.
def numberOf (floatOf : List Char → BitVec 64) (negative : Bool) (whole part power : List Char) :
    Option Json :=
  if whole.isEmpty then none
  else if part.isEmpty ∧ power.isEmpty then
    if maxStrDigits < whole.length then none
    else some (.int (if negative then -natOfDigits whole else natOfDigits whole))
  else some (.float (floatOf ((if negative then ['-'] else []) ++ whole ++ part ++ power)))

theorem unsigned_eq (negative : Bool) (text : List Char) :
    unsigned floatOf negative text =
      (numberOf floatOf negative (wholeDigits text)
        (fraction (text.drop (wholeDigits text).length)).1
        (exponent (fraction (text.drop (wholeDigits text).length)).2).1).map fun v =>
          (v, (exponent (fraction (text.drop (wholeDigits text).length)).2).2) := by
  unfold unsigned numberOf
  dsimp only
  split
  · rfl
  · split
    · split <;> rfl
    · rfl

theorem tolerates_unsigned (negative : Bool) :
    Tolerates .outside .outside (unsigned floatOf negative) where
  free := by
    intro text v rest h hrest
    rw [unsigned_eq] at h
    obtain ⟨number, -, heq⟩ := Option.map_eq_some_iff.mp h
    cases heq
    exact tolerates_whole.free rfl (tolerates_fraction.free rfl (tolerates_exponent.free rfl hrest))
  thin := by
    intro text v rest thin h hthin
    obtain ⟨hwhole, hafterWhole⟩ := tolerates_whole.total hthin
    obtain ⟨hpart, hafterPart⟩ := tolerates_fraction.total hafterWhole
    obtain ⟨hpower, hafterPower⟩ := tolerates_exponent.total hafterPart
    dsimp only at hwhole hafterWhole hpart hafterPart hpower hafterPower
    rw [unsigned_eq] at h
    obtain ⟨number, hnumber, heq⟩ := Option.map_eq_some_iff.mp h
    cases heq
    rw [unsigned_eq, hpower, hpart, hwhole, hnumber]
    rw [hwhole] at hafterPower
    exact ⟨_, rfl, hafterPower⟩

end Numbers

section Strings

variable {text thin rest : List Char}

theorem tolerates_codes : Tolerates .inside .outside codes where
  free := by
    intro text units rest h hrest
    fun_induction codes text generalizing units with
    | case1 => cases h
    | case2 rest' =>
        cases h
        exact ⟨fun hmode => (by cases hmode), hrest⟩
    | case3 a b c d rest' va vb vc vd hd hc hb ha ih =>
        obtain ⟨⟨more, rest''⟩, hmore, heq⟩ := Option.map_eq_some_iff.mp h
        cases heq
        have hstep (x : Char) (v : Nat) (hx : hexValue x = some v) (text : List Char)
            (htext : Free (· = .outside) .inside text) :
            Free (· = .outside) .inside (x :: text) := by
          obtain ⟨hquote, hslash⟩ := hexValue_plain (c := x) (by simp [hx])
          refine ⟨fun hmode => (by cases hmode), ?_⟩
          rw [next_inside hquote hslash]
          exact htext
        refine ⟨fun hmode => (by cases hmode), fun hmode => (by cases hmode), ?_⟩
        exact hstep a va ha _ (hstep b vb hb _ (hstep c vc hc _ (hstep d vd hd _ (ih hmore))))
    | case4 | case5 | case7 => cases h
    | case6 c rest' _ code hcode ih =>
        obtain ⟨⟨more, rest''⟩, hmore, heq⟩ := Option.map_eq_some_iff.mp h
        cases heq
        exact ⟨fun hmode => (by cases hmode), fun hmode => (by cases hmode), ih hmore⟩
    | case8 c rest' hquote _ _ hplain ih =>
        obtain ⟨⟨more, rest''⟩, hmore, heq⟩ := Option.map_eq_some_iff.mp h
        cases heq
        have hslash : c ≠ '\\' := fun hc => hplain (Or.inr hc)
        refine ⟨fun hmode => (by cases hmode), ?_⟩
        rw [next_inside hquote hslash]
        exact ih hmore
  thin := by
    intro text units rest thin h hthin
    fun_induction codes text generalizing units thin with
    | case1 => cases h
    | case2 rest' =>
        cases h
        obtain ⟨thin', rfl, hrest⟩ := hthin.cons_inv (.inl (by decide))
        exact ⟨thin', rfl, hrest⟩
    | case3 a b c d rest' va vb vc vd hd hc hb ha ih =>
        obtain ⟨⟨more, rest''⟩, hmore, heq⟩ := Option.map_eq_some_iff.mp h
        cases heq
        have hstep (x : Char) (v : Nat) (hx : hexValue x = some v) {text thin : List Char}
            (hthin : Thinner .inside (x :: text) thin) :
            ∃ thin', thin = x :: thin' ∧ Thinner .inside text thin' := by
          obtain ⟨hquote, hslash⟩ := hexValue_plain (c := x) (by simp [hx])
          obtain ⟨thin', rfl, hrest⟩ := hthin.cons_inv (.inl (by decide))
          rw [next_inside hquote hslash] at hrest
          exact ⟨thin', rfl, hrest⟩
        obtain ⟨thin₁, rfl, hthin₁⟩ := hthin.cons_inv (.inl (by decide))
        obtain ⟨thin₂, rfl, hthin₂⟩ := hthin₁.cons_inv (.inl (by decide))
        obtain ⟨thin₃, rfl, hthin₃⟩ := hstep a va ha hthin₂
        obtain ⟨thin₄, rfl, hthin₄⟩ := hstep b vb hb hthin₃
        obtain ⟨thin₅, rfl, hthin₅⟩ := hstep c vc hc hthin₄
        obtain ⟨thin₆, rfl, hthin₆⟩ := hstep d vd hd hthin₅
        obtain ⟨rest', hfound, hrest⟩ := ih hmore hthin₆
        refine ⟨rest', ?_, hrest⟩
        rw [codes]
        simp only [ha, hb, hc, hd, hfound, Option.map_some]
    | case4 | case5 | case7 => cases h
    | case6 c rest' _ code hcode ih =>
        obtain ⟨⟨more, rest''⟩, hmore, heq⟩ := Option.map_eq_some_iff.mp h
        cases heq
        obtain ⟨thin₁, rfl, hthin₁⟩ := hthin.cons_inv (.inl (by decide))
        obtain ⟨thin₂, rfl, hthin₂⟩ := hthin₁.cons_inv (.inl (by decide))
        obtain ⟨rest', hfound, hrest⟩ := ih hmore hthin₂
        refine ⟨rest', ?_, hrest⟩
        rw [codes_short hcode, hfound]
        rfl
    | case8 c rest' hquote _ _ hplain ih =>
        obtain ⟨⟨more, rest''⟩, hmore, heq⟩ := Option.map_eq_some_iff.mp h
        cases heq
        have hslash : c ≠ '\\' := fun hc => hplain (Or.inr hc)
        obtain ⟨thin', rfl, hthin'⟩ := hthin.cons_inv (.inl (by decide))
        rw [next_inside hquote hslash] at hthin'
        obtain ⟨rest', hfound, hrest⟩ := ih hmore hthin'
        refine ⟨rest', ?_, hrest⟩
        rw [codes_plain hquote hslash (Nat.le_of_not_lt fun hlow => hplain (Or.inl hlow)), hfound]
        rfl

theorem tolerates_string : Tolerates .inside .outside string where
  free := by
    intro text s rest h hrest
    obtain ⟨⟨units, rest'⟩, hcodes, heq⟩ := Option.map_eq_some_iff.mp h
    cases heq
    exact tolerates_codes.free hcodes hrest
  thin := by
    intro text s rest thin h hthin
    obtain ⟨⟨units, rest'⟩, hcodes, heq⟩ := Option.map_eq_some_iff.mp h
    cases heq
    obtain ⟨rest', hfound, hrest⟩ := tolerates_codes.thin hcodes hthin
    refine ⟨rest', ?_, hrest⟩
    unfold string
    rw [hfound]
    rfl

end Strings

section Skip

variable {text thin rest : List Char} {c : Char}

theorem free_skip (h : Free (· = .outside) .outside (skip text)) :
    Free (· = .outside) .outside text := by
  have hblank : ∀ c ∈ text.takeWhile isBlank, c ≠ '"' ∧ c ≠ ',' := by
    intro c hc
    have := List.mem_takeWhile_imp hc
    constructor <;> rintro rfl <;> cases this
  rw [← List.takeWhile_append_dropWhile (p := isBlank) (l := text)]
  exact free_append hblank h

-- Up to the next character that is no whitespace.
theorem Thinner.skip (h : Thinner .outside text thin) (hskip : JsonText.skip text = c :: rest)
    (hc : isSpace c = false) : Thinner .outside (JsonText.skip text) (JsonText.skip thin) := by
  induction text generalizing thin with
  | nil => cases hskip
  | cons d text ih =>
      cases hblank : isBlank d with
      | true =>
          rw [skip_blank hblank] at hskip ⊢
          cases h with
          | keep h =>
              have hd : d ≠ '"' := by
                rintro rfl
                cases hblank
              rw [next_outside hd] at h
              rw [skip_blank hblank]
              exact ih h hskip
          | drop _ _ h => exact ih h hskip
      | false =>
          rw [skip_cons hblank] at hskip
          cases hskip
          obtain ⟨thin', rfl, hrest⟩ := h.cons_inv (.inr hc)
          rw [skip_cons hblank, skip_cons hblank]
          exact h

theorem Thinner.skipTo (h : Thinner .outside text thin) (hskip : JsonText.skip text = c :: rest)
    (hc : isSpace c = false) (hquote : c ≠ '"') :
    ∃ rest', JsonText.skip thin = c :: rest' ∧ Thinner .outside rest rest' := by
  have hthin := h.skip hskip hc
  rw [hskip] at hthin
  obtain ⟨rest', hthin', hrest⟩ := hthin.cons_inv (.inr hc)
  rw [next_outside hquote] at hrest
  exact ⟨rest', hthin', hrest⟩

theorem free_skipTo (hskip : skip text = c :: rest) (hquote : c ≠ '"')
    (hcloses : c = ',' → closes rest = false) (h : Free (· = .outside) .outside rest) :
    Free (· = .outside) .outside text := by
  refine free_skip ?_
  rw [hskip]
  refine ⟨fun _ => hcloses, ?_⟩
  rw [next_outside hquote]
  exact h

theorem free_skipPlain (hskip : skip text = c :: rest) (hquote : c ≠ '"') (hcomma : c ≠ ',')
    (h : Free (· = .outside) .outside rest) : Free (· = .outside) .outside text :=
  free_skipTo hskip hquote (fun hc => absurd hc hcomma) h

theorem closes_of_skip (hskip : skip text = c :: rest) (hc : isSpace c = false) :
    closes text = isClosing c := by
  have hblank : ∀ c ∈ text.takeWhile isBlank, isSpace c = true :=
    fun c hc => isBlank_space (List.mem_takeWhile_imp hc)
  rw [← List.takeWhile_append_dropWhile (p := isBlank) (l := text), closes_append hblank]
  have hdrop : text.dropWhile isBlank = c :: rest := hskip
  rw [hdrop, closes_solid hc]

end Skip

section Tolerance

variable {floatOf : List Char → BitVec 64} {fuel : Nat} {text thin rest : List Char} {v : Json}

structure Tolerant (floatOf : List Char → BitVec 64) (fuel : Nat) : Prop where
  value : Tolerates .outside .outside (value floatOf fuel)
  members : Tolerates .outside .outside (members floatOf fuel)
  elements : Tolerates .outside .outside (elements floatOf fuel)

-- A value behind whitespace.
theorem Tolerates.skip {α : Type} {parse : List Char → Option (α × List Char)}
    (h : Tolerates .outside .outside parse) {found : α}
    (hhead : ∃ c more, JsonText.skip text = c :: more ∧ isSpace c = false)
    (hparse : parse (JsonText.skip text) = some (found, rest)) (hthin : Thinner .outside text thin) :
    ∃ rest', parse (JsonText.skip thin) = some (found, rest') ∧ Thinner .outside rest rest' := by
  obtain ⟨c, more, hskip, hsolid⟩ := hhead
  exact h.thin hparse (hthin.skip hskip hsolid)

-- A comma of an object or of an array has something behind it.
theorem free_comma {afterComma : List Char} (hcomma : skip text = ',' :: afterComma)
    (hhead : ∃ c more, skip afterComma = c :: more ∧ isSpace c = false ∧ isClosing c = false)
    (h : Free (· = .outside) .outside (skip afterComma)) : Free (· = .outside) .outside text := by
  obtain ⟨c, more, hskip, hsolid, hclosing⟩ := hhead
  refine free_skipTo hcomma (by decide) (fun _ => ?_) (free_skip h)
  rw [closes_of_skip hskip hsolid, hclosing]

theorem free_quote (h : Free (· = .outside) .inside text) :
    Free (· = .outside) .outside ('"' :: text) :=
  ⟨fun _ hc => (by cases hc), h⟩

theorem free_plain {c : Char} (hquote : c ≠ '"') (hcomma : c ≠ ',')
    (h : Free (· = .outside) .outside text) : Free (· = .outside) .outside (c :: text) := by
  refine ⟨fun _ hc => absurd hc hcomma, ?_⟩
  rw [next_outside hquote]
  exact h

theorem word_plain {entry : List Char × Json} (h : entry ∈ words floatOf) :
    ∀ c ∈ entry.1, isSpace c = false ∧ c ≠ '"' ∧ c ≠ ',' := by
  have hall (word : List Char) (hword : word.all fun c => !isSpace c && c ≠ '"' && c ≠ ',') :
      ∀ c ∈ word, isSpace c = false ∧ c ≠ '"' ∧ c ≠ ',' := by
    intro c hc
    have := List.all_eq_true.mp hword c hc
    simpa [and_assoc] using this
  simp only [words, List.mem_cons, List.not_mem_nil, or_false] at h
  rcases h with rfl | rfl | rfl | rfl | rfl | rfl <;> exact hall _ rfl

theorem Thinner.append_inv {word : List Char} (hword : ∀ c ∈ word, isSpace c = false ∧ c ≠ '"' ∧ c ≠ ',')
    (h : Thinner .outside (word ++ text) thin) :
    ∃ thin', thin = word ++ thin' ∧ Thinner .outside text thin' := by
  induction word generalizing thin with
  | nil => exact ⟨thin, rfl, h⟩
  | cons c word ih =>
      obtain ⟨hsolid, hquote, -⟩ := hword c List.mem_cons_self
      obtain ⟨thin', rfl, hrest⟩ := h.cons_inv (.inr hsolid)
      rw [next_outside hquote] at hrest
      obtain ⟨thin', rfl, hthin⟩ := ih (fun c hc => hword c (List.mem_cons_of_mem _ hc)) hrest
      exact ⟨thin', rfl, hthin⟩

theorem Tolerant.value_succ (h : Tolerant floatOf fuel) :
    Tolerates .outside .outside (JsonText.value floatOf (fuel + 1)) where
  free := by
    intro text v rest hv hrest
    cases readsValue_of_value hv with
    | str hstring => exact free_quote (tolerates_string.free hstring hrest)
    | emptyObj hskip =>
        exact free_plain (by decide) (by decide)
          (free_skipPlain hskip (by decide) (by decide) hrest)
    | obj hpairs =>
        exact free_plain (by decide) (by decide) (free_skip (h.members.free hpairs hrest))
    | emptyArr hskip =>
        exact free_plain (by decide) (by decide)
          (free_skipPlain hskip (by decide) (by decide) hrest)
    | arr hitems =>
        exact free_plain (by decide) (by decide) (free_skip (h.elements.free hitems hrest))
    | word rest hentry => exact free_append (fun c hc => (word_plain hentry c hc).2) hrest
    | negative hnumber =>
        exact free_plain (by decide) (by decide) ((tolerates_unsigned true).free hnumber hrest)
    | number hnumber => exact (tolerates_unsigned false).free hnumber hrest
  thin := by
    intro text v rest thin hv hthin
    suffices hreads : ∃ rest', ReadsValue floatOf fuel thin v rest' ∧ Thinner .outside rest rest' by
      obtain ⟨rest', hreads, hrest⟩ := hreads
      exact ⟨rest', value_of_readsValue hreads, hrest⟩
    cases readsValue_of_value hv with
    | str hstring =>
        obtain ⟨thin', rfl, hthin'⟩ := hthin.cons_inv (.inr (by decide))
        obtain ⟨rest', hfound, hrest⟩ := tolerates_string.thin hstring hthin'
        exact ⟨rest', .str hfound, hrest⟩
    | emptyObj hskip =>
        obtain ⟨thin', rfl, hthin'⟩ := hthin.cons_inv (.inr (by decide))
        obtain ⟨rest', hskip', hrest⟩ := Thinner.skipTo hthin' hskip (by decide) (by decide)
        exact ⟨rest', .emptyObj hskip', hrest⟩
    | obj hpairs =>
        obtain ⟨thin', rfl, hthin'⟩ := hthin.cons_inv (.inr (by decide))
        obtain ⟨more, hhead⟩ := members_head hpairs
        obtain ⟨rest', hfound, hrest⟩ := h.members.skip ⟨_, _, hhead, by decide⟩ hpairs hthin'
        exact ⟨rest', .obj hfound, hrest⟩
    | emptyArr hskip =>
        obtain ⟨thin', rfl, hthin'⟩ := hthin.cons_inv (.inr (by decide))
        obtain ⟨rest', hskip', hrest⟩ := Thinner.skipTo hthin' hskip (by decide) (by decide)
        exact ⟨rest', .emptyArr hskip', hrest⟩
    | arr hitems =>
        obtain ⟨thin', rfl, hthin'⟩ := hthin.cons_inv (.inr (by decide))
        obtain ⟨c, more, hhead, hsolid, -⟩ := elements_head hitems
        obtain ⟨rest', hfound, hrest⟩ := h.elements.skip ⟨_, _, hhead, hsolid⟩ hitems hthin'
        exact ⟨rest', .arr hfound, hrest⟩
    | word rest hentry =>
        obtain ⟨thin', rfl, hrest⟩ := hthin.append_inv (word_plain hentry)
        exact ⟨thin', .word thin' hentry, hrest⟩
    | negative hnumber =>
        obtain ⟨thin', rfl, hthin'⟩ := hthin.cons_inv (.inr (by decide))
        obtain ⟨rest', hfound, hrest⟩ := (tolerates_unsigned true).thin hnumber hthin'
        exact ⟨rest', .negative hfound, hrest⟩
    | number hnumber =>
        obtain ⟨rest', hfound, hrest⟩ := (tolerates_unsigned false).thin hnumber hthin
        exact ⟨rest', .number hfound, hrest⟩

theorem Tolerant.members_succ (h : Tolerant floatOf fuel) :
    Tolerates .outside .outside (JsonText.members floatOf (fuel + 1)) where
  free := by
    intro text pairs rest hpairs hrest
    cases readsMembers_of_members hpairs with
    | last hkey hcolon hitem hclose =>
        refine free_quote (tolerates_string.free hkey
          (free_skipPlain hcolon (by decide) (by decide) (free_skip (h.value.free hitem ?_))))
        exact free_skipPlain hclose (by decide) (by decide) hrest
    | more hkey hcolon hitem hcomma hmore =>
        refine free_quote (tolerates_string.free hkey
          (free_skipPlain hcolon (by decide) (by decide) (free_skip (h.value.free hitem ?_))))
        obtain ⟨more, hhead⟩ := members_head hmore
        exact free_comma hcomma ⟨_, _, hhead, by decide, by decide⟩ (h.members.free hmore hrest)
  thin := by
    intro text pairs rest thin hpairs hthin
    suffices hreads : ∃ rest', ReadsMembers floatOf fuel thin pairs rest' ∧
        Thinner .outside rest rest' by
      obtain ⟨rest', hreads, hrest⟩ := hreads
      exact ⟨rest', members_of_readsMembers hreads, hrest⟩
    cases readsMembers_of_members hpairs with
    | last hkey hcolon hitem hclose =>
        obtain ⟨thin₀, rfl, hthin₀⟩ := hthin.cons_inv (.inr (by decide))
        obtain ⟨thin₁, hkey', hthin₁⟩ := tolerates_string.thin hkey hthin₀
        obtain ⟨thin₂, hcolon', hthin₂⟩ := hthin₁.skipTo hcolon (by decide) (by decide)
        obtain ⟨c, more, hhead, hsolid, -⟩ := value_head hitem
        obtain ⟨thin₃, hitem', hthin₃⟩ := h.value.skip ⟨_, _, hhead, hsolid⟩ hitem hthin₂
        obtain ⟨rest', hclose', hrest⟩ := hthin₃.skipTo hclose (by decide) (by decide)
        exact ⟨rest', .last hkey' hcolon' hitem' hclose', hrest⟩
    | more hkey hcolon hitem hcomma hmore =>
        obtain ⟨thin₀, rfl, hthin₀⟩ := hthin.cons_inv (.inr (by decide))
        obtain ⟨thin₁, hkey', hthin₁⟩ := tolerates_string.thin hkey hthin₀
        obtain ⟨thin₂, hcolon', hthin₂⟩ := hthin₁.skipTo hcolon (by decide) (by decide)
        obtain ⟨c, more, hhead, hsolid, -⟩ := value_head hitem
        obtain ⟨thin₃, hitem', hthin₃⟩ := h.value.skip ⟨_, _, hhead, hsolid⟩ hitem hthin₂
        obtain ⟨thin₄, hcomma', hthin₄⟩ := hthin₃.skipTo hcomma (by decide) (by decide)
        obtain ⟨more', hhead'⟩ := members_head hmore
        obtain ⟨rest', hmore', hrest⟩ := h.members.skip ⟨_, _, hhead', by decide⟩ hmore hthin₄
        exact ⟨rest', .more hkey' hcolon' hitem' hcomma' hmore', hrest⟩

theorem Tolerant.elements_succ (h : Tolerant floatOf fuel) :
    Tolerates .outside .outside (JsonText.elements floatOf (fuel + 1)) where
  free := by
    intro text items rest hitems hrest
    cases readsElements_of_elements hitems with
    | last hitem hclose =>
        exact h.value.free hitem (free_skipPlain hclose (by decide) (by decide) hrest)
    | more hitem hcomma hmore =>
        exact h.value.free hitem
          (free_comma hcomma (elements_head hmore) (h.elements.free hmore hrest))
  thin := by
    intro text items rest thin hitems hthin
    suffices hreads : ∃ rest', ReadsElements floatOf fuel thin items rest' ∧
        Thinner .outside rest rest' by
      obtain ⟨rest', hreads, hrest⟩ := hreads
      exact ⟨rest', elements_of_readsElements hreads, hrest⟩
    cases readsElements_of_elements hitems with
    | last hitem hclose =>
        obtain ⟨thin₁, hitem', hthin₁⟩ := h.value.thin hitem hthin
        obtain ⟨rest', hclose', hrest⟩ := hthin₁.skipTo hclose (by decide) (by decide)
        exact ⟨rest', .last hitem' hclose', hrest⟩
    | more hitem hcomma hmore =>
        obtain ⟨thin₁, hitem', hthin₁⟩ := h.value.thin hitem hthin
        obtain ⟨thin₂, hcomma', hthin₂⟩ := hthin₁.skipTo hcomma (by decide) (by decide)
        obtain ⟨c, more, hhead, hsolid, -⟩ := elements_head hmore
        obtain ⟨rest', hmore', hrest⟩ := h.elements.skip ⟨_, _, hhead, hsolid⟩ hmore hthin₂
        exact ⟨rest', .more hitem' hcomma' hmore', hrest⟩

theorem tolerant (floatOf : List Char → BitVec 64) (fuel : Nat) : Tolerant floatOf fuel := by
  induction fuel with
  | zero =>
      refine ⟨⟨fun h => ?_, fun h => ?_⟩, ⟨fun h => ?_, fun h => ?_⟩, ⟨fun h => ?_, fun h => ?_⟩⟩
      · cases h
      · cases h
      · simp [JsonText.members] at h
      · simp [JsonText.members] at h
      · simp [JsonText.elements] at h
      · simp [JsonText.elements] at h
  | succ fuel ih => exact ⟨ih.value_succ, ih.members_succ, ih.elements_succ⟩

-- json.loads accepts no trailing comma.
theorem free_of_loads (h : loads floatOf text = some v) : Free (· = .outside) .outside text := by
  obtain ⟨rest, hvalue, hrest⟩ := loads_eq_some_iff.mp h
  refine free_skip ((tolerant floatOf _).value.free hvalue (free_skip ?_))
  rw [hrest]
  trivial

-- The whitespace in front of closing brackets makes no difference to it.
theorem loads_thinner {w : Json} (hthin : Thinner .outside text thin)
    (hv : loads floatOf text = some v) (hw : loads floatOf thin = some w) : w = v := by
  obtain ⟨rest, hvalue, -⟩ := loads_eq_some_iff.mp hv
  obtain ⟨rest', hvalue', -⟩ := loads_eq_some_iff.mp hw
  obtain ⟨c, more, hhead, hsolid, -⟩ := value_head hvalue
  obtain ⟨found, hfound, -⟩ :=
    (tolerant floatOf _).value.skip ⟨_, _, hhead, hsolid⟩ hvalue hthin
  rw [value_mono (Nat.succ_le_succ hthin.length_le) hvalue', Option.some.injEq,
    Prod.mk.injEq] at hfound
  exact hfound.1

end Tolerance

end EvoClaw.JsonText
