import EvoClaw.Text.Search
import Mathlib.Data.List.Infix
import Mathlib.Data.Set.Defs

-- The replacement of each match of a pattern, from left to right, and what it does to a text
-- with a hole.
namespace EvoClaw.Text

variable {α : Type*} {matchAt : List α → Option Nat} {into : List α → Option (Option Nat)}
  {replace : List α → List α} {head value after text : List α} {c : α} {skip : Nat}

-- re.sub for a pattern that matches no empty text. `matchAt` gives the length of the match
-- that begins the text, and the next `skip` characters belong to the match before them.
def substitute (matchAt : List α → Option Nat) (replace : List α → List α) :
    Nat → List α → List α
  | _, [] => []
  | skip + 1, _ :: rest => substitute matchAt replace skip rest
  | 0, c :: rest =>
      match matchAt (c :: rest) with
      | some (n + 1) => replace ((c :: rest).take (n + 1)) ++ substitute matchAt replace n rest
      | _ => c :: substitute matchAt replace 0 rest

-- The text before a hole, up to the match that runs into the hole, and what that match has of
-- the text. `into` gives the length of a match, or none for one that ends with the hole.
def scanHead (into : List α → Option (Option Nat)) (replace : List α → List α) :
    Nat → List α → List α × Option (List α)
  | _, [] => ([], none)
  | skip + 1, _ :: rest => scanHead into replace skip rest
  | 0, c :: rest =>
      match into (c :: rest) with
      | some none => ([], some (c :: rest))
      | some (some (n + 1)) =>
          let scanned := scanHead into replace n rest
          (replace ((c :: rest).take (n + 1)) ++ scanned.1, scanned.2)
      | _ =>
          let scanned := scanHead into replace 0 rest
          (c :: scanned.1, scanned.2)

-- How a pattern matches where the hole is filled with `value` and followed by `after`.
def FillsHole (matchAt : List α → Option Nat) (into : List α → Option (Option Nat))
    (value after head : List α) : Prop :=
  matchAt (head ++ (value ++ after)) =
    (into head).map fun inside => inside.getD (head.length + value.length)

def Inside (into : List α → Option (Option Nat)) (head : List α) : Prop :=
  ∀ n, into head = some (some n) → 0 < n ∧ n ≤ head.length

theorem substitute_skip (matchAt : List α → Option Nat) (replace : List α → List α)
    (text rest : List α) :
    substitute matchAt replace text.length (text ++ rest) = substitute matchAt replace 0 rest := by
  induction text with
  | nil => rfl
  | cons c text ih => exact ih

-- A match is replaced, and the text behind it is searched on.
theorem substitute_match {rest : List α}
    (h : matchAt (c :: (text ++ rest)) = some (text.length + 1)) :
    substitute matchAt replace 0 (c :: (text ++ rest)) =
      replace (c :: text) ++ substitute matchAt replace 0 rest := by
  have htake : (c :: (text ++ rest)).take (text.length + 1) = c :: text := by
    rw [List.take_succ_cons, List.take_left]
  rw [substitute, h]
  simp only [htake, substitute_skip]

-- A filled hole is scanned like the hole, and the match that runs into it takes the value.
theorem substitute_filled
    (hfills : ∀ h, h <:+ head → h ≠ [] → FillsHole matchAt into value after h)
    (hinside : ∀ h, Inside into h) (hskip : skip ≤ head.length) :
    substitute matchAt replace skip (head ++ (value ++ after)) =
      (scanHead into replace skip head).1 ++
        (scanHead into replace skip head).2.elim (substitute matchAt replace 0 (value ++ after))
          fun part => replace (part ++ value) ++ substitute matchAt replace 0 after := by
  induction head generalizing skip with
  | nil =>
      obtain rfl : skip = 0 := by simpa using hskip
      rfl
  | cons c rest ih =>
      have hrest : ∀ h, h <:+ rest → h ≠ [] → FillsHole matchAt into value after h :=
        fun h hsuffix => hfills h (hsuffix.trans (List.suffix_cons c rest))
      cases skip with
      | succ skip => exact ih hrest (Nat.le_of_succ_le_succ hskip)
      | zero =>
          have hmatch := hfills (c :: rest) List.suffix_rfl (List.cons_ne_nil c rest)
          unfold FillsHole at hmatch
          rw [List.cons_append] at hmatch ⊢
          rw [scanHead]
          cases hinto : into (c :: rest) with
          | none =>
              rw [hinto, Option.map_none] at hmatch
              rw [substitute, hmatch]
              exact congrArg (c :: ·) (ih hrest (Nat.zero_le _))
          | some inside =>
              rw [hinto, Option.map_some] at hmatch
              cases inside with
              | none =>
                  have hlength : (c :: rest).length + value.length =
                      (rest ++ value).length + 1 := by simp; omega
                  rw [Option.getD_none, hlength, ← List.append_assoc] at hmatch
                  rw [← List.append_assoc, substitute_match hmatch]
                  rfl
              | some n =>
                  rw [substitute, hmatch]
                  obtain ⟨hpos, hle⟩ := hinside (c :: rest) n hinto
                  obtain ⟨n, rfl⟩ := Nat.exists_eq_add_of_lt hpos
                  have htake : (c :: (rest ++ (value ++ after))).take (n + 1) =
                      (c :: rest).take (n + 1) := by
                    rw [← List.cons_append, List.take_append_of_le_length]
                    omega
                  have hn : n ≤ rest.length := by
                    rw [List.length_cons] at hle
                    omega
                  simp only [Option.getD_some, Nat.zero_add, htake, ih hrest hn, List.append_assoc]

-- The match that runs into the hole begins where the text before it ends.
theorem scanHead_part {part : List α} (h : (scanHead into replace skip head).2 = some part) :
    part <:+ head ∧ into part = some none := by
  induction head generalizing skip with
  | nil => cases h
  | cons c rest ih =>
      cases skip with
      | succ skip =>
          obtain ⟨hsuffix, hpart⟩ := ih h
          exact ⟨hsuffix.trans (List.suffix_cons c rest), hpart⟩
      | zero =>
          rw [scanHead] at h
          split at h
          · rename_i hinto
            cases h
            exact ⟨List.suffix_rfl, hinto⟩
          · obtain ⟨hsuffix, hpart⟩ := ih h
            exact ⟨hsuffix.trans (List.suffix_cons c rest), hpart⟩
          · obtain ⟨hsuffix, hpart⟩ := ih h
            exact ⟨hsuffix.trans (List.suffix_cons c rest), hpart⟩

-- What no match and no replacement has is kept as often as it was there.
theorem count_substitute [DecidableEq α]
    (hmatch : ∀ text n, matchAt text = some n → c ∉ text.take n)
    (hreplace : ∀ found, c ∉ found → c ∉ replace found) :
    (substitute matchAt replace 0 text).count c = text.count c := by
  have hskipped : ∀ text skip,
      (substitute matchAt replace skip text).count c = (text.drop skip).count c := by
    intro text
    induction text with
    | nil => intro skip; simp [substitute]
    | cons d rest ih =>
        intro skip
        cases skip with
        | succ skip => exact ih skip
        | zero =>
            rw [substitute]
            split
            · rename_i n hfound
              have hnone := hmatch _ _ hfound
              have htext : (d :: rest).count c =
                  ((d :: rest).take (n + 1)).count c + ((d :: rest).drop (n + 1)).count c := by
                rw [← List.count_append, List.take_append_drop]
              rw [List.count_append, ih, List.count_eq_zero.mpr (hreplace _ hnone), List.drop_zero,
                htext, List.count_eq_zero.mpr hnone]
              rfl
            · rw [List.count_cons, ih, List.drop_zero, List.drop_zero, List.count_cons]
  exact hskipped text 0

section Marks

variable {mark : α} {language : Set (List α)} {front middle back word : List α}

-- A pattern whose matches are the words of a language, and a replacement that keeps the front and
-- the back of a match and puts marks between them, which no word has.
structure Marks (matchAt : List α → Option Nat) (replace : List α → List α)
    (language : Set (List α)) (mark : α) (middle : List α) : Prop where
  sound : ∀ text n, matchAt text = some n → n ≤ text.length ∧ text.take n ∈ language
  complete : ∀ word ∈ language, ∀ text, word <+: text → (matchAt text).isSome
  solid : ∀ word ∈ language, word ≠ [] ∧ mark ∉ word ∧ ¬ word <:+: middle
  shape : ∀ found ∈ language, ∃ front back,
    replace found = front ++ mark :: (middle ++ mark :: back) ∧ front <+: found ∧ back <:+ found ∧
      (∀ word ∈ language, ¬ word <:+: front) ∧ ∀ c ∈ back, ∀ word ∈ language, word.head? ≠ some c

theorem prefix_of_marked (hmark : mark ∉ word) (h : word <+: front ++ mark :: back) :
    word <+: front := by
  rcases List.prefix_or_prefix_of_prefix h (List.prefix_append front _) with hword | ⟨more, rfl⟩
  · exact hword
  · rw [List.prefix_append_right_inj] at h
    cases more with
    | nil => simp
    | cons c more =>
        obtain ⟨rfl, -⟩ := List.cons_prefix_cons.mp h
        simp at hmark

-- A word that begins with none of the characters in front begins behind them.
theorem infix_behind (hne : word ≠ []) (hback : ∀ c ∈ back, word.head? ≠ some c)
    (h : word <:+: back ++ text) : word <:+: text := by
  induction back with
  | nil => exact h
  | cons c back ih =>
      rcases List.infix_cons_iff.mp h with hbegins | hinside
      · cases word with
        | nil => exact absurd rfl hne
        | cons d word =>
            obtain ⟨rfl, -⟩ := List.cons_prefix_cons.mp hbegins
            exact absurd rfl (hback d List.mem_cons_self)
      · exact ih (fun d hd => hback d (List.mem_cons_of_mem c hd)) hinside

namespace Marks

-- What a match begins with, and the text behind it.
theorem match_cases (h : Marks matchAt replace language mark middle) (c : α) (rest : List α) :
    (∃ n front back, matchAt (c :: rest) = some (n + 1) ∧ n ≤ rest.length ∧
      c :: rest.take n ∈ language ∧
      replace (c :: rest.take n) = front ++ mark :: (middle ++ mark :: back) ∧
      front <+: c :: rest.take n ∧ back <:+ c :: rest.take n ∧
      (∀ word ∈ language, ¬ word <:+: front) ∧
      ∀ c ∈ back, ∀ word ∈ language, word.head? ≠ some c) ∨
    matchAt (c :: rest) = none := by
  cases hmatch : matchAt (c :: rest) with
  | none => exact .inr rfl
  | some length =>
      obtain ⟨hlength, hfound⟩ := h.sound _ _ hmatch
      cases length with
      | zero => exact absurd rfl (h.solid _ hfound).1
      | succ n =>
          rw [List.take_succ_cons] at hfound
          obtain ⟨front, back, hshape⟩ := h.shape _ hfound
          exact .inl ⟨n, front, back, rfl, by simpa using hlength, hfound, hshape⟩

-- Before the first mark the text is as it was.
theorem prefix_substitute (h : Marks matchAt replace language mark middle) (hmark : mark ∉ word)
    {skip : Nat} (hword : word <+: substitute matchAt replace skip text) :
    word <+: text.drop skip := by
  induction text generalizing skip word with
  | nil => simpa [substitute] using hword
  | cons c rest ih =>
      cases skip with
      | succ skip => exact ih hmark hword
      | zero =>
          rcases h.match_cases c rest with ⟨n, front, back, hmatch, -, -, hreplace, hfront, -⟩ | hnone
          · rw [substitute, hmatch] at hword
            dsimp only at hword
            rw [List.take_succ_cons, hreplace, List.append_assoc, List.cons_append] at hword
            refine (prefix_of_marked hmark hword).trans (hfront.trans ?_)
            rw [List.drop_zero, ← List.take_succ_cons]
            exact List.take_prefix _ _
          · rw [substitute, hnone] at hword
            cases word with
            | nil => exact List.nil_prefix
            | cons d word =>
                obtain ⟨rfl, hrest⟩ := List.cons_prefix_cons.mp hword
                exact List.cons_prefix_cons.mpr
                  ⟨rfl, ih (fun hmem => hmark (List.mem_cons_of_mem d hmem)) hrest⟩

-- A text without a word gets none by the replacement of others.
theorem clean_of_clean (h : Marks matchAt replace language mark middle) (hne : word ≠ [])
    (hmark : mark ∉ word) (hmiddle : ¬ word <:+: middle) {skip : Nat}
    (hclean : ¬ word <:+: text.drop skip) :
    ¬ word <:+: substitute matchAt replace skip text := by
  induction text generalizing skip with
  | nil => simpa [substitute] using hne
  | cons c rest ih =>
      cases skip with
      | succ skip => exact ih hclean
      | zero =>
          rw [List.drop_zero] at hclean
          rcases h.match_cases c rest with
            ⟨n, front, back, hmatch, -, -, hreplace, hfront, hback, -⟩ | hnone
          · have hfound : c :: rest.take n <+: c :: rest := by
              rw [← List.take_succ_cons]
              exact List.take_prefix _ _
            -- the back of the match and the text behind it
            have hbehind : back ++ rest.drop n <:+ c :: rest := by
              obtain ⟨before, hbefore⟩ := hback
              refine ⟨before, ?_⟩
              rw [← List.append_assoc, hbefore, List.cons_append, List.take_append_drop]
            rw [substitute, hmatch]
            dsimp only
            rw [List.take_succ_cons, hreplace, List.append_assoc, List.cons_append,
              List.append_assoc, List.cons_append]
            intro hword
            rcases infix_split hmark hword with hword | hword
            · exact hclean (hword.trans (hfront.trans hfound).isInfix)
            · rcases infix_split hmark hword with hword | hword
              · exact hmiddle hword
              · rcases List.infix_append_iff_ne_nil.mp hword with
                  hword | hword | ⟨left, right, -, -, rfl, hleft, hright⟩
                · exact hclean (hword.trans ((List.infix_append' [] back (rest.drop n)).trans
                    hbehind.isInfix))
                · refine ih (fun hinside => hclean (hinside.trans ?_)) hword
                  exact (List.suffix_append back _).isInfix.trans hbehind.isInfix
                · have hbegins : right <+: rest.drop n :=
                    h.prefix_substitute (fun hmem => hmark (List.mem_append_right left hmem)) hright
                  refine hclean (List.IsInfix.trans ?_ hbehind.isInfix)
                  obtain ⟨before, rfl⟩ := hleft
                  obtain ⟨after, hafter⟩ := hbegins
                  exact ⟨before, after, by simp [← hafter]⟩
          · rw [substitute, hnone]
            dsimp only
            intro hword
            rcases List.infix_cons_iff.mp hword with hbegins | hinside
            · have hfirst : word <+: (c :: rest).drop 0 := by
                refine h.prefix_substitute hmark ?_
                rw [substitute, hnone]
                exact hbegins
              exact hclean hfirst.isInfix
            · refine ih (fun hrest => hclean ?_) hinside
              rw [List.drop_zero] at hrest
              exact List.infix_cons hrest

-- No word is left.
theorem clean (h : Marks matchAt replace language mark middle) (hword : word ∈ language)
    {skip : Nat} : ¬ word <:+: substitute matchAt replace skip text := by
  obtain ⟨hne, hmark, hmiddle⟩ := h.solid word hword
  induction text generalizing skip with
  | nil => simpa [substitute] using hne
  | cons c rest ih =>
      cases skip with
      | succ skip => exact ih
      | zero =>
          rcases h.match_cases c rest with
            ⟨n, front, back, hmatch, -, -, hreplace, -, -, hfront, hback⟩ | hnone
          · rw [substitute, hmatch]
            dsimp only
            rw [List.take_succ_cons, hreplace, List.append_assoc, List.cons_append,
              List.append_assoc, List.cons_append]
            intro hinside
            rcases infix_split hmark hinside with hinside | hinside
            · exact hfront word hword hinside
            · rcases infix_split hmark hinside with hinside | hinside
              · exact hmiddle hinside
              · exact ih (infix_behind hne (fun d hd => hback d hd word hword) hinside)
          · intro hinside
            have hbegins : ¬ word <+: c :: rest := fun hstarts => by
              have hsome := h.complete word hword _ hstarts
              rw [hnone] at hsome
              cases hsome
            rw [substitute, hnone] at hinside
            dsimp only at hinside
            rcases List.infix_cons_iff.mp hinside with hstarts | hinside
            · have hrest : word <+: (c :: rest).drop 0 := by
                refine h.prefix_substitute hmark ?_
                rw [substitute, hnone]
                exact hstarts
              exact hbegins hrest
            · exact ih hinside

-- A text without any word stays as it is.
theorem substitute_of_clean (h : Marks matchAt replace language mark middle)
    (hclean : ∀ word ∈ language, ¬ word <:+: text) : substitute matchAt replace 0 text = text := by
  induction text with
  | nil => rfl
  | cons c rest ih =>
      rcases h.match_cases c rest with ⟨n, front, back, -, -, hfound, -⟩ | hnone
      · refine absurd ?_ (hclean _ hfound)
        rw [← List.take_succ_cons]
        exact (List.take_prefix _ _).isInfix
      · rw [substitute, hnone]
        exact congrArg (c :: ·) (ih fun word hword hinside => hclean word hword (List.infix_cons hinside))

end Marks

end Marks

end EvoClaw.Text

-- Patterns that are literals and runs of characters one after the other, as a regular expression
-- without alternatives has them.
namespace EvoClaw.Text

variable {α : Type*} [DecidableEq α]

inductive Part (α : Type*) where
  | literal (text : List α)
  -- one character of a class or more
  | run (isIn : α → Bool)

-- The texts that a pattern stands for.
def Spells : List (Part α) → List α → Prop
  | [], text => text = []
  | .literal word :: parts, text => ∃ rest, text = word ++ rest ∧ Spells parts rest
  | .run isIn :: parts, text =>
      ∃ run rest, text = run ++ rest ∧ run ≠ [] ∧ (∀ c ∈ run, isIn c = true) ∧ Spells parts rest

-- The length of the match that begins the text. A run takes all it can.
def matchParts : List (Part α) → List α → Option Nat
  | [], _ => some 0
  | .literal word :: parts, text =>
      if word <+: text then (matchParts parts (text.drop word.length)).map (word.length + ·)
      else none
  | .run isIn :: parts, text =>
      if text.takeWhile isIn = [] then none
      else (matchParts parts (text.dropWhile isIn)).map ((text.takeWhile isIn).length + ·)

-- No run could give back a character that the next part needs.
def Separated : List (Part α) → Prop
  | [] => True
  | .literal _ :: parts => Separated parts
  | [.run _] => True
  | .run isIn :: .literal (c :: _) :: parts => isIn c = false ∧ Separated parts
  | .run _ :: _ => False

-- How often the literals have a character.
def literalCount (c : α) : List (Part α) → Nat
  | [] => 0
  | .literal word :: parts => word.count c + literalCount c parts
  | .run _ :: parts => literalCount c parts

-- No run takes the character.
def RunsAvoid (c : α) : List (Part α) → Prop
  | [] => True
  | .literal _ :: parts => RunsAvoid c parts
  | .run isIn :: parts => isIn c = false ∧ RunsAvoid c parts

section Parts

variable {parts more : List (Part α)} {text word : List α} {n : Nat} {c : α}

theorem matchParts_sound (h : matchParts parts text = some n) :
    n ≤ text.length ∧ Spells parts (text.take n) := by
  induction parts generalizing text n with
  | nil =>
      cases h
      exact ⟨Nat.zero_le _, rfl⟩
  | cons part parts ih =>
      cases part with
      | literal word =>
          rw [matchParts] at h
          split at h
          · next hbegins =>
              obtain ⟨rest, rfl⟩ := hbegins
              obtain ⟨m, hm, rfl⟩ := Option.map_eq_some_iff.mp h
              rw [List.drop_left] at hm
              obtain ⟨hlength, hspells⟩ := ih hm
              refine ⟨by simpa using hlength, rest.take m, ?_, hspells⟩
              exact List.take_length_add_append ..
          · cases h
      | run isIn =>
          rw [matchParts] at h
          split at h
          · cases h
          · next hsome =>
              obtain ⟨m, hm, rfl⟩ := Option.map_eq_some_iff.mp h
              obtain ⟨hlength, hspells⟩ := ih hm
              have htext := List.takeWhile_append_dropWhile (p := isIn) (l := text)
              have htotal := congrArg List.length htext
              rw [List.length_append] at htotal
              have htake : (text.takeWhile isIn ++ text.dropWhile isIn).take
                  ((text.takeWhile isIn).length + m) =
                    text.takeWhile isIn ++ (text.dropWhile isIn).take m :=
                List.take_length_add_append ..
              rw [htext] at htake
              exact ⟨by omega, text.takeWhile isIn, (text.dropWhile isIn).take m, htake, hsome,
                List.all_eq_true.mp List.all_takeWhile, hspells⟩

theorem matchParts_complete (hseparated : Separated parts) (hspells : Spells parts word)
    (hbegins : word <+: text) : (matchParts parts text).isSome := by
  induction parts generalizing text word with
  | nil => rfl
  | cons part parts ih =>
      cases part with
      | literal first =>
          obtain ⟨rest, rfl, hrest⟩ := hspells
          obtain ⟨after, rfl⟩ := hbegins
          rw [matchParts, List.append_assoc, if_pos (List.prefix_append first _), List.drop_left,
            Option.isSome_map]
          exact ih hseparated hrest (List.prefix_append rest after)
      | run isIn =>
          obtain ⟨run, rest, rfl, hne, hrun, hrest⟩ := hspells
          obtain ⟨after, rfl⟩ := hbegins
          have htaken : (run ++ (rest ++ after)).takeWhile isIn =
              run ++ (rest ++ after).takeWhile isIn := List.takeWhile_append_of_pos hrun
          have hdropped : (run ++ (rest ++ after)).dropWhile isIn =
              (rest ++ after).dropWhile isIn := List.dropWhile_append_of_pos hrun
          rw [matchParts, List.append_assoc, htaken, if_neg (by simp [hne]), Option.isSome_map,
            hdropped]
          cases parts with
          | nil => rfl
          | cons next parts =>
              cases next with
              | run _ => exact hseparated.elim
              | literal first =>
                  cases first with
                  | nil => exact hseparated.elim
                  | cons c first =>
                      obtain ⟨hc, hseparated⟩ := hseparated
                      have hstop : (rest ++ after).dropWhile isIn = rest ++ after := by
                        obtain ⟨tail, rfl, -⟩ := hrest
                        rw [List.cons_append, List.cons_append,
                          List.dropWhile_cons_of_neg (by simp [hc])]
                      rw [hstop]
                      exact ih hseparated hrest (List.prefix_append rest after)

omit [DecidableEq α] in
theorem spells_append : Spells (parts ++ more) text ↔
    ∃ before after, text = before ++ after ∧ Spells parts before ∧ Spells more after := by
  induction parts generalizing text with
  | nil =>
      constructor
      · exact fun h => ⟨[], text, rfl, rfl, h⟩
      · rintro ⟨before, after, rfl, rfl, h⟩
        exact h
  | cons part parts ih =>
      cases part with
      | literal word =>
          constructor
          · rintro ⟨rest, rfl, hrest⟩
            obtain ⟨before, after, rfl, hbefore, hafter⟩ := ih.mp hrest
            exact ⟨word ++ before, after, by simp, ⟨before, rfl, hbefore⟩, hafter⟩
          · rintro ⟨before, after, rfl, ⟨rest, rfl, hrest⟩, hafter⟩
            exact ⟨rest ++ after, by simp, ih.mpr ⟨rest, after, rfl, hrest, hafter⟩⟩
      | run isIn =>
          constructor
          · rintro ⟨run, rest, rfl, hne, hrun, hrest⟩
            obtain ⟨before, after, rfl, hbefore, hafter⟩ := ih.mp hrest
            exact ⟨run ++ before, after, by simp, ⟨run, before, rfl, hne, hrun, hbefore⟩, hafter⟩
          · rintro ⟨before, after, rfl, ⟨run, rest, rfl, hne, hrun, hrest⟩, hafter⟩
            exact ⟨run, rest ++ after, by simp, hne, hrun, ih.mpr ⟨rest, after, rfl, hrest, hafter⟩⟩

theorem literalCount_append :
    literalCount c (parts ++ more) = literalCount c parts + literalCount c more := by
  induction parts with
  | nil => exact (Nat.zero_add _).symm
  | cons part parts ih =>
      cases part with
      | literal word => exact (congrArg (word.count c + ·) ih).trans (Nat.add_assoc _ _ _).symm
      | run isIn => exact ih

omit [DecidableEq α] in
theorem runsAvoid_append : RunsAvoid c (parts ++ more) ↔ RunsAvoid c parts ∧ RunsAvoid c more := by
  induction parts with
  | nil => exact ⟨fun h => ⟨trivial, h⟩, And.right⟩
  | cons part parts ih =>
      cases part with
      | literal word => exact ih
      | run isIn => exact (and_congr_right fun _ => ih).trans and_assoc.symm

theorem count_of_spells (h : Spells parts word) (havoid : RunsAvoid c parts) :
    word.count c = literalCount c parts := by
  induction parts generalizing word with
  | nil =>
      cases h
      rfl
  | cons part parts ih =>
      cases part with
      | literal first =>
          obtain ⟨rest, rfl, hrest⟩ := h
          rw [List.count_append, ih hrest havoid]
          rfl
      | run isIn =>
          obtain ⟨run, rest, rfl, -, hrun, hrest⟩ := h
          obtain ⟨hc, havoid⟩ := havoid
          have hnone : c ∉ run := fun hmem => by simp [hrun c hmem] at hc
          rw [List.count_append, List.count_eq_zero.mpr hnone, ih hrest havoid, Nat.zero_add]
          rfl

omit [DecidableEq α] in
theorem getLast?_of_literal (h : Spells (parts ++ [.literal [c]]) word) :
    word.getLast? = some c := by
  obtain ⟨before, after, rfl, -, rest, rfl, rfl⟩ := spells_append.mp h
  simp

omit [DecidableEq α] in
theorem getLast?_of_run {isIn : α → Bool} (h : Spells (parts ++ [.run isIn]) word) :
    ∃ last, word.getLast? = some last ∧ isIn last = true := by
  obtain ⟨before, after, rfl, -, run, rest, rfl, hne, hrun, rfl⟩ := spells_append.mp h
  refine ⟨run.getLast hne, ?_, hrun _ (List.getLast_mem hne)⟩
  rw [List.append_nil, List.getLast?_append_of_ne_nil _ hne, List.getLast?_eq_getLast_of_ne_nil hne]

-- A text that ends in a character, and one that does not and has the character as often.
theorem not_infix_of_count {other : List α} (hlast : text.getLast? = some c)
    (hother : other.getLast? ≠ some c) (hcount : text.count c ≤ other.count c) (hne : other ≠ []) :
    ¬ other <:+: text := by
  rintro ⟨before, after, rfl⟩
  simp only [List.count_append] at hcount
  cases after.eq_nil_or_concat with
  | inl hnil =>
      subst hnil
      rw [List.append_nil, List.getLast?_append_of_ne_nil _ hne] at hlast
      exact hother hlast
  | inr hconcat =>
      obtain ⟨after, d, rfl⟩ := hconcat
      rw [List.concat_eq_append, ← List.append_assoc, List.getLast?_append_cons] at hlast
      simp only [List.getLast?_singleton, Option.some.injEq] at hlast
      subst hlast
      simp at hcount
      omega

end Parts

end EvoClaw.Text
