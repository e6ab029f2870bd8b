import Mathlib.Data.List.Basic

-- How a shell makes words and operators of a command line, and the quotes that keep a text in
-- one word. There is no result where a character would be expanded, or a quote stays open.
namespace Posix.Shell

inductive Token where
  | word (text : List Char)
  | operator (text : List Char)
deriving DecidableEq

inductive Mode where
  | blank
  -- the word so far, and whether a part of it was quoted
  | bare (text : List Char) (quoted : Bool)
  | single (text : List Char)
  | double (text : List Char)
  -- the first character of an operator
  | operator (c : Char)
deriving DecidableEq

def isBlank (c : Char) : Bool := c = ' ' ∨ c = '\t'

def isOperator (c : Char) : Bool := c = '|' ∨ c = '&' ∨ c = ';' ∨ c = '<' ∨ c = '>'

-- Expansions, patterns, comments, home directories, reserved words, subshells and new lines.
def isSpecial (c : Char) : Bool :=
  c ∈ ['$', '`', '\\', '*', '?', '[', ']', '#', '~', '!', '{', '}', '(', ')', '\n', '\'', '"']

def isPlain (c : Char) : Bool := !isBlank c && !isOperator c && !isSpecial c

-- Between two tokens.
def start (c : Char) : Option Mode :=
  if isBlank c then some .blank
  else if c = '\'' then some (.single [])
  else if c = '"' then some (.double [])
  else if isOperator c then some (.operator c)
  else if isPlain c then some (.bare [c] false)
  else none

def step : Mode → Char → Option (List Token × Mode)
  | .blank, c => (start c).map ([], ·)
  | .bare text quoted, c =>
      if c = '\'' then some ([], .single text)
      else if c = '"' then some ([], .double text)
      else if isPlain c then some ([], .bare (text ++ [c]) quoted)
      -- a number right before a redirection belongs to it
      else if (c = '<' ∨ c = '>') ∧ quoted = false ∧ text.all Char.isDigit then
        some ([.operator (text ++ [c])], .blank)
      else (start c).map ([.word text], ·)
  | .single text, c =>
      if c = '\'' then some ([], .bare text true) else some ([], .single (text ++ [c]))
  | .double text, c =>
      if c = '"' then some ([], .bare text true)
      else if c = '$' ∨ c = '`' ∨ c = '\\' then none
      else some ([], .double (text ++ [c]))
  | .operator first, c =>
      if isOperator c ∧ c = first then some ([.operator [first, c]], .blank)
      else (start c).map ([.operator [first]], ·)

def finish : Mode → Option (List Token)
  | .blank => some []
  | .bare text _ => some [.word text]
  | .operator c => some [.operator [c]]
  | .single _ | .double _ => none

def run : Mode → List Char → Option (List Token × Mode)
  | mode, [] => some ([], mode)
  | mode, c :: rest =>
      (step mode c).bind fun taken =>
        (run taken.2 rest).map fun later => (taken.1 ++ later.1, later.2)

def tokens (text : List Char) : Option (List Token) :=
  (run .blank text).bind fun taken => (finish taken.2).map fun rest => taken.1 ++ rest

-- shlex.quote
def isSafe (c : Char) : Bool :=
  ('a' ≤ c ∧ c ≤ 'z') ∨ ('A' ≤ c ∧ c ≤ 'Z') ∨ ('0' ≤ c ∧ c ≤ '9') ∨
    c ∈ ['_', '@', '%', '+', '=', ':', ',', '.', '/', '-']

def escaped (text : List Char) : List Char :=
  text.flatMap fun c => if c = '\'' then ['\'', '"', '\'', '"', '\''] else [c]

def quote (text : List Char) : List Char :=
  if text = [] then ['\'', '\'']
  else if text.all isSafe then text
  else '\'' :: (escaped text ++ ['\''])

section Running

variable {mode last : Mode} {xs ys text rest : List Char} {out more toks others : List Token}
  {c : Char} {quoted : Bool}

theorem run_cons (h : step mode c = some (out, last)) :
    run mode (c :: xs) = (run last xs).map fun later => (out ++ later.1, later.2) := by
  rw [run, h]
  rfl

theorem run_append (h : run mode xs = some (out, last)) :
    run mode (xs ++ ys) = (run last ys).map fun later => (out ++ later.1, later.2) := by
  induction xs generalizing mode out with
  | nil =>
      cases h
      simp
  | cons c xs ih =>
      rw [run, Option.bind_eq_some_iff] at h
      obtain ⟨⟨first, next⟩, hstep, hrest⟩ := h
      obtain ⟨⟨more, final⟩, hrun, heq⟩ := Option.map_eq_some_iff.mp hrest
      cases heq
      rw [List.cons_append, run_cons hstep, ih hrun, Option.map_map]
      congr 1
      funext later
      simp

theorem isPlain_of_isSafe (h : isSafe c = true) : isPlain c = true := by
  have hplain : isBlank c = false ∧ isOperator c = false ∧ isSpecial c = false := by
    refine ⟨?_, ?_, ?_⟩ <;> rw [← Bool.not_eq_true] <;> intro hc
    · simp only [isBlank, decide_eq_true_eq] at hc
      rcases hc with rfl | rfl <;> exact absurd h (by decide)
    · simp only [isOperator, decide_eq_true_eq] at hc
      rcases hc with rfl | rfl | rfl | rfl | rfl <;> exact absurd h (by decide)
    · simp only [isSpecial, decide_eq_true_eq, List.mem_cons, List.not_mem_nil, or_false] at hc
      rcases hc with rfl | rfl | rfl | rfl | rfl | rfl | rfl | rfl | rfl | rfl | rfl | rfl | rfl |
        rfl | rfl | rfl | rfl <;> exact absurd h (by decide)
  simp [isPlain, hplain.1, hplain.2.1, hplain.2.2]

theorem ne_quotes_of_isPlain (h : isPlain c = true) : c ≠ '\'' ∧ c ≠ '"' := by
  constructor <;> rintro rfl <;> exact absurd h (by decide)

-- Plain characters go on with the word.
theorem run_plain (h : ∀ c ∈ xs, isPlain c = true) :
    run (.bare text quoted) xs = some ([], .bare (text ++ xs) quoted) := by
  induction xs generalizing text with
  | nil => simp [run]
  | cons c xs ih =>
      have hc := h c List.mem_cons_self
      obtain ⟨hsingle, hdouble⟩ := ne_quotes_of_isPlain hc
      have hstep : step (.bare text quoted) c = some ([], .bare (text ++ [c]) quoted) := by
        simp [step, hsingle, hdouble, hc]
      rw [run_cons hstep, ih fun d hd => h d (List.mem_cons_of_mem c hd)]
      simp

theorem start_plain (h : isPlain c = true) : start c = some (.bare [c] false) := by
  obtain ⟨hsingle, hdouble⟩ := ne_quotes_of_isPlain h
  have hparts := h
  simp only [isPlain, Bool.and_eq_true, Bool.not_eq_true'] at hparts
  simp [start, hsingle, hdouble, h, hparts.1.1, hparts.1.2]

-- A quote in a quoted text closes it, stands in quotes of the other kind and opens it again.
theorem run_escaped : run (.single text) (escaped xs ++ ['\'']) =
    some ([], .bare (text ++ xs) true) := by
  induction xs generalizing text with
  | nil => simp [escaped, run, step]
  | cons c xs ih =>
      have hcons : escaped (c :: xs) =
          (if c = '\'' then ['\'', '"', '\'', '"', '\''] else [c]) ++ escaped xs := rfl
      rw [hcons, List.append_assoc]
      have hfirst : run (.single text)
          (if c = '\'' then ['\'', '"', '\'', '"', '\''] else [c]) =
            some ([], .single (text ++ [c])) := by
        split
        · next hquote =>
            subst hquote
            simp [run, step]
        · next hother => simp [run, step, hother]
      rw [run_append hfirst, ih]
      simp

-- Quoted text in the middle of a word.
variable (text xs quoted) in
theorem run_quote_bare : ∃ flag, run (.bare text quoted) (quote xs) =
    some ([], .bare (text ++ xs) flag) := by
  unfold quote
  split
  · next hnil =>
      subst hnil
      exact ⟨true, by simp [run, step]⟩
  · split
    · next hsafe =>
        refine ⟨quoted, run_plain fun c hc => isPlain_of_isSafe ?_⟩
        exact List.all_eq_true.mp hsafe c hc
    · refine ⟨true, ?_⟩
      have hopen : step (.bare text quoted) '\'' = some ([], .single text) := rfl
      rw [run_cons hopen, run_escaped]
      simp

variable (xs) in
theorem run_quote : ∃ flag, run .blank (quote xs) = some ([], .bare xs flag) := by
  unfold quote
  split
  · next hnil =>
      subst hnil
      exact ⟨true, by simp [run, step, start, isBlank]⟩
  · next hsome =>
      split
      · next hsafe =>
          cases xs with
          | nil => exact absurd rfl hsome
          | cons c xs =>
              have hplain : ∀ d ∈ c :: xs, isPlain d = true := fun d hd =>
                isPlain_of_isSafe (List.all_eq_true.mp hsafe d hd)
              refine ⟨false, ?_⟩
              have hfirst : step .blank c = some ([], .bare [c] false) := by
                rw [step, start_plain (hplain c List.mem_cons_self), Option.map_some]
              rw [run_cons hfirst, run_plain fun d hd => hplain d (List.mem_cons_of_mem c hd)]
              simp
      · refine ⟨true, ?_⟩
        have hopen : step .blank '\'' = some ([], .single []) := rfl
        rw [run_cons hopen, run_escaped]
        simp

theorem tokens_of_run (hrun : run .blank xs = some (out, mode)) (hfinish : finish mode = some more) :
    tokens xs = some (out ++ more) := by
  rw [tokens, hrun, Option.bind_some, hfinish]
  rfl

-- A space ends what can be ended.
theorem step_space (h : finish mode = some out) : step mode ' ' = some (out, .blank) := by
  cases mode with
  | blank =>
      cases h
      rfl
  | bare text quoted =>
      cases h
      rfl
  | operator c =>
      cases h
      rfl
  | single text => cases h
  | double text => cases h

theorem tokens_space (hxs : tokens xs = some toks) (hys : tokens ys = some others) :
    tokens (xs ++ ' ' :: ys) = some (toks ++ others) := by
  obtain ⟨⟨out, mode⟩, hrun, hrest⟩ := Option.bind_eq_some_iff.mp hxs
  obtain ⟨more, hfinish, rfl⟩ := Option.map_eq_some_iff.mp hrest
  obtain ⟨⟨out', mode'⟩, hrun', hrest'⟩ := Option.bind_eq_some_iff.mp hys
  obtain ⟨more', hfinish', rfl⟩ := Option.map_eq_some_iff.mp hrest'
  have hboth : run .blank (xs ++ ' ' :: ys) = some (out ++ (more ++ out'), mode') := by
    rw [run_append hrun, run_cons (step_space hfinish), hrun']
    rfl
  rw [tokens_of_run hboth hfinish']
  simp

-- Texts with spaces between them make their tokens one after the other.
theorem tokens_intercalate {pieces : List (List Char × List Token)}
    (h : ∀ piece ∈ pieces, tokens piece.1 = some piece.2) :
    tokens ([' '].intercalate (pieces.map Prod.fst)) = some (pieces.flatMap Prod.snd) := by
  induction pieces with
  | nil => rfl
  | cons piece rest ih =>
      have hfirst := h piece List.mem_cons_self
      have hrest := ih fun other hother => h other (List.mem_cons_of_mem piece hother)
      cases rest with
      | nil => simpa using hfirst
      | cons next rest =>
          rw [List.map_cons, List.map_cons, List.intercalate_cons_cons, List.flatMap_cons,
            List.append_assoc]
          exact tokens_space hfirst hrest

theorem tokens_plain (hne : xs ≠ []) (h : ∀ c ∈ xs, isPlain c = true) :
    tokens xs = some [.word xs] := by
  cases xs with
  | nil => exact absurd rfl hne
  | cons c xs =>
      have hfirst : step .blank c = some ([], .bare [c] false) := by
        rw [step, start_plain (h c List.mem_cons_self), Option.map_some]
      have hrun : run .blank (c :: xs) = some ([], .bare (c :: xs) false) := by
        rw [run_cons hfirst, run_plain fun d hd => h d (List.mem_cons_of_mem c hd)]
        rfl
      exact tokens_of_run hrun rfl

theorem tokens_quote : tokens (quote xs) = some [.word xs] := by
  obtain ⟨flag, hrun⟩ := run_quote xs
  exact tokens_of_run hrun rfl

-- A quoted text behind plain characters, as in an option with its value.
theorem tokens_option (hne : text ≠ []) (h : ∀ c ∈ text, isPlain c = true) :
    tokens (text ++ quote xs) = some [.word (text ++ xs)] := by
  cases text with
  | nil => exact absurd rfl hne
  | cons c text =>
      have hfirst : step .blank c = some ([], .bare [c] false) := by
        rw [step, start_plain (h c List.mem_cons_self), Option.map_some]
      have hplain : run .blank (c :: text) = some ([], .bare (c :: text) false) := by
        rw [run_cons hfirst, run_plain fun d hd => h d (List.mem_cons_of_mem c hd)]
        rfl
      obtain ⟨flag, hquote⟩ := run_quote_bare xs (c :: text) false
      have hrun : run .blank ((c :: text) ++ quote xs) =
          some ([], .bare ((c :: text) ++ xs) flag) := by
        rw [run_append hplain, hquote]
        rfl
      exact tokens_of_run hrun rfl

theorem tokens_quote_semicolon :
    tokens (quote xs ++ [';']) = some [.word xs, .operator [';']] := by
  obtain ⟨flag, hquote⟩ := run_quote xs
  have hrun : run .blank (quote xs ++ [';']) = some ([.word xs], .operator ';') := by
    rw [run_append hquote]
    rfl
  exact tokens_of_run hrun rfl

end Running

end Posix.Shell
