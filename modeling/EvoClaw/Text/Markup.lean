import Mathlib.Data.List.Basic

-- Elements of a text with tags, read as XML reads them.
namespace EvoClaw.Text.Markup

section Escape

-- The reference that stands for a character with a meaning of its own.
def escapeChar (c : Char) : List Char :=
  if c = '&' then ['&', 'a', 'm', 'p', ';']
  else if c = '<' then ['&', 'l', 't', ';']
  else if c = '>' then ['&', 'g', 't', ';']
  else if c = '"' then ['&', 'q', 'u', 'o', 't', ';']
  else if c = '\'' then ['&', 'a', 'p', 'o', 's', ';']
  else [c]

def escape (text : List Char) : List Char :=
  text.flatMap escapeChar

def unescape : List Char → List Char
  | [] => []
  | '&' :: 'a' :: 'm' :: 'p' :: ';' :: rest => '&' :: unescape rest
  | '&' :: 'l' :: 't' :: ';' :: rest => '<' :: unescape rest
  | '&' :: 'g' :: 't' :: ';' :: rest => '>' :: unescape rest
  | '&' :: 'q' :: 'u' :: 'o' :: 't' :: ';' :: rest => '"' :: unescape rest
  | '&' :: 'a' :: 'p' :: 'o' :: 's' :: ';' :: rest => '\'' :: unescape rest
  | c :: rest => c :: unescape rest

end Escape

section Reading

inductive Token where
  | text (content : List Char)
  | tag (content : List Char)
deriving DecidableEq

mutual

-- `read` is the begin of the current token. A tag that does not end is no tag.
def outsideTag : List Char → List Char → List Token
  | read, [] => [.text read]
  | read, '<' :: rest => .text read :: insideTag [] rest
  | read, c :: rest => outsideTag (read ++ [c]) rest

def insideTag : List Char → List Char → List Token
  | read, [] => [.text ('<' :: read)]
  | read, '>' :: rest => .tag read :: outsideTag [] rest
  | read, c :: rest => insideTag (read ++ [c]) rest

end

def tokens (text : List Char) : List Token :=
  outsideTag [] text

-- The text of the start tag behind the name, and the text up to the end tag.
structure Element where
  attributes : List Char
  body : List Char
deriving DecidableEq

-- A start tag of the name, not of a longer one.
def opens (name tag : List Char) : Option (List Char) :=
  if name <+: tag then
    match tag.drop name.length with
    | [] => some []
    | c :: rest => if c = ' ' ∨ c = '\n' ∨ c = '\t' then some (c :: rest) else none
  else none

def closes (name tag : List Char) : Bool :=
  tag = '/' :: name

-- The elements of a name, one after the other. `current` is the one that is open.
def elementsFrom (name : List Char) : Option Element → List Token → List Element
  | _, [] => []
  | none, .text _ :: rest => elementsFrom name none rest
  | none, .tag tag :: rest =>
      match opens name tag with
      | none => elementsFrom name none rest
      | some attributes => elementsFrom name (some ⟨attributes, []⟩) rest
  | some current, .text content :: rest =>
      elementsFrom name (some { current with body := current.body ++ content }) rest
  | some current, .tag tag :: rest =>
      if closes name tag then current :: elementsFrom name none rest
      else elementsFrom name
        (some { current with body := current.body ++ '<' :: (tag ++ ['>']) }) rest

def elements (name text : List Char) : List Element :=
  elementsFrom name none (tokens text)

-- The values between the quotes, with what stands before each of them.
def pairs : List (List Char) → List (List Char × List Char)
  | key :: value :: rest => (key, value) :: pairs rest
  | _ => []

def attributeName (key : List Char) : List Char :=
  (key.dropWhile (· = ' ')).takeWhile (· ≠ '=')

def Element.attribute (element : Element) (name : List Char) : Option (List Char) :=
  ((pairs (element.attributes.splitOn '"')).map fun pair =>
    (attributeName pair.1, pair.2)).lookup name

end Reading

section Lemmas

variable {name text rest read tag : List Char} {c : Char}

-- A character that ends neither a text nor a tag nor a value.
def Plain (c : Char) : Prop :=
  c ≠ '<' ∧ c ≠ '>' ∧ c ≠ '"'

theorem unescape_cons (h : c ≠ '&') : unescape (c :: rest) = c :: unescape rest := by
  rw [unescape]
  all_goals
    intro _ heq
    exact absurd heq h

theorem unescape_escapeChar (c : Char) (rest : List Char) :
    unescape (escapeChar c ++ rest) = c :: unescape rest := by
  unfold escapeChar
  split_ifs with hamp hlt hgt hquot hapos
  · rw [hamp]; rfl
  · rw [hlt]; rfl
  · rw [hgt]; rfl
  · rw [hquot]; rfl
  · rw [hapos]; rfl
  · exact unescape_cons hamp

theorem unescape_escape (text : List Char) : unescape (escape text) = text := by
  induction text with
  | nil => rfl
  | cons c text ih =>
      have hcons : escape (c :: text) = escapeChar c ++ escape text := rfl
      rw [hcons, unescape_escapeChar, ih]

theorem escapeChar_plain (c : Char) : ∀ d ∈ escapeChar c, Plain d := by
  unfold escapeChar
  split_ifs with hamp hlt hgt hquot hapos
  · simp [Plain]
  · simp [Plain]
  · simp [Plain]
  · simp [Plain]
  · simp [Plain]
  · simp [Plain, hlt, hgt, hquot]

theorem escape_plain (text : List Char) : ∀ c ∈ escape text, Plain c := by
  intro c hc
  obtain ⟨d, -, hd⟩ := List.mem_flatMap.mp hc
  exact escapeChar_plain d c hd

theorem outsideTag_append (h : '<' ∉ text) :
    outsideTag read (text ++ rest) = outsideTag (read ++ text) rest := by
  induction text generalizing read with
  | nil => simp
  | cons c text ih =>
      simp only [List.mem_cons, not_or] at h
      rw [List.cons_append, outsideTag, ih h.2]
      · simp
      · exact fun heq => h.1 heq.symm

theorem insideTag_append (h : '>' ∉ text) :
    insideTag read (text ++ rest) = insideTag (read ++ text) rest := by
  induction text generalizing read with
  | nil => simp
  | cons c text ih =>
      simp only [List.mem_cons, not_or] at h
      rw [List.cons_append, insideTag, ih h.2]
      · simp
      · exact fun heq => h.1 heq.symm

-- A text and the tag behind it.
theorem tokens_tag (htext : '<' ∉ text) (htag : '>' ∉ tag) :
    tokens (text ++ '<' :: (tag ++ '>' :: rest)) = .text text :: .tag tag :: tokens rest := by
  unfold tokens
  rw [outsideTag_append htext, outsideTag, insideTag_append htag, insideTag]
  rfl

theorem tokens_text (htext : '<' ∉ text) : tokens text = [.text text] := by
  have hread : outsideTag [] (text ++ []) = outsideTag ([] ++ text) [] := outsideTag_append htext
  rw [List.append_nil] at hread
  unfold tokens
  rw [hread]
  rfl

end Lemmas

end EvoClaw.Text.Markup
