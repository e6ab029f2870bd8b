import EvoClaw.Json
import EvoClaw.Text.Substitute
import Mathlib.Data.List.Find
import Mathlib.Data.List.TakeWhile

-- What _redact_secrets leaves of a line with a credential.
namespace EvoClaw.ContainerRunner

open Text

-- The letter that re.IGNORECASE compares, for the letters of the labels.
def foldCase (c : Char) : Char :=
  let code := c.toNat
  if 65 ≤ code ∧ code ≤ 90 then Char.ofNat (code + 32)
  else if code = 0x130 ∨ code = 0x131 then 'i'
  else if code = 0x17f then 's'
  else if code = 0x212a then 'k'
  else c

-- api[_-]?key|token|password|secret|bearer|authorization
def SECRET_LABELS : List (List Char) :=
  ["api_key".toList, "api-key".toList, "apikey".toList, "token".toList, "password".toList,
    "secret".toList, "bearer".toList, "authorization".toList]

def isSeparator (c : Char) : Bool :=
  c = '=' ∨ c = ':'

def labelAt (text : List Char) : Option (List Char) :=
  SECRET_LABELS.find? fun label => (text.take label.length).map foldCase = label

-- The text behind \s*[=:]\s*
def behindSeparator (text : List Char) : Option (List Char) :=
  match text.dropWhile isSpace with
  | [] => none
  | c :: rest => if isSeparator c then some (rest.dropWhile isSpace) else none

-- The text behind the label and the separator that begin the text.
def valueAt (text : List Char) : Option (List Char) :=
  (labelAt text).bind fun label => behindSeparator (text.drop label.length)

def behindWord (text : List Char) : List Char :=
  text.dropWhile fun c => ! isSpace c

-- (?i)(api[_-]?key|token|password|secret|bearer|authorization)\s*[=:]\s*\S+
def credentialAt (text : List Char) : Option Nat :=
  (valueAt text).bind fun value =>
    if value = [] then none else some (text.length - (behindWord value).length)

-- The start of a key and the run of its other characters, all of them or just so many.
def keyAt (start : List Char) (isBody : Char → Bool) (least : Nat) (greedy : Bool)
    (text : List Char) : Option Nat :=
  let run := ((text.drop start.length).takeWhile isBody).length
  if start.isPrefixOf text ∧ least ≤ run then
    some (start.length + if greedy then run else least)
  else none

-- sk-[A-Za-z0-9]{20,}
def openAiKeyAt : List Char → Option Nat :=
  keyAt "sk-".toList Char.isAlphanum 20 true

-- ghp_[A-Za-z0-9]{36}
def githubTokenAt : List Char → Option Nat :=
  keyAt "ghp_".toList Char.isAlphanum 36 false

-- AIza[A-Za-z0-9_-]{35}
def googleKeyAt : List Char → Option Nat :=
  keyAt "AIza".toList (fun c => c.isAlphanum ∨ c = '_' ∨ c = '-') 35 false

-- m.group(0).split('=')[0] + '=[REDACTED]' if '=' in m.group(0) else '[REDACTED]'
def redacted (found : List Char) : List Char :=
  if '=' ∈ found then found.takeWhile (· ≠ '=') ++ "=[REDACTED]".toList else "[REDACTED]".toList

def SECRET_PATTERNS : List (List Char → Option Nat) :=
  [credentialAt, openAiKeyAt, githubTokenAt, googleKeyAt]

def redactSecrets (text : List Char) : List Char :=
  SECRET_PATTERNS.foldl (fun text pattern => substitute pattern redacted 0 text) text

-- A log line with a hole where the credential is.
structure CredentialLine where
  before : List Char
  label : List Char
  left : List Char := []
  separator : Char
  right : List Char := []
  bearer : Bool := false
  after : List Char := []
  is_label : label.map foldCase ∈ SECRET_LABELS
  left_blank : ∀ c ∈ left, isSpace c = true
  is_separator : isSeparator separator = true
  right_blank : ∀ c ∈ right, isSpace c = true
  bearer_label : bearer = true → label.map foldCase = "authorization".toList
  after_blank : ∀ c ∈ after.head?, isSpace c = true

namespace CredentialLine

def head (line : CredentialLine) : List Char :=
  line.before ++ (line.label ++ (line.left ++ (line.separator :: (line.right ++
    if line.bearer then "Bearer ".toList else []))))

def filled (line : CredentialLine) (value : List Char) : List Char :=
  line.head ++ (value ++ line.after)

-- The length of the credential pattern that begins the text before the hole, none where it
-- ends with the value.
def into (head : List Char) : Option (Option Nat) :=
  (valueAt head).map fun value =>
    if value.all (! isSpace ·) then none else some (head.length - (behindWord value).length)

-- What the match that takes the value has of the text before it.
def reach (line : CredentialLine) : Option (List Char) :=
  (scanHead into redacted 0 line.head).2

end CredentialLine

structure IsValue (value : List Char) : Prop where
  nonempty : value ≠ []
  solid : ∀ c ∈ value, isSpace c = false

-- Two lines that differ in the value only are redacted to the same text.
def CredentialLine.Hides (line : CredentialLine) (kind : List Char → Prop) : Prop :=
  ∀ value other, IsValue value → IsValue other → kind value → kind other →
    redactSecrets (line.filled value) = redactSecrets (line.filled other)

section Pattern

variable {head rest text value after word : List Char} {c d : Char}

theorem label_solid : ∀ label ∈ SECRET_LABELS, label ≠ [] ∧
    ∀ c ∈ label, isSpace c = false ∧ isSeparator c = false := by
  have hall : SECRET_LABELS.all (fun label => label ≠ [] ∧
      label.all (fun c => isSpace c = false ∧ isSeparator c = false)) = true := by decide
  intro label hlabel
  simpa using List.all_eq_true.mp hall label hlabel

-- Neither a blank nor a separator is a letter of a label.
theorem foldCase_special (h : isSpace c = true ∨ isSeparator c = true) : foldCase c = c := by
  have hcode : c.toNat < 65 ∨ 90 < c.toNat ∧ c.toNat ≠ 0x130 ∧ c.toNat ≠ 0x131 ∧
      c.toNat ≠ 0x17f ∧ c.toNat ≠ 0x212a := by
    rcases h with h | h
    · simp only [isSpace, decide_eq_true_eq] at h
      omega
    · simp only [isSeparator, decide_eq_true_eq] at h
      rcases h with rfl | rfl <;> decide
  have hupper : ¬ (65 ≤ c.toNat ∧ c.toNat ≤ 90) := by omega
  have hi : ¬ (c.toNat = 0x130 ∨ c.toNat = 0x131) := by omega
  have hs : ¬ c.toNat = 0x17f := by omega
  have hk : ¬ c.toNat = 0x212a := by omega
  simp only [foldCase, if_neg hupper, if_neg hi, if_neg hs, if_neg hk]

theorem plain_of_label {label : List Char} (hlabel : label ∈ SECRET_LABELS)
    (hc : foldCase c ∈ label) : isSpace c = false ∧ isSeparator c = false := by
  by_contra h
  have hspecial : isSpace c = true ∨ isSeparator c = true := by
    cases hspace : isSpace c <;> cases hsep : isSeparator c <;> simp_all
  rw [foldCase_special hspecial] at hc
  exact h ((label_solid label hlabel).2 c hc)

-- The text ends in a blank or a separator, as one before a value does.
def LastSpecial (head : List Char) : Prop :=
  ∀ front c, head = front ++ [c] → isSpace c = true ∨ isSeparator c = true

-- Its last solid character is a separator.
def EndsInSeparator (head : List Char) : Prop :=
  ∀ front c blanks, head = front ++ c :: blanks → isSpace c = false →
    (∀ d ∈ blanks, isSpace d = true) → isSeparator c = true

theorem LastSpecial.of_suffix (h : LastSpecial head) (hsuffix : rest <:+ head) :
    LastSpecial rest := by
  obtain ⟨before, rfl⟩ := hsuffix
  exact fun front c heq => h (before ++ front) c (by rw [heq, List.append_assoc])

theorem EndsInSeparator.of_suffix (h : EndsInSeparator head) (hsuffix : rest <:+ head) :
    EndsInSeparator rest := by
  obtain ⟨before, rfl⟩ := hsuffix
  exact fun front c blanks heq => h (before ++ front) c blanks (by rw [heq, List.append_assoc])

-- A label cannot reach over the end of such a text.
theorem labelAt_append (hhead : head ≠ []) (hlast : LastSpecial head) (rest : List Char) :
    labelAt (head ++ rest) = labelAt head := by
  refine List.find?_congr fun label hlabel => decide_eq_decide.mpr ?_
  by_cases hlength : label.length ≤ head.length
  · rw [List.take_append_of_le_length hlength]
  · have htake : head.take label.length = head := List.take_of_length_le (by omega)
    refine iff_of_false (fun h => ?_) fun h => ?_
    · obtain ⟨front, c, rfl⟩ := List.eq_nil_or_concat head |>.resolve_left hhead
      rw [List.take_append, htake, List.map_append, List.concat_eq_append, List.map_append] at h
      have hc : foldCase c ∈ label := by
        rw [← h]
        simp
      have hplain := plain_of_label hlabel hc
      rcases hlast front c (List.concat_eq_append ..) with hspecial | hspecial
      · rw [hplain.1] at hspecial
        cases hspecial
      · rw [hplain.2] at hspecial
        cases hspecial
    · have hlen := congrArg List.length h
      rw [htake, List.length_map] at hlen
      omega

theorem behindSeparator_append (hd : isSpace d = false)
    (hseparator : (∀ c ∈ text, isSpace c = true) → isSeparator d = false) :
    behindSeparator (text ++ d :: rest) = (behindSeparator text).map (· ++ d :: rest) := by
  unfold behindSeparator
  rw [List.dropWhile_append]
  cases hdrop : text.dropWhile isSpace with
  | nil =>
      have hblank : ∀ c ∈ text, isSpace c = true := List.dropWhile_eq_nil_iff.mp hdrop
      simp [hd, hseparator hblank]
  | cons c behind =>
      simp only [List.isEmpty_cons, Bool.false_eq_true, if_false, List.cons_append]
      split_ifs with hc
      · rw [Option.map_some, List.dropWhile_append]
        split_ifs with hempty
        · rw [List.isEmpty_iff.mp hempty, List.dropWhile_cons_of_neg (by simp [hd])]
          rfl
        · rfl
      · rfl

theorem labelAt_spec {label : List Char} (h : labelAt text = some label) :
    label ∈ SECRET_LABELS ∧ (text.take label.length).map foldCase = label :=
  ⟨List.mem_of_find?_eq_some h, by simpa using List.find?_some h⟩

-- What the pattern finds in front of a hole it also finds once the hole is filled.
theorem valueAt_append (hhead : head ≠ []) (hlast : LastSpecial head) (hd : isSpace d = false)
    (hseparator : isSeparator d = true → EndsInSeparator head) :
    valueAt (head ++ d :: rest) = (valueAt head).map (· ++ d :: rest) := by
  unfold valueAt
  rw [labelAt_append hhead hlast]
  cases hlabel : labelAt head with
  | none => rfl
  | some label =>
      obtain ⟨hmem, htake⟩ := labelAt_spec hlabel
      have hlength : label.length ≤ head.length := by
        have hlen := congrArg List.length htake
        rw [List.length_map, List.length_take] at hlen
        omega
      rw [Option.bind_some, Option.bind_some, List.drop_append_of_le_length hlength]
      refine behindSeparator_append hd fun hblank => ?_
      by_contra hsep
      have hends := hseparator (by simpa using hsep)
      obtain ⟨front, c, hconcat⟩ := List.eq_nil_or_concat (head.take label.length) |>.resolve_left
        fun hnil => (label_solid label hmem).1 (by rw [← htake, hnil]; rfl)
      rw [List.concat_eq_append] at hconcat
      have hc : foldCase c ∈ label := by
        rw [← htake, hconcat]
        simp
      have hplain := plain_of_label hmem hc
      have hsplit : head = front ++ c :: head.drop label.length := by
        rw [← List.singleton_append, ← List.append_assoc, ← hconcat, List.take_append_drop]
      have hcontra := hends front c _ hsplit hplain.1 hblank
      rw [hplain.2] at hcontra
      cases hcontra

theorem behindSeparator_eq_some (h : behindSeparator text = some value) :
    ∃ left c right, text = left ++ c :: (right ++ value) ∧ isSeparator c = true ∧
      (∀ d ∈ right, isSpace d = true) := by
  unfold behindSeparator at h
  split at h
  · cases h
  · rename_i c behind hdrop
    split_ifs at h with hc
    refine ⟨text.takeWhile isSpace, c, behind.takeWhile isSpace, ?_, hc,
      fun d hd => List.mem_takeWhile_imp hd⟩
    rw [← Option.some.inj h, List.takeWhile_append_dropWhile, ← hdrop,
      List.takeWhile_append_dropWhile]

theorem valueAt_eq_some (h : valueAt text = some value) :
    ∃ left c right, text = left ++ c :: (right ++ value) ∧ isSeparator c = true ∧
      (∀ d ∈ right, isSpace d = true) := by
  obtain ⟨label, -, hbehind⟩ := Option.bind_eq_some_iff.mp h
  obtain ⟨left, c, right, htext, hspec⟩ := behindSeparator_eq_some hbehind
  refine ⟨text.take label.length ++ left, c, right, ?_, hspec⟩
  rw [List.append_assoc, ← htext, List.take_append_drop]

-- The last solid character of a text is found from its end.
theorem endsInSeparator_of {front blanks : List Char} (hc : isSeparator c = true)
    (hblanks : ∀ d ∈ blanks, isSpace d = true) : EndsInSeparator (front ++ c :: blanks) := by
  have hsolid : isSpace c = false := by
    simp only [isSeparator, decide_eq_true_eq] at hc
    rcases hc with rfl | rfl <;> decide
  have hlast : ∀ (front : List Char) {blanks : List Char} {c : Char}, isSpace c = false →
      (∀ d ∈ blanks, isSpace d = true) →
      ((front ++ c :: blanks).reverse.dropWhile isSpace).head? = some c := by
    intro front blanks c hc hblanks
    rw [List.reverse_append, List.reverse_cons, List.append_assoc,
      List.dropWhile_append_of_pos fun d hd => hblanks d (List.mem_reverse.mp hd),
      List.singleton_append, List.dropWhile_cons_of_neg (by simp [hc])]
    rfl
  intro other d others heq hd hothers
  have hsame := hlast front hsolid hblanks
  rw [heq, hlast other hd hothers, Option.some.injEq] at hsame
  rw [hsame]
  exact hc

-- A match can only run into the hole behind a separator.
theorem endsInSeparator_of_valueAt (before : List Char) (hlast : LastSpecial text)
    (h : valueAt text = some value) (hvalue : ∀ c ∈ value, isSpace c = false) :
    EndsInSeparator (before ++ text) := by
  obtain ⟨left, c, right, rfl, hc, hright⟩ := valueAt_eq_some h
  rcases List.eq_nil_or_concat value with rfl | ⟨front, d, rfl⟩
  · rw [List.append_nil, ← List.append_assoc]
    exact endsInSeparator_of hc hright
  · rw [List.concat_eq_append] at hvalue hlast ⊢
    have htext : left ++ c :: (right ++ (front ++ [d])) = (left ++ c :: (right ++ front)) ++ [d] := by
      simp
    rw [htext] at hlast ⊢
    have hd := hvalue d (by simp)
    rcases hlast _ d rfl with hspace | hseparator
    · rw [hd] at hspace
      cases hspace
    · rw [← List.append_assoc]
      exact endsInSeparator_of hseparator (by simp)

theorem length_lt_of_valueAt (h : valueAt text = some value) : value.length < text.length := by
  obtain ⟨left, c, right, rfl, -⟩ := valueAt_eq_some h
  simp
  omega

open CredentialLine in
theorem inside_into (head : List Char) : Inside into head := by
  intro n hinto
  obtain ⟨value, hvalue, hn⟩ := Option.map_eq_some_iff.mp hinto
  split_ifs at hn
  have hlength := length_lt_of_valueAt hvalue
  have hword : (behindWord value).length ≤ value.length := (List.dropWhile_suffix _).length_le
  rw [← Option.some.inj hn]
  omega

open CredentialLine in
theorem fillsHole_into (hhead : head ≠ []) (hlast : LastSpecial head) (hvalue : IsValue value)
    (hafter : ∀ c ∈ after.head?, isSpace c = true)
    (hseparator : (∃ c ∈ value.head?, isSeparator c = true) → EndsInSeparator head) :
    FillsHole credentialAt into value after head := by
  obtain ⟨d, rest, rfl⟩ := List.exists_cons_of_ne_nil hvalue.nonempty
  have hd := hvalue.solid d List.mem_cons_self
  have hbehindAfter : behindWord after = after := by
    cases after with
    | nil => rfl
    | cons c rest => exact List.dropWhile_cons_of_neg (by simp [hafter c rfl])
  have hbehind : behindWord (d :: rest ++ after) = after := by
    refine (List.dropWhile_append_of_pos fun c hc => ?_).trans hbehindAfter
    rw [hvalue.solid c hc]
    rfl
  unfold FillsHole credentialAt into
  rw [List.cons_append, valueAt_append hhead hlast hd fun h => hseparator ⟨d, rfl, h⟩,
    ← List.cons_append]
  cases hfound : valueAt head with
  | none => rfl
  | some found =>
      have hne : found ++ (d :: rest ++ after) ≠ [] := by simp
      simp only [Option.map_some, Option.bind_some, if_neg hne, Option.some.injEq]
      split_ifs with hall
      · have hfilled : behindWord (found ++ (d :: rest ++ after)) = after :=
          (List.dropWhile_append_of_pos fun c hc => List.all_eq_true.mp hall c hc).trans hbehind
        rw [hfilled]
        simp
        omega
      · have hinner : behindWord found ≠ [] := fun hnil =>
          hall (List.all_eq_true.mpr (List.dropWhile_eq_nil_iff.mp hnil))
        have hfilled : behindWord (found ++ (d :: rest ++ after)) =
            behindWord found ++ (d :: rest ++ after) := by
          unfold behindWord at hinner ⊢
          rw [List.dropWhile_append, if_neg (by simpa using hinner)]
        rw [hfilled]
        simp only [List.length_append, Option.getD_some]
        omega

end Pattern

section Counting

variable {start text : List Char} {isBody : Char → Bool} {least n : Nat} {greedy : Bool} {c : Char}

theorem notMem_keyAt (h : keyAt start isBody least greedy text = some n) (hstart : c ∉ start)
    (hbody : isBody c = false) : c ∉ text.take n := by
  unfold keyAt at h
  obtain ⟨⟨hpre, hrun⟩, h⟩ := Option.ite_none_right_eq_some.mp h
  obtain ⟨behind, rfl⟩ := List.isPrefixOf_iff_prefix.mp hpre
  rw [List.drop_left] at h hrun
  rw [← Option.some.inj h, List.take_append, List.take_of_length_le (by omega), List.mem_append,
    not_or]
  refine ⟨hstart, fun hmem => ?_⟩
  have hshort : behind.take (start.length +
      (if greedy = true then (behind.takeWhile isBody).length else least) - start.length) <+:
        behind.takeWhile isBody := by
    refine List.prefix_of_prefix_length_le (List.take_prefix _ _) (List.takeWhile_prefix _) ?_
    rw [List.length_take]
    split_ifs <;> omega
  have hin := List.mem_takeWhile_imp (hshort.subset hmem)
  rw [hbody] at hin
  cases hin

theorem notMem_redacted (hc : c = '!' ∨ c = '=') {found : List Char} (h : c ∉ found) :
    c ∉ redacted found := by
  have hbare : ∀ d, d = '!' ∨ d = '=' → d ∉ "[REDACTED]".toList := by
    rintro d (rfl | rfl) <;> decide
  unfold redacted
  split_ifs with hequals
  · rcases hc with rfl | rfl
    · rw [List.mem_append, not_or]
      exact ⟨fun hmem => h ((List.takeWhile_prefix _).subset hmem), by decide⟩
    · exact absurd hequals h
  · exact hbare c hc

-- The patterns after the first one.
def redactKeys (text : List Char) : List Char :=
  [openAiKeyAt, githubTokenAt, googleKeyAt].foldl
    (fun text pattern => substitute pattern redacted 0 text) text

theorem redactSecrets_eq (text : List Char) :
    redactSecrets text = redactKeys (substitute credentialAt redacted 0 text) := rfl

theorem count_redactKeys (hc : c = '!' ∨ c = '=') (text : List Char) :
    (redactKeys text).count c = text.count c := by
  have hkey : ∀ start isBody least greedy text, c ∉ start → isBody c = false →
      (substitute (keyAt start isBody least greedy) redacted 0 text).count c = text.count c :=
    fun start isBody least greedy text hstart hbody =>
      count_substitute (fun _ _ h => notMem_keyAt h hstart hbody) fun _ => notMem_redacted hc
  unfold redactKeys openAiKeyAt githubTokenAt googleKeyAt
  simp only [List.foldl_cons, List.foldl_nil]
  rcases hc with rfl | rfl
  · rw [hkey _ _ _ _ _ (by decide) (by decide), hkey _ _ _ _ _ (by decide) (by decide),
      hkey _ _ _ _ _ (by decide) (by decide)]
  · rw [hkey _ _ _ _ _ (by decide) (by decide), hkey _ _ _ _ _ (by decide) (by decide),
      hkey _ _ _ _ _ (by decide) (by decide)]

end Counting

namespace CredentialLine

variable {line : CredentialLine} {value other part : List Char} {d : Char}

theorem lastSpecial_head (line : CredentialLine) : LastSpecial line.head := by
  have hend : ∃ front d, line.head = front ++ [d] ∧ (isSpace d = true ∨ isSeparator d = true) := by
    unfold head
    split_ifs
    · exact ⟨line.before ++ (line.label ++ (line.left ++ (line.separator ::
        (line.right ++ "Bearer".toList)))), ' ', by simp, .inl (by decide)⟩
    · rcases List.eq_nil_or_concat line.right with hright | ⟨front, d, hright⟩
      · exact ⟨line.before ++ (line.label ++ line.left), line.separator, by simp [hright],
          .inr line.is_separator⟩
      · refine ⟨line.before ++ (line.label ++ (line.left ++ (line.separator :: front))), d,
          by simp [hright], .inl (line.right_blank d ?_)⟩
        rw [hright]
        simp
  obtain ⟨front, d, hhead, hd⟩ := hend
  intro other c heq
  have hsame := congrArg List.getLast? (hhead.symm.trans heq)
  rw [List.getLast?_concat, List.getLast?_concat, Option.some.injEq] at hsame
  exact hsame ▸ hd

theorem endsInSeparator_of_reach (h : line.reach = some part) : EndsInSeparator line.head := by
  obtain ⟨⟨before, hsuffix⟩, hinto⟩ := scanHead_part h
  obtain ⟨found, hfound, hall⟩ := Option.map_eq_some_iff.mp hinto
  split_ifs at hall with hsolid
  have hlast : LastSpecial part := line.lastSpecial_head.of_suffix ⟨before, hsuffix⟩
  rw [← hsuffix]
  exact endsInSeparator_of_valueAt before hlast hfound fun c hc => by
    simpa using List.all_eq_true.mp hsolid c hc

-- The line with its value, behind the first pattern.
theorem substitute_filled_line (hvalue : IsValue value)
    (hseparator : (∃ c ∈ value.head?, isSeparator c = true) → EndsInSeparator line.head) :
    substitute credentialAt redacted 0 (line.filled value) =
      (scanHead into redacted 0 line.head).1 ++
        line.reach.elim (substitute credentialAt redacted 0 (value ++ line.after))
          fun part => redacted (part ++ value) ++ substitute credentialAt redacted 0 line.after := by
  have hfills : ∀ head, head <:+ line.head → head ≠ [] →
      FillsHole credentialAt into value line.after head := fun head hsuffix hne =>
    fillsHole_into hne (line.lastSpecial_head.of_suffix hsuffix) hvalue line.after_blank
      fun h => (hseparator h).of_suffix hsuffix
  unfold filled reach
  exact substitute_filled hfills inside_into (Nat.zero_le _)

theorem takeWhile_of_mem (h : '=' ∈ part) (value : List Char) :
    (part ++ value).takeWhile (· ≠ '=') = part.takeWhile (· ≠ '=') := by
  rw [List.takeWhile_append, if_neg]
  intro hlength
  have hall := (List.takeWhile_prefix (· ≠ '=')).eq_of_length hlength
  have hne := List.mem_takeWhile_imp (hall ▸ h)
  simp at hne

theorem redacted_of_mem (h : '=' ∈ part) (value other : List Char) :
    redacted (part ++ value) = redacted (part ++ other) := by
  unfold redacted
  rw [if_pos (List.mem_append_left value h), if_pos (List.mem_append_left other h),
    takeWhile_of_mem h, takeWhile_of_mem h]

theorem redacted_of_notMem (hpart : '=' ∉ part) (hvalue : '=' ∉ value) :
    redacted (part ++ value) = "[REDACTED]".toList := by
  unfold redacted
  rw [if_neg]
  simp [hpart, hvalue]

-- A match hides what it ends with behind its first '=', or with the whole of its text.
theorem redacted_eq_of_reach (hpart : '=' ∈ part ∨ '=' ∉ value ∧ '=' ∉ other) :
    redacted (part ++ value) = redacted (part ++ other) := by
  by_cases h : '=' ∈ part
  · exact redacted_of_mem h value other
  · obtain ⟨hvalue, hother⟩ := hpart.resolve_left h
    rw [redacted_of_notMem h hvalue, redacted_of_notMem h hother]

theorem redactSecrets_eq_of_reach (hreach : line.reach = some part) (hvalue : IsValue value)
    (hother : IsValue other) (hpart : '=' ∈ part ∨ '=' ∉ value ∧ '=' ∉ other) :
    redactSecrets (line.filled value) = redactSecrets (line.filled other) := by
  have hends := endsInSeparator_of_reach hreach
  rw [redactSecrets_eq, redactSecrets_eq, substitute_filled_line hvalue fun _ => hends,
    substitute_filled_line hother fun _ => hends, hreach]
  rw [Option.elim_some, Option.elim_some, redacted_eq_of_reach hpart]

theorem isValue_of_all (hne : value ≠ []) (hsolid : value.all (! isSpace ·) = true) :
    IsValue value where
  nonempty := hne
  solid := by simpa using hsolid

theorem isValue_singleton (hd : isSpace d = false) : IsValue [d] where
  nonempty := List.cons_ne_nil d []
  solid := fun _ hc => List.mem_singleton.mp hc ▸ hd

-- A mark begins no label.
theorem credentialAt_mark (hd : d = '!' ∨ d = '?') (rest : List Char) :
    credentialAt (d :: rest) = none := by
  have hfirst : ∀ label ∈ SECRET_LABELS, label.head? ≠ some '!' ∧ label.head? ≠ some '?' := by
    decide +kernel
  have hlabel : labelAt (d :: rest) = none := by
    refine List.find?_eq_none.mpr fun label hmem h => ?_
    have hne := (label_solid label hmem).1
    obtain ⟨c, tail, rfl⟩ := List.exists_cons_of_ne_nil hne
    have hfold : foldCase d = c := by
      have heq := of_decide_eq_true h
      rw [List.length_cons, List.take_succ_cons, List.map_cons, List.cons.injEq] at heq
      exact heq.1
    rcases hd with rfl | rfl
    · exact (hfirst _ hmem).1 (congrArg some hfold.symm)
    · exact (hfirst _ hmem).2 (congrArg some hfold.symm)
  simp [credentialAt, valueAt, hlabel]

theorem substitute_mark (hd : d = '!' ∨ d = '?') (rest : List Char) :
    substitute credentialAt redacted 0 (d :: rest) =
      d :: substitute credentialAt redacted 0 rest := by
  rw [substitute, credentialAt_mark hd]

-- A value without a separator at its front is met like the hole.
theorem substitute_filled_mark (hd : d = '!' ∨ d = '?') {tail : List Char}
    (hvalue : IsValue (d :: tail)) :
    substitute credentialAt redacted 0 (line.filled (d :: tail)) =
      (scanHead into redacted 0 line.head).1 ++
        line.reach.elim (substitute credentialAt redacted 0 (d :: tail ++ line.after))
          fun part => redacted (part ++ d :: tail) ++
            substitute credentialAt redacted 0 line.after := by
  refine substitute_filled_line hvalue fun ⟨c, hc, hseparator⟩ => ?_
  rw [List.head?_cons, Option.mem_some_iff] at hc
  subst hc
  rcases hd with rfl | rfl <;> cases hseparator

-- Where no match runs into the hole, the value stays in the line.
theorem reach_of_hides (h : redactSecrets (line.filled ['!']) = redactSecrets (line.filled ['?'])) :
    ∃ part, line.reach = some part := by
  by_contra hnone
  have hreach : line.reach = none := by
    cases hr : line.reach with
    | none => rfl
    | some part => exact absurd ⟨part, hr⟩ hnone
  have hcount := congrArg (List.count '!') h
  rw [redactSecrets_eq, redactSecrets_eq, count_redactKeys (.inl rfl), count_redactKeys (.inl rfl),
    substitute_filled_mark (.inl rfl) (isValue_singleton (by decide)),
    substitute_filled_mark (.inr rfl) (isValue_singleton (by decide)), hreach] at hcount
  simp only [Option.elim_none, List.cons_append, List.nil_append, substitute_mark (.inl rfl),
    substitute_mark (.inr rfl)] at hcount
  simp at hcount

-- Behind a ':' alone, a '=' in the value brings the text before it back.
theorem mem_of_hides (hreach : line.reach = some part)
    (h : redactSecrets (line.filled ['!']) = redactSecrets (line.filled ['!', '='])) :
    '=' ∈ part := by
  by_contra hpart
  have hvalue : IsValue ['!', '='] := isValue_of_all (by simp) (by decide)
  have hcount := congrArg (List.count '=') h
  rw [redactSecrets_eq, redactSecrets_eq, count_redactKeys (.inr rfl), count_redactKeys (.inr rfl),
    substitute_filled_mark (.inl rfl) (isValue_singleton (by decide)),
    substitute_filled_mark (.inl rfl) hvalue, hreach] at hcount
  have hbare : redacted (part ++ ['!']) = "[REDACTED]".toList :=
    redacted_of_notMem hpart (by decide)
  have hkept : redacted (part ++ ['!', '=']) = part ++ '!' :: "=[REDACTED]".toList := by
    have hsolid : ∀ c ∈ part ++ ['!'], decide (c ≠ '=') = true := by
      intro c hc
      rw [decide_eq_true_eq]
      rintro rfl
      simp [hpart] at hc
    have hsplit : part ++ ['!', '='] = (part ++ ['!']) ++ ['='] := by simp
    unfold redacted
    rw [if_pos (by simp), hsplit, List.takeWhile_append_of_pos hsolid]
    simp
  simp only [Option.elim_some, hbare, hkept, List.count_append, List.count_cons] at hcount
  simp [List.count_eq_zero.mpr hpart] at hcount

-- A line hides all of its values exactly if a match takes them behind a '=', and those without
-- a '=' exactly if a match takes them.
theorem redaction_hides_iff (line : CredentialLine) :
    (line.Hides (fun _ => True) ↔ ∃ part, line.reach = some part ∧ '=' ∈ part) ∧
      (line.Hides (fun value => '=' ∉ value) ↔ ∃ part, line.reach = some part) := by
  have hmark : ∀ d, d = '!' ∨ d = '?' → IsValue [d] := by
    rintro d (rfl | rfl) <;> exact isValue_singleton (by decide)
  constructor
  · constructor
    · intro h
      obtain ⟨part, hreach⟩ := reach_of_hides
        (h _ _ (hmark _ (.inl rfl)) (hmark _ (.inr rfl)) trivial trivial)
      exact ⟨part, hreach, mem_of_hides hreach
        (h _ _ (hmark _ (.inl rfl)) (isValue_of_all (by simp) (by decide)) trivial trivial)⟩
    · rintro ⟨part, hreach, hpart⟩ value other hvalue hother - -
      exact redactSecrets_eq_of_reach hreach hvalue hother (.inl hpart)
  · constructor
    · intro h
      exact reach_of_hides (h _ _ (hmark _ (.inl rfl)) (hmark _ (.inr rfl)) (by decide) (by decide))
    · rintro ⟨part, hreach⟩ value other hvalue hother hplain hplain'
      exact redactSecrets_eq_of_reach hreach hvalue hother (.inr ⟨hplain, hplain'⟩)

theorem labelAt_label (line : CredentialLine) (rest : List Char) :
    labelAt (line.label ++ rest) = some (line.label.map foldCase) := by
  have hunique : ∀ label ∈ SECRET_LABELS, ∀ other ∈ SECRET_LABELS, other <+: label →
      other = label := by decide +kernel
  have hunique' : ∀ label ∈ SECRET_LABELS, ∀ other ∈ SECRET_LABELS, label <+: other →
      other = label := fun label hl other ho h => (hunique other ho label hl h).symm
  obtain ⟨found, hfound⟩ : ∃ found, labelAt (line.label ++ rest) = some found := by
    refine Option.isSome_iff_exists.mp (List.find?_isSome.mpr ⟨_, line.is_label, ?_⟩)
    rw [List.length_map, List.take_left]
    exact decide_eq_true rfl
  obtain ⟨hmem, htake⟩ := labelAt_spec hfound
  rw [hfound]
  refine congrArg some ?_
  rw [List.map_take, List.map_append] at htake
  rcases Nat.le_total found.length (line.label.map foldCase).length with hle | hle
  · rw [List.take_append_of_le_length hle] at htake
    exact hunique _ line.is_label _ hmem (htake ▸ List.take_prefix _ _)
  · rw [List.take_append, List.take_of_length_le hle] at htake
    exact hunique' _ line.is_label _ hmem (htake ▸ List.prefix_append _ _)

-- Where no label begins before it, the match of the label takes the value.
theorem reach_of_first_label (hbearer : line.bearer = false)
    (hfirst : ∀ h, h <:+ line.before → h ≠ [] →
      labelAt (h ++ (line.label ++ (line.left ++ line.separator :: line.right))) = none) :
    line.reach = some (line.label ++ (line.left ++ line.separator :: line.right)) := by
  have hhead : line.head =
      line.before ++ (line.label ++ (line.left ++ line.separator :: line.right)) := by
    simp [head, hbearer]
  have hseparator : isSpace line.separator = false := by
    have h := line.is_separator
    simp only [isSeparator, decide_eq_true_eq] at h
    rcases h with h | h <;> rw [h] <;> decide
  have hbehind : behindSeparator (line.left ++ line.separator :: line.right) = some [] := by
    unfold behindSeparator
    rw [List.dropWhile_append_of_pos line.left_blank, List.dropWhile_cons_of_neg (by simp [hseparator])]
    simp only [line.is_separator, if_true, List.dropWhile_eq_nil_iff.mpr line.right_blank]
  have hinto : into (line.label ++ (line.left ++ line.separator :: line.right)) = some none := by
    unfold into valueAt
    rw [labelAt_label, Option.bind_some, List.length_map, List.drop_left, hbehind]
    rfl
  unfold reach
  rw [hhead]
  generalize hrest : line.label ++ (line.left ++ line.separator :: line.right) = rest at hinto hfirst
  have hne : rest ≠ [] := by simp [← hrest]
  clear hhead hrest
  generalize line.before = before at hfirst
  induction before with
  | nil =>
      obtain ⟨c, tail, rfl⟩ := List.exists_cons_of_ne_nil hne
      rw [List.nil_append, scanHead, hinto]
  | cons c before ih =>
      have hnone : into (c :: (before ++ rest)) = none := by
        have h := hfirst (c :: before) List.suffix_rfl (List.cons_ne_nil c before)
        unfold into valueAt
        rw [← List.cons_append, h]
        rfl
      rw [List.cons_append, scanHead, hnone]
      exact ih fun h hsuffix => hfirst h (hsuffix.trans (List.suffix_cons c before))

def bearerLine : CredentialLine where
  before := []
  label := "Authorization".toList
  separator := ':'
  right := [' ']
  bearer := true
  is_label := by decide
  left_blank := fun _ hc => absurd hc List.not_mem_nil
  is_separator := by decide
  right_blank := fun _ hc => List.mem_singleton.mp hc ▸ rfl
  bearer_label := by decide
  after_blank := fun _ hc => absurd hc (Option.not_mem_none _)

-- The scheme word is redacted, and the token behind it stays.
theorem bearer_token_stays :
    ¬ ∀ (line : CredentialLine) (value other : List Char), IsValue value → IsValue other →
      redactSecrets (line.filled value) = redactSecrets (line.filled other) := by
  intro h
  have hlines := h bearerLine "abc".toList "xyz".toList (isValue_of_all (by decide) (by decide))
    (isValue_of_all (by decide) (by decide))
  have hdiffer : redactSecrets (bearerLine.filled "abc".toList) ≠
      redactSecrets (bearerLine.filled "xyz".toList) := by decide +kernel
  exact hdiffer hlines

end CredentialLine

end EvoClaw.ContainerRunner
