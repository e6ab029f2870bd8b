import EvoClaw.JsonText.Reading
import Mathlib.Data.List.TakeWhile

namespace EvoClaw.JsonText

section Modes

-- Where a reader of JSON is: outside of the strings, inside of one, or behind a backslash.
inductive Mode where
  | outside
  | inside
  | escaping
deriving DecidableEq

-- No text of JSON has a backslash or an underscore outside of its strings.
def Mode.read : Mode → Char → Option Mode
  | outside, c =>
      if c = '"' then some inside else if c = '\\' ∨ c = '_' then none else some outside
  | inside, c =>
      if c = '"' then some outside else if c = '\\' then some escaping else some inside
  | escaping, c =>
      if c ∈ ['"', '\\', '/', 'b', 'f', 'n', 'r', 't', 'u'] then some inside else none

def scan (mode : Mode) (text : List Char) : Option Mode :=
  text.foldlM Mode.read mode

variable {mode : Mode} {c : Char} {text rest : List Char}

@[simp] theorem scan_cons : scan mode (c :: text) = (mode.read c).bind (scan · text) := rfl

theorem scan_append : scan mode (text ++ rest) = (scan mode text).bind (scan · rest) := by
  unfold scan
  exact List.foldlM_append ..

theorem read_outside (h : Plain c) : Mode.read .outside c = some .outside := by
  simp [Mode.read, h.1, h.2.1, h.2.2]

theorem read_inside (hquote : c ≠ '"') (hslash : c ≠ '\\') :
    Mode.read .inside c = some .inside := by
  simp [Mode.read, hquote, hslash]

theorem scan_outside (h : ∀ c ∈ text, Plain c) : scan .outside text = some .outside := by
  induction text with
  | nil => rfl
  | cons c text ih =>
      rw [scan_cons, read_outside (h c (by simp))]
      exact ih fun c hc => h c (List.mem_cons_of_mem _ hc)

theorem scan_inside (h : ∀ c ∈ text, c ≠ '"' ∧ c ≠ '\\') :
    scan .inside text = some .inside := by
  induction text with
  | nil => rfl
  | cons c text ih =>
      rw [scan_cons, read_inside (h c (by simp)).1 (h c (by simp)).2]
      exact ih fun c hc => h c (List.mem_cons_of_mem _ hc)

-- Two readers of one text, of which one began outside and the other one inside, disagree
-- to its end, and the text has nothing that is allowed in a string only.
theorem scan_both {first second : Mode} (hout : scan .outside text = some first)
    (hin : scan .inside text = some second) :
    (first = .outside ∧ second = .inside ∨ first = .inside ∧ second = .outside) ∧
      '\\' ∉ text ∧ '_' ∉ text := by
  suffices hgen : ∀ mode other, (mode = .outside ∧ other = .inside ∨
      mode = .inside ∧ other = .outside) → scan mode text = some first →
      scan other text = some second →
      (first = .outside ∧ second = .inside ∨ first = .inside ∧ second = .outside) ∧
        '\\' ∉ text ∧ '_' ∉ text from
    hgen .outside .inside (Or.inl ⟨rfl, rfl⟩) hout hin
  clear hout hin
  induction text with
  | nil =>
      intro mode other hmodes hfirst hsecond
      cases hfirst
      cases hsecond
      exact ⟨hmodes, by simp, by simp⟩
  | cons c text ih =>
      intro mode other hmodes hfirst hsecond
      have hread : ∃ mode' other', mode.read c = some mode' ∧ other.read c = some other' ∧
          (mode' = .outside ∧ other' = .inside ∨ mode' = .inside ∧ other' = .outside) ∧
          c ≠ '\\' ∧ c ≠ '_' := by
        rw [scan_cons] at hfirst hsecond
        obtain ⟨mode', hmode, -⟩ := Option.bind_eq_some_iff.mp hfirst
        obtain ⟨other', hother, -⟩ := Option.bind_eq_some_iff.mp hsecond
        refine ⟨mode', other', hmode, hother, ?_⟩
        rcases hmodes with ⟨rfl, rfl⟩ | ⟨rfl, rfl⟩ <;> simp only [Mode.read] at hmode hother <;>
          grind
      obtain ⟨mode', other', hmode, hother, hmodes', hslash, hunderscore⟩ := hread
      rw [scan_cons, hmode] at hfirst
      rw [scan_cons, hother] at hsecond
      obtain ⟨hend, hslashes, hunderscores⟩ := ih mode' other' hmodes' hfirst hsecond
      exact ⟨hend, by simp [Ne.symm hslash, hslashes], by simp [Ne.symm hunderscore, hunderscores]⟩

end Modes

section Dumps

variable (floatText : BitVec 64 → List Char) {floatOf : List Char → BitVec 64}

theorem hexDigit_plain (n : Nat) : hexDigit n ≠ '"' ∧ hexDigit n ≠ '\\' := by
  have hall : ∀ d < 16, Nat.digitChar d ≠ '"' ∧ Nat.digitChar d ≠ '\\' := by decide
  exact hall (n % 16) (Nat.mod_lt n (by omega))

theorem scan_unicodeEscape (n : Nat) : scan .inside (unicodeEscape n) = some .inside := by
  have hdigits : scan .inside
      [hexDigit (n / 0x1000), hexDigit (n / 0x100), hexDigit (n / 0x10), hexDigit n] =
      some .inside := by
    apply scan_inside
    intro c hc
    simp only [List.mem_cons, List.not_mem_nil, or_false] at hc
    rcases hc with rfl | rfl | rfl | rfl <;> exact hexDigit_plain _
  exact hdigits

theorem scan_escape (c : Char) : scan .inside (escape c) = some .inside := by
  rcases escape_forms c with ⟨hc, hquote, hslash, -⟩ | ⟨mark, hmark, hc, -⟩ | ⟨hc, -⟩ | ⟨hc, -⟩
  · rw [hc]
    exact scan_inside (by simp [hquote, hslash])
  · rw [hc]
    fin_cases hmark <;> rfl
  · rw [hc]
    exact scan_unicodeEscape _
  · rw [hc, scan_append, scan_unicodeEscape, Option.bind_some, scan_unicodeEscape]

theorem scan_escapes (text : List Char) : scan .inside (text.flatMap escape) = some .inside := by
  induction text with
  | nil => rfl
  | cons c text ih =>
      rw [List.flatMap_cons, scan_append, scan_escape]
      exact ih

theorem scan_quote (text : String) : scan .outside (quote text) = some .outside := by
  have hopen : scan .outside (quote text) =
      scan .inside (text.toList.flatMap escape ++ ['"']) := rfl
  rw [hopen, scan_append, scan_escapes]
  rfl

theorem isDigit_plain {c : Char} (h : c.isDigit = true) : Plain c := by
  refine ⟨?_, ?_, ?_⟩ <;> rintro rfl <;> cases h

theorem scan_intText (n : Int) : scan .outside (intText n) = some .outside := by
  apply scan_outside
  have hdigits : ∀ c ∈ Nat.toDigits 10 n.natAbs, Plain c := fun c hc =>
    isDigit_plain (Nat.isDigit_of_mem_toDigits (by omega) (by omega) hc)
  unfold intText
  split_ifs
  · intro c hc
    rcases List.mem_cons.mp hc with rfl | hc
    · exact ⟨by decide, by decide, by decide⟩
    · exact hdigits c hc
  · exact hdigits

mutual

theorem scan_dumps : ∀ {v : Json}, Readable floatText floatOf v →
    scan .outside (dumps floatText v) = some .outside
  | .null, _ => rfl
  | .bool true, _ => rfl
  | .bool false, _ => rfl
  | .int n, _ => scan_intText n
  | .float _, h => scan_outside h.plain
  | .str text, _ => scan_quote text
  | .arr [], _ => rfl
  | .arr (item :: items), h => by
      obtain ⟨hitem, hitems⟩ := by simpa [Readable, ReadableItems] using h
      have hopen : scan .outside (dumps floatText (.arr (item :: items))) =
          scan .outside (dumps floatText item ++ dumpItems floatText items) := rfl
      rw [hopen, scan_append, scan_dumps hitem]
      exact scan_dumpItems hitems
  | .obj [], _ => rfl
  | .obj ((key, item) :: fields), h => by
      simp only [Readable, ReadableFields] at h
      have hopen : scan .outside (dumps floatText (.obj ((key, item) :: fields))) =
          scan .outside
            (quote key ++ ':' :: ' ' :: (dumps floatText item ++ dumpFields floatText fields)) :=
        rfl
      have hcolon (text : List Char) :
          scan .outside (':' :: ' ' :: text) = scan .outside text := rfl
      rw [hopen, scan_append, scan_quote, Option.bind_some, hcolon, scan_append,
        scan_dumps h.2.1]
      exact scan_dumpFields h.2.2

theorem scan_dumpItems : ∀ {items : List Json}, ReadableItems floatText floatOf items →
    scan .outside (dumpItems floatText items) = some .outside
  | [], _ => rfl
  | item :: items, h => by
      obtain ⟨hitem, hitems⟩ := h
      have hopen : scan .outside (dumpItems floatText (item :: items)) =
          scan .outside (dumps floatText item ++ dumpItems floatText items) := rfl
      rw [hopen, scan_append, scan_dumps hitem]
      exact scan_dumpItems hitems

theorem scan_dumpFields :
    ∀ {fields : List (String × Json)}, ReadableFields floatText floatOf fields →
    scan .outside (dumpFields floatText fields) = some .outside
  | [], _ => rfl
  | (key, item) :: fields, h => by
      obtain ⟨hitem, hfields⟩ := h
      have hopen : scan .outside (dumpFields floatText ((key, item) :: fields)) =
          scan .outside
            (quote key ++ ':' :: ' ' :: (dumps floatText item ++ dumpFields floatText fields)) :=
        rfl
      have hcolon (text : List Char) :
          scan .outside (':' :: ' ' :: text) = scan .outside text := rfl
      rw [hopen, scan_append, scan_quote, Option.bind_some, hcolon, scan_append,
        scan_dumps hitem]
      exact scan_dumpFields hfields

end

end Dumps

section Loads

mutual

-- Every string of a value, the keys of its dictionaries included.
def strings : Json → List String
  | .str text => [text]
  | .arr items => itemStrings items
  | .obj fields => fieldStrings fields
  | .null => []
  | .bool _ => []
  | .int _ => []
  | .float _ => []

def itemStrings : List Json → List String
  | [] => []
  | item :: items => strings item ++ itemStrings items

def fieldStrings : List (String × Json) → List String
  | [] => []
  | (key, value) :: fields => key :: (strings value ++ fieldStrings fields)

end

-- The parser has read `found` up to `rest`. Without an escape it has only copied.
def Reads (found : List String) (text rest : List Char) : Prop :=
  ∃ used, text = used ++ rest ∧ scan .outside used = some .outside ∧
    ('\\' ∉ used → ∀ s ∈ found, ∀ c ∈ s.toList, c ∈ used)

variable {found other : List String} {text middle rest : List Char} {c : Char}

theorem Reads.trans (h : Reads found text middle) (h' : Reads other middle rest) :
    Reads (found ++ other) text rest := by
  obtain ⟨used, rfl, hscan, hfound⟩ := h
  obtain ⟨more, rfl, hscan', hother⟩ := h'
  refine ⟨used ++ more, (List.append_assoc ..).symm, ?_, fun hslash s hs c hc => ?_⟩
  · rw [scan_append, hscan]
    exact hscan'
  · simp only [List.mem_append, not_or] at hslash
    rcases List.mem_append.mp hs with hs | hs
    · exact List.mem_append_left _ (hfound hslash.1 s hs c hc)
    · exact List.mem_append_right _ (hother hslash.2 s hs c hc)

theorem Reads.mono (h : Reads found text rest) (hsub : ∀ s ∈ other, s ∈ found) :
    Reads other text rest := by
  obtain ⟨used, rfl, hscan, hfound⟩ := h
  exact ⟨used, rfl, hscan, fun hslash s hs => hfound hslash s (hsub s hs)⟩

theorem Reads.of_plain (used rest : List Char) (h : ∀ c ∈ used, Plain c) :
    Reads [] (used ++ rest) rest :=
  ⟨used, rfl, scan_outside h, by simp⟩

theorem Reads.skip (text : List Char) : Reads [] text (JsonText.skip text) := by
  have hblank : ∀ c ∈ text.takeWhile isBlank, Plain c := by
    intro c hc
    have hc := List.mem_takeWhile_imp hc
    refine ⟨?_, ?_, ?_⟩ <;> rintro rfl <;> cases hc
  have hreads := Reads.of_plain _ (JsonText.skip text) hblank
  unfold JsonText.skip at hreads ⊢
  rwa [List.takeWhile_append_dropWhile] at hreads

theorem Reads.cons (h : Reads found text rest) (hc : Plain c) : Reads found (c :: text) rest :=
  (Reads.of_plain [c] _ (by simpa using hc)).trans h

theorem hexValue_plain (h : (hexValue c).isSome = true) : c ≠ '"' ∧ c ≠ '\\' := by
  constructor <;> rintro rfl <;> revert h <;> decide

theorem scan_unescape (h : (unescape c).isSome = true) :
    Mode.read .escaping c = some .inside := by
  have hc : c ∈ ['"', '\\', '/', 'b', 'f', 'n', 'r', 't', 'u'] := by
    unfold unescape at h
    split_ifs at h with h1 h2 h3 h4 h5 h6
    · rcases h1 with rfl | rfl | rfl <;> decide
    · rw [h2]; decide
    · rw [h3]; decide
    · rw [h4]; decide
    · rw [h5]; decide
    · rw [h6]; decide
    · cases h
  exact if_pos hc

-- A string up to its closing quote.
theorem codes_reads {units : List Nat} (h : codes text = some (units, rest)) :
    ∃ used, text = used ++ rest ∧ scan .inside used = some .outside ∧
      ('\\' ∉ used → ∃ body, used = body ++ ['"'] ∧ units = body.map Char.toNat) := by
  fun_induction codes text generalizing units with
  | case1 => cases h
  | case2 rest' =>
      cases h
      exact ⟨['"'], rfl, rfl, fun _ => ⟨[], rfl, rfl⟩⟩
  | case3 a b c d rest' va vb vc vd hd hc hb ha ih =>
      obtain ⟨⟨more, rest''⟩, hmore, heq⟩ := Option.map_eq_some_iff.mp h
      cases heq
      obtain ⟨used, rfl, hscan, -⟩ := ih hmore
      refine ⟨'\\' :: 'u' :: a :: b :: c :: d :: used, rfl, ?_, fun hslash => ?_⟩
      · have hinside (x : Char) (v : Nat) (hx : hexValue x = some v) (text : List Char) :
            scan .inside (x :: text) = scan .inside text := by
          obtain ⟨hq, hs⟩ := hexValue_plain (c := x) (by simp [hx])
          rw [scan_cons, read_inside hq hs, Option.bind_some]
        have hopen (text : List Char) :
            scan .inside ('\\' :: 'u' :: text) = scan .inside text := rfl
        rw [hopen, hinside a va ha, hinside b vb hb, hinside c vc hc, hinside d vd hd, hscan]
      · simp at hslash
  | case4 | case5 | case7 => cases h
  | case6 c rest' _ code hcode ih =>
      obtain ⟨⟨more, rest''⟩, hmore, heq⟩ := Option.map_eq_some_iff.mp h
      cases heq
      obtain ⟨used, rfl, hscan, -⟩ := ih hmore
      refine ⟨'\\' :: c :: used, rfl, ?_, fun hslash => ?_⟩
      · have hopen (text : List Char) :
            scan .inside ('\\' :: text) = scan .escaping text := rfl
        rw [hopen, scan_cons, scan_unescape (by simp [hcode]), Option.bind_some, hscan]
      · simp at hslash
  | case8 c rest' hquote _ _ hplain ih =>
      obtain ⟨⟨more, rest''⟩, hmore, heq⟩ := Option.map_eq_some_iff.mp h
      cases heq
      obtain ⟨used, rfl, hscan, hcopy⟩ := ih hmore
      have hslash : c ≠ '\\' := fun hc => hplain (Or.inr hc)
      refine ⟨c :: used, rfl, ?_, fun hslashes => ?_⟩
      · rw [scan_cons, read_inside hquote hslash, Option.bind_some, hscan]
      · obtain ⟨body, rfl, rfl⟩ := hcopy fun hmem => hslashes (List.mem_cons_of_mem _ hmem)
        exact ⟨c :: body, rfl, rfl⟩

theorem joined_map_toNat (body : List Char) : joined (body.map Char.toNat) = body := by
  induction body with
  | nil => rfl
  | cons c body ih =>
      rw [List.map_cons, joined_cons_of_not_high (toNat_valid c).2.1, charOf_toNat, ih]

theorem string_reads {s : String} (h : string text = some (s, rest)) :
    Reads [s] ('"' :: text) rest := by
  obtain ⟨⟨units, rest'⟩, hcodes, heq⟩ := Option.map_eq_some_iff.mp h
  cases heq
  obtain ⟨used, rfl, hscan, hcopy⟩ := codes_reads hcodes
  refine ⟨'"' :: used, rfl, hscan, fun hslash s hs c hc => ?_⟩
  obtain ⟨body, rfl, rfl⟩ := hcopy fun hmem => hslash (List.mem_cons_of_mem _ hmem)
  rw [List.mem_singleton.mp hs, String.toList_ofList, joined_map_toNat] at hc
  exact List.mem_cons_of_mem _ (List.mem_append_left _ hc)

theorem takeWhile_digits (text : List Char) : ∀ c ∈ text.takeWhile Char.isDigit, Plain c :=
  fun _ hc => isDigit_plain (List.mem_takeWhile_imp hc)

theorem wholeDigits_reads (text : List Char) :
    Reads [] text (text.drop (wholeDigits text).length) := by
  have hbegin : wholeDigits text <+: text ∧ ∀ c ∈ wholeDigits text, Plain c := by
    unfold wholeDigits
    split
    · next rest =>
        exact ⟨⟨rest, rfl⟩, by simp [Plain]⟩
    · exact ⟨List.takeWhile_prefix _, takeWhile_digits _⟩
  obtain ⟨htext, hplain⟩ := hbegin
  have hreads := Reads.of_plain _ (text.drop (wholeDigits text).length) hplain
  rwa [List.prefix_iff_eq_append.mp htext] at hreads

theorem fraction_reads (text : List Char) : Reads [] text (fraction text).2 := by
  unfold fraction
  split
  · next rest =>
      split_ifs
      · exact Reads.of_plain [] _ (by simp)
      · have hplain : ∀ c ∈ '.' :: rest.takeWhile Char.isDigit, Plain c := by
          intro c hc
          rcases List.mem_cons.mp hc with rfl | hc
          · exact ⟨by decide, by decide, by decide⟩
          · exact takeWhile_digits rest c hc
        have hreads := Reads.of_plain _ (rest.dropWhile Char.isDigit) hplain
        rwa [List.cons_append, List.takeWhile_append_dropWhile] at hreads
  · exact Reads.of_plain [] _ (by simp)

theorem digits_reads (text : List Char) : Reads [] text (text.dropWhile Char.isDigit) := by
  have hreads := Reads.of_plain _ (text.dropWhile Char.isDigit) (takeWhile_digits text)
  rwa [List.takeWhile_append_dropWhile] at hreads

theorem exponentDigits_reads (mark : List Char) (hmark : ∀ c ∈ mark, Plain c) (rest : List Char) :
    Reads [] (mark ++ rest) (exponentDigits mark (mark ++ rest) rest).2 := by
  unfold exponentDigits
  split_ifs
  · exact Reads.of_plain [] _ (by simp)
  · exact (Reads.of_plain mark rest hmark).trans (digits_reads rest)

theorem exponent_reads (text : List Char) : Reads [] text (exponent text).2 := by
  have hnone : Reads [] text text := Reads.of_plain [] _ (by simp)
  unfold exponent
  split
  · next e sign rest =>
      split_ifs with he hsign
      · exact hnone
      · refine exponentDigits_reads [e, sign] ?_ rest
        intro c hc
        simp only [List.mem_cons, List.not_mem_nil, or_false] at hc
        refine ⟨?_, ?_, ?_⟩ <;> rintro rfl <;> grind
      · refine exponentDigits_reads [e] ?_ (sign :: rest)
        intro c hc
        simp only [List.mem_cons, List.not_mem_nil, or_false] at hc
        refine ⟨?_, ?_, ?_⟩ <;> rintro rfl <;> grind
  · exact hnone

theorem unsigned_reads {floatOf : List Char → BitVec 64} {negative : Bool} {v : Json}
    (h : unsigned floatOf negative text = some (v, rest)) :
    Reads (strings v) text rest := by
  have hreads := ((wholeDigits_reads text).trans (fraction_reads _)).trans (exponent_reads _)
  unfold unsigned at h
  simp only at h
  by_cases hempty : (wholeDigits text).isEmpty = true
  · rw [if_pos hempty] at h
    cases h
  · rw [if_neg hempty] at h
    split_ifs at h <;> cases h <;> exact hreads

theorem fieldStrings_assign {fields : List (String × Json)} {key s : String} {item : Json}
    (h : s ∈ fieldStrings (assign fields key item)) :
    s ∈ fieldStrings fields ∨ s ∈ fieldStrings [(key, item)] := by
  induction fields with
  | nil => exact Or.inr h
  | cons field fields ih =>
      obtain ⟨other, held⟩ := field
      unfold assign at h
      split_ifs at h with heq
      · simp only [fieldStrings, List.mem_cons, List.mem_append] at h ⊢
        grind
      · simp only [fieldStrings, List.mem_cons, List.mem_append] at h ih ⊢
        grind

theorem fieldStrings_dict {pairs : List (String × Json)} {s : String}
    (h : s ∈ fieldStrings (dict pairs)) : s ∈ fieldStrings pairs := by
  suffices hgen : ∀ fields : List (String × Json),
      s ∈ fieldStrings (pairs.foldl (fun fields pair => assign fields pair.1 pair.2) fields) →
      s ∈ fieldStrings fields ∨ s ∈ fieldStrings pairs by
    rcases hgen [] h with hnil | hpairs
    · cases hnil
    · exact hpairs
  clear h
  induction pairs with
  | nil => exact fun fields h => Or.inl h
  | cons pair pairs ih =>
      intro fields h
      rcases ih _ h with hassign | hpairs
      · rcases fieldStrings_assign hassign with hfields | hpair
        · exact Or.inl hfields
        · right
          simp only [fieldStrings, List.mem_cons, List.mem_append] at hpair ⊢
          grind
      · right
        simp only [fieldStrings, List.mem_cons, List.mem_append]
        exact Or.inr (Or.inr hpairs)

-- What the three parsers have read with that much fuel.
structure Scans (floatOf : List Char → BitVec 64) (fuel : Nat) : Prop where
  value : ∀ {text v rest}, value floatOf fuel text = some (v, rest) →
    Reads (strings v) text rest
  members : ∀ {text pairs rest}, members floatOf fuel text = some (pairs, rest) →
    Reads (fieldStrings pairs) text rest
  elements : ∀ {text items rest}, elements floatOf fuel text = some (items, rest) →
    Reads (itemStrings items) text rest

variable {floatOf : List Char → BitVec 64} {fuel : Nat}

theorem Reads.skipTo (h : JsonText.skip text = c :: rest) (hc : Plain c) : Reads [] text rest := by
  have hskip := Reads.skip text
  rw [h] at hskip
  exact hskip.trans (Reads.of_plain [c] _ (by simpa using hc))

theorem word_reads {entry : List Char × Json} (rest : List Char) (h : entry ∈ words floatOf) :
    Reads (strings entry.2) (entry.1 ++ rest) rest := by
  simp only [words, List.mem_cons, List.not_mem_nil, or_false] at h
  rcases h with rfl | rfl | rfl | rfl | rfl | rfl <;>
    exact Reads.of_plain _ _ (by simp [Plain])

theorem Scans.value_succ (h : Scans floatOf fuel) {v : Json}
    (hv : JsonText.value floatOf (fuel + 1) text = some (v, rest)) :
    Reads (strings v) text rest := by
  cases readsValue_of_value hv with
  | str hstring => exact string_reads hstring
  | emptyObj hskip =>
      exact Reads.cons (Reads.skipTo hskip (by simp [Plain])) (by simp [Plain])
  | @obj text rest pairs hpairs =>
      refine Reads.cons ?_ (by simp [Plain])
      exact ((Reads.skip text).trans (h.members hpairs)).mono fun s hs => fieldStrings_dict hs
  | emptyArr hskip =>
      exact Reads.cons (Reads.skipTo hskip (by simp [Plain])) (by simp [Plain])
  | @arr text rest items hitems =>
      refine Reads.cons ?_ (by simp [Plain])
      exact (Reads.skip text).trans (h.elements hitems)
  | word rest hentry => exact word_reads rest hentry
  | negative hnumber => exact Reads.cons (unsigned_reads hnumber) (by simp [Plain])
  | number hnumber => exact unsigned_reads hnumber

-- A key, its colon and its value.
theorem Scans.member (h : Scans floatOf fuel) {afterKey afterColon afterItem : List Char}
    {key : String} {item : Json} (hkey : string text = some (key, afterKey))
    (hcolon : JsonText.skip afterKey = ':' :: afterColon)
    (hitem : JsonText.value floatOf fuel (JsonText.skip afterColon) = some (item, afterItem)) :
    Reads (key :: strings item) ('"' :: text) afterItem := by
  have hhead := (string_reads hkey).trans (Reads.skipTo hcolon (by simp [Plain]))
  exact (hhead.trans ((Reads.skip afterColon).trans (h.value hitem))).mono (by simp)

theorem Scans.members_succ (h : Scans floatOf fuel) {pairs : List (String × Json)}
    (hpairs : JsonText.members floatOf (fuel + 1) text = some (pairs, rest)) :
    Reads (fieldStrings pairs) text rest := by
  cases readsMembers_of_members hpairs with
  | last hkey hcolon hitem hclose =>
      refine ((h.member hkey hcolon hitem).trans (Reads.skipTo hclose (by simp [Plain]))).mono ?_
      simp [fieldStrings]
  | more hkey hcolon hitem hcomma hmore =>
      refine (((h.member hkey hcolon hitem).trans (Reads.skipTo hcomma (by simp [Plain]))).trans
        ((Reads.skip _).trans (h.members hmore))).mono ?_
      simp [fieldStrings]

theorem Scans.elements_succ (h : Scans floatOf fuel) {items : List Json}
    (hitems : JsonText.elements floatOf (fuel + 1) text = some (items, rest)) :
    Reads (itemStrings items) text rest := by
  cases readsElements_of_elements hitems with
  | last hitem hclose =>
      refine ((h.value hitem).trans (Reads.skipTo hclose (by simp [Plain]))).mono ?_
      simp [itemStrings]
  | more hitem hcomma hmore =>
      refine (((h.value hitem).trans (Reads.skipTo hcomma (by simp [Plain]))).trans
        ((Reads.skip _).trans (h.elements hmore))).mono ?_
      simp [itemStrings]

theorem scans (floatOf : List Char → BitVec 64) (fuel : Nat) : Scans floatOf fuel := by
  induction fuel with
  | zero =>
      refine ⟨fun h => ?_, fun h => ?_, fun h => ?_⟩
      · cases h
      · simp [JsonText.members] at h
      · simp [JsonText.elements] at h
  | succ fuel ih => exact ⟨ih.value_succ, ih.members_succ, ih.elements_succ⟩

-- A text that json.loads accepts ends outside of its strings, and without an escape its
-- strings are copied from it.
theorem loads_reads {v : Json} (h : loads floatOf text = some v) : Reads (strings v) text [] := by
  obtain ⟨rest, hvalue, hrest⟩ := loads_eq_some_iff.mp h
  have hend := Reads.skip rest
  rw [hrest] at hend
  have hreads := ((Reads.skip text).trans ((scans floatOf _).value hvalue)).trans hend
  exact hreads.mono (by simp)

theorem scan_of_loads {v : Json} (h : loads floatOf text = some v) :
    scan .outside text = some .outside := by
  obtain ⟨used, htext, hscan, -⟩ := loads_reads h
  rwa [htext, List.append_nil]

theorem mem_of_loads {v : Json} (h : loads floatOf text = some v) (hslash : '\\' ∉ text)
    {s : String} (hs : s ∈ strings v) (hc : c ∈ s.toList) : c ∈ text := by
  obtain ⟨used, htext, -, hcopy⟩ := loads_reads h
  rw [List.append_nil] at htext
  rw [htext] at hslash ⊢
  exact hcopy hslash s hs c hc

end Loads

end EvoClaw.JsonText
