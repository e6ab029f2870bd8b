import EvoClaw.JsonText.RoundTrip

-- The ways in which the parsers of json.loads read a text, one for each rule.
namespace EvoClaw.JsonText

section Heads

variable {floatOf : List Char → BitVec 64} {c : Char} {text rest : List Char}

def isClosing (c : Char) : Bool := c = '}' || c = ']'

theorem isDigit_solid (h : c.isDigit = true) :
    isSpace c = false ∧ isClosing c = false ∧ c ≠ '"' ∧ c ≠ ',' := by
  have hrange : 48 ≤ c.toNat ∧ c.toNat ≤ 57 := by
    simpa [Char.isDigit, Char.le_def, UInt32.le_iff_toNat_le] using h
  have hne : ∀ d : Char, d.isDigit = false → c ≠ d := by
    rintro d hd rfl
    rw [h] at hd
    cases hd
  refine ⟨?_, ?_, hne _ rfl, hne _ rfl⟩
  · unfold isSpace
    simp only [decide_eq_false_iff_not]
    omega
  · simp [isClosing, hne '}' rfl, hne ']' rfl]

-- A number begins with a digit.
theorem unsigned_head {negative : Bool} {v : Json}
    (h : unsigned floatOf negative text = some (v, rest)) :
    ∃ c more, text = c :: more ∧ c.isDigit = true := by
  cases text with
  | nil => cases h
  | cons c more =>
      refine ⟨c, more, rfl, ?_⟩
      by_contra hdigit
      have hwhole : wholeDigits (c :: more) = [] := by
        unfold wholeDigits
        split
        · next heq =>
            cases heq
            exact absurd rfl hdigit
        · exact List.takeWhile_cons_of_neg hdigit
      unfold unsigned at h
      rw [hwhole] at h
      cases h

end Heads

section Parsers

variable {floatOf : List Char → BitVec 64} {fuel : Nat} {text rest : List Char} {v : Json}

-- The words that are values.
def words (floatOf : List Char → BitVec 64) : List (List Char × Json) :=
  [("null".toList, .null), ("true".toList, .bool true), ("false".toList, .bool false),
    ("NaN".toList, .float (floatOf "NaN".toList)),
    ("Infinity".toList, .float (floatOf "Infinity".toList)),
    ("-Infinity".toList, .float (floatOf "-Infinity".toList))]

-- The ways of reading a value.
inductive ReadsValue (floatOf : List Char → BitVec 64) (fuel : Nat) :
    List Char → Json → List Char → Prop where
  | str {text rest : List Char} {s : String} : string text = some (s, rest) →
      ReadsValue floatOf fuel ('"' :: text) (.str s) rest
  | emptyObj {text rest : List Char} : skip text = '}' :: rest →
      ReadsValue floatOf fuel ('{' :: text) (.obj []) rest
  | obj {text rest : List Char} {pairs : List (String × Json)} :
      members floatOf fuel (skip text) = some (pairs, rest) →
      ReadsValue floatOf fuel ('{' :: text) (.obj (dict pairs)) rest
  | emptyArr {text rest : List Char} : skip text = ']' :: rest →
      ReadsValue floatOf fuel ('[' :: text) (.arr []) rest
  | arr {text rest : List Char} {items : List Json} :
      elements floatOf fuel (skip text) = some (items, rest) →
      ReadsValue floatOf fuel ('[' :: text) (.arr items) rest
  | word {entry : List Char × Json} (rest : List Char) : entry ∈ words floatOf →
      ReadsValue floatOf fuel (entry.1 ++ rest) entry.2 rest
  | negative {text rest : List Char} {v : Json} : unsigned floatOf true text = some (v, rest) →
      ReadsValue floatOf fuel ('-' :: text) v rest
  | number {text rest : List Char} {v : Json} : unsigned floatOf false text = some (v, rest) →
      ReadsValue floatOf fuel text v rest

theorem readsValue_of_value (h : value floatOf (fuel + 1) text = some (v, rest)) :
    ReadsValue floatOf fuel text v rest := by
  unfold value at h
  split at h
  · cases h
  · cases h
  · obtain ⟨⟨s, rest'⟩, hstring, heq⟩ := Option.map_eq_some_iff.mp h
    cases heq
    exact .str hstring
  · next fuel' rest' heq =>
      cases heq
      split at h
      · next hskip =>
          cases h
          exact .emptyObj hskip
      · obtain ⟨⟨pairs, rest''⟩, hpairs, heq⟩ := Option.map_eq_some_iff.mp h
        cases heq
        exact .obj hpairs
  · next fuel' rest' heq =>
      cases heq
      split at h
      · next hskip =>
          cases h
          exact .emptyArr hskip
      · obtain ⟨⟨items, rest''⟩, hitems, heq⟩ := Option.map_eq_some_iff.mp h
        cases heq
        exact .arr hitems
  · cases h
    exact .word _ (by simp [words] : ("null".toList, Json.null) ∈ words floatOf)
  · cases h
    exact .word _ (by simp [words] : ("true".toList, Json.bool true) ∈ words floatOf)
  · cases h
    exact .word _ (by simp [words] : ("false".toList, Json.bool false) ∈ words floatOf)
  · cases h
    exact .word _ (by simp [words] :
      ("NaN".toList, Json.float (floatOf "NaN".toList)) ∈ words floatOf)
  · cases h
    exact .word _ (by simp [words] :
      ("Infinity".toList, Json.float (floatOf "Infinity".toList)) ∈ words floatOf)
  · cases h
    exact .word _ (by simp [words] :
      ("-Infinity".toList, Json.float (floatOf "-Infinity".toList)) ∈ words floatOf)
  · exact .negative h
  · exact .number h

inductive ReadsMembers (floatOf : List Char → BitVec 64) (fuel : Nat) :
    List Char → List (String × Json) → List Char → Prop where
  | last {text afterKey afterColon afterItem rest : List Char} {key : String} {item : Json} :
      string text = some (key, afterKey) → skip afterKey = ':' :: afterColon →
      value floatOf fuel (skip afterColon) = some (item, afterItem) →
      skip afterItem = '}' :: rest →
      ReadsMembers floatOf fuel ('"' :: text) [(key, item)] rest
  | more {text afterKey afterColon afterItem afterComma rest : List Char} {key : String}
      {item : Json} {pairs : List (String × Json)} :
      string text = some (key, afterKey) → skip afterKey = ':' :: afterColon →
      value floatOf fuel (skip afterColon) = some (item, afterItem) →
      skip afterItem = ',' :: afterComma →
      members floatOf fuel (skip afterComma) = some (pairs, rest) →
      ReadsMembers floatOf fuel ('"' :: text) ((key, item) :: pairs) rest

inductive ReadsElements (floatOf : List Char → BitVec 64) (fuel : Nat) :
    List Char → List Json → List Char → Prop where
  | last {text afterItem rest : List Char} {item : Json} :
      value floatOf fuel text = some (item, afterItem) → skip afterItem = ']' :: rest →
      ReadsElements floatOf fuel text [item] rest
  | more {text afterItem afterComma rest : List Char} {item : Json} {items : List Json} :
      value floatOf fuel text = some (item, afterItem) → skip afterItem = ',' :: afterComma →
      elements floatOf fuel (skip afterComma) = some (items, rest) →
      ReadsElements floatOf fuel text (item :: items) rest

theorem readsMembers_of_members {pairs : List (String × Json)}
    (h : members floatOf (fuel + 1) text = some (pairs, rest)) :
    ReadsMembers floatOf fuel text pairs rest := by
  unfold members at h
  split at h
  · cases h
  · next fuel' rest' heq =>
      cases heq
      split at h
      · cases h
      · next key afterKey hkey =>
          split at h
          · next afterColon hcolon =>
              split at h
              · cases h
              · next item afterItem hitem =>
                  split at h
                  · next hclose =>
                      cases h
                      exact .last hkey hcolon hitem hclose
                  · next afterComma hcomma =>
                      obtain ⟨⟨more, rest''⟩, hmore, heq⟩ := Option.map_eq_some_iff.mp h
                      cases heq
                      exact .more hkey hcolon hitem hcomma hmore
                  · cases h
          · cases h
  · cases h

theorem readsElements_of_elements {items : List Json}
    (h : elements floatOf (fuel + 1) text = some (items, rest)) :
    ReadsElements floatOf fuel text items rest := by
  unfold elements at h
  dsimp only at h
  split at h
  · cases h
  · next item afterItem hitem =>
      split at h
      · next hclose =>
          cases h
          exact .last hitem hclose
      · next afterComma hcomma =>
          obtain ⟨⟨more, rest''⟩, hmore, heq⟩ := Option.map_eq_some_iff.mp h
          cases heq
          exact .more hitem hcomma hmore
      · cases h

-- A value begins with a character that is neither whitespace nor a closing bracket.
theorem value_head (h : value floatOf fuel text = some (v, rest)) :
    ∃ c more, text = c :: more ∧ isSpace c = false ∧ isClosing c = false := by
  cases fuel with
  | zero => cases h
  | succ fuel =>
      cases readsValue_of_value h with
      | str => exact ⟨_, _, rfl, by decide, by decide⟩
      | emptyObj | obj => exact ⟨_, _, rfl, by decide, by decide⟩
      | emptyArr | arr => exact ⟨_, _, rfl, by decide, by decide⟩
      | word rest hentry =>
          simp only [words, List.mem_cons, List.not_mem_nil, or_false] at hentry
          rcases hentry with rfl | rfl | rfl | rfl | rfl | rfl <;>
            exact ⟨_, _, rfl, by decide, by decide⟩
      | negative => exact ⟨_, _, rfl, by decide, by decide⟩
      | number h =>
          obtain ⟨c, more, rfl, hdigit⟩ := unsigned_head h
          obtain ⟨hsolid, hclosing, -⟩ := isDigit_solid hdigit
          exact ⟨c, more, rfl, hsolid, hclosing⟩

theorem members_head {pairs : List (String × Json)}
    (h : members floatOf fuel text = some (pairs, rest)) : ∃ more, text = '"' :: more := by
  cases fuel with
  | zero => simp [members] at h
  | succ fuel =>
      cases readsMembers_of_members h with
      | last | more => exact ⟨_, rfl⟩

theorem elements_head {items : List Json}
    (h : elements floatOf fuel text = some (items, rest)) :
    ∃ c more, text = c :: more ∧ isSpace c = false ∧ isClosing c = false := by
  cases fuel with
  | zero => simp [elements] at h
  | succ fuel =>
      cases readsElements_of_elements h with
      | last hitem | more hitem => exact value_head hitem

theorem value_of_readsValue (h : ReadsValue floatOf fuel text v rest) :
    value floatOf (fuel + 1) text = some (v, rest) := by
  cases h with
  | str h =>
      rw [value_quote, h]
      rfl
  | emptyObj h => simp only [value_brace, h]
  | @obj text rest pairs h =>
      obtain ⟨more, hmore⟩ := members_head h
      rw [value_brace]
      split
      · next heq =>
          rw [hmore] at heq
          cases heq
      · rw [h]
        rfl
  | emptyArr h => simp only [value_bracket, h]
  | @arr text rest items h =>
      obtain ⟨c, more, hmore, -, hclosing⟩ := elements_head h
      rw [value_bracket]
      split
      · next heq =>
          rw [hmore] at heq
          cases heq
          cases hclosing
      · rw [h]
        rfl
  | word rest hentry =>
      simp only [words, List.mem_cons, List.not_mem_nil, or_false] at hentry
      rcases hentry with rfl | rfl | rfl | rfl | rfl | rfl <;> rfl
  | negative h =>
      obtain ⟨c, more, rfl, hdigit⟩ := unsigned_head h
      rw [value_minus floatOf fuel more hdigit, h]
  | number h =>
      obtain ⟨c, more, rfl, hdigit⟩ := unsigned_head h
      rw [value_unsigned floatOf fuel more hdigit, h]

theorem members_of_readsMembers {pairs : List (String × Json)}
    (h : ReadsMembers floatOf fuel text pairs rest) :
    members floatOf (fuel + 1) text = some (pairs, rest) := by
  cases h with
  | last hkey hcolon hitem hclose => simp only [members, hkey, hcolon, hitem, hclose]
  | more hkey hcolon hitem hcomma hmore =>
      simp only [members, hkey, hcolon, hitem, hcomma, hmore, Option.map_some]

theorem elements_of_readsElements {items : List Json}
    (h : ReadsElements floatOf fuel text items rest) :
    elements floatOf (fuel + 1) text = some (items, rest) := by
  cases h with
  | last hitem hclose => simp only [elements, hitem, hclose]
  | more hitem hcomma hmore => simp only [elements, hitem, hcomma, hmore, Option.map_some]

end Parsers

section Fuel

variable {floatOf : List Char → BitVec 64} {fuel : Nat} {text rest : List Char} {v : Json}

-- What is read with some fuel is read with more.
structure Steady (floatOf : List Char → BitVec 64) (fuel : Nat) : Prop where
  value : ∀ {text v rest}, value floatOf fuel text = some (v, rest) →
    value floatOf (fuel + 1) text = some (v, rest)
  members : ∀ {text pairs rest}, members floatOf fuel text = some (pairs, rest) →
    members floatOf (fuel + 1) text = some (pairs, rest)
  elements : ∀ {text items rest}, elements floatOf fuel text = some (items, rest) →
    elements floatOf (fuel + 1) text = some (items, rest)

theorem steady (floatOf : List Char → BitVec 64) (fuel : Nat) : Steady floatOf fuel := by
  induction fuel with
  | zero =>
      refine ⟨fun h => ?_, fun h => ?_, fun h => ?_⟩
      · cases h
      · simp [JsonText.members] at h
      · simp [JsonText.elements] at h
  | succ fuel ih =>
      refine ⟨fun h => ?_, fun h => ?_, fun h => ?_⟩
      · refine value_of_readsValue ?_
        cases readsValue_of_value h with
        | str h => exact .str h
        | emptyObj h => exact .emptyObj h
        | obj h => exact .obj (ih.members h)
        | emptyArr h => exact .emptyArr h
        | arr h => exact .arr (ih.elements h)
        | word _ hentry => exact .word _ hentry
        | negative h => exact .negative h
        | number h => exact .number h
      · refine members_of_readsMembers ?_
        cases readsMembers_of_members h with
        | last hkey hcolon hitem hclose => exact .last hkey hcolon (ih.value hitem) hclose
        | more hkey hcolon hitem hcomma hmore =>
            exact .more hkey hcolon (ih.value hitem) hcomma (ih.members hmore)
      · refine elements_of_readsElements ?_
        cases readsElements_of_elements h with
        | last hitem hclose => exact .last (ih.value hitem) hclose
        | more hitem hcomma hmore => exact .more (ih.value hitem) hcomma (ih.elements hmore)

theorem value_mono {more : Nat} (hle : fuel ≤ more) (h : value floatOf fuel text = some (v, rest)) :
    value floatOf more text = some (v, rest) := by
  induction more, hle using Nat.le_induction with
  | base => exact h
  | succ more _ ih => exact (steady floatOf more).value ih

theorem loads_eq_some_iff : loads floatOf text = some v ↔
    ∃ rest, value floatOf (text.length + 1) (skip text) = some (v, rest) ∧ skip rest = [] := by
  unfold loads
  constructor
  · intro h
    split at h
    · cases h
    · next found rest hvalue =>
        split at h
        · next hrest =>
            cases h
            exact ⟨rest, hvalue, List.isEmpty_iff.mp hrest⟩
        · cases h
  · rintro ⟨rest, hvalue, hrest⟩
    rw [hvalue]
    dsimp only
    rw [hrest]
    rfl

end Fuel

end EvoClaw.JsonText
