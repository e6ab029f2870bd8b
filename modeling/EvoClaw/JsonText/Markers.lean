import EvoClaw.JsonText.Quotes
import EvoClaw.Text.Search
import Mathlib.Tactic.FinCases

namespace EvoClaw.JsonText

open Text

-- A character that is written as it is, and is part of no escape.
def copied (c : Char) : Bool :=
  c.isUpper || c = '_' || c = '-'

-- A word that JSON neither escapes nor uses itself.
structure Marker (word : List Char) : Prop where
  underscore : '_' ∈ word
  copied : ∀ c ∈ word, copied c = true

variable {word text rest : List Char} {c d : Char}

theorem copied_range (h : copied c = true) : 0x20 ≤ c.toNat ∧ c.toNat ≤ 0x7e := by
  simp only [copied, Bool.or_eq_true, decide_eq_true_eq] at h
  rcases h with (h | rfl) | rfl
  · have hupper : 65 ≤ c.toNat ∧ c.toNat ≤ 90 := by
      delta Char.isUpper at h
      simpa [UInt32.le_iff_toNat_le] using h
    omega
  · decide
  · decide

theorem escape_of_copied (h : copied c = true) : escape c = [c] := by
  have hrange := copied_range h
  have hne {d : Char} (hd : copied d = false) : c ≠ d := by
    rintro rfl
    rw [h] at hd
    cases hd
  rw [escape, if_neg (hne rfl), if_neg (hne rfl), if_neg (hne rfl), if_neg (hne rfl),
    if_neg (hne rfl), if_neg (by omega), if_neg (by omega), if_pos hrange]

theorem copied_hexDigit (n : Nat) : copied (hexDigit n) = false := by
  have hall : ∀ d < 16, copied (Nat.digitChar d) = false := by decide
  exact hall (n % 16) (Nat.mod_lt n (by omega))

theorem copied_unicodeEscape {n : Nat} (h : c ∈ unicodeEscape n) : copied c = false := by
  simp only [unicodeEscape, List.mem_cons, List.not_mem_nil, or_false] at h
  rcases h with rfl | rfl | rfl | rfl | rfl | rfl
  · rfl
  · rfl
  all_goals exact copied_hexDigit _

-- An escape of another character has nothing that is copied.
theorem escape_cases (d : Char) : escape d = [d] ∨ ∀ c ∈ escape d, copied c = false := by
  rcases escape_forms d with ⟨hd, -⟩ | ⟨mark, hmark, hd, -⟩ | ⟨hd, -⟩ | ⟨hd, -⟩
  · exact Or.inl hd
  · right
    rw [hd]
    intro c hc
    rcases List.mem_cons.mp hc with rfl | hc
    · rfl
    · rw [List.mem_singleton.mp hc]
      fin_cases hmark <;> rfl
  · right
    rw [hd]
    exact fun c hc => copied_unicodeEscape hc
  · right
    rw [hd]
    intro c hc
    rcases List.mem_append.mp hc with hc | hc <;> exact copied_unicodeEscape hc

theorem escape_ne_nil (c : Char) : escape c ≠ [] := by
  rcases escape_forms c with ⟨hc, -⟩ | ⟨mark, -, hc, -⟩ | ⟨hc, -⟩ | ⟨hc, -⟩ <;>
    simp [hc, unicodeEscape]

namespace Marker

theorem notMem (h : Marker word) (hc : JsonText.copied c = false) : c ∉ word := by
  intro hmem
  rw [h.copied c hmem] at hc
  cases hc

theorem ne_nil (h : Marker word) : word ≠ [] :=
  List.ne_nil_of_mem h.underscore

theorem flatMap_escape (h : ∀ c ∈ word, JsonText.copied c = true) :
    word.flatMap escape = word := by
  induction word with
  | nil => rfl
  | cons c word ih =>
      rw [List.flatMap_cons, escape_of_copied (h c (by simp)),
        ih fun c hc => h c (List.mem_cons_of_mem _ hc)]
      rfl

theorem prefix_escapes (h : ∀ c ∈ word, JsonText.copied c = true)
    (hbegins : word <+: text.flatMap escape) : word <+: text := by
  induction text generalizing word with
  | nil => exact hbegins
  | cons d text ih =>
      cases word with
      | nil => exact List.nil_prefix
      | cons c word =>
          rw [List.flatMap_cons] at hbegins
          rcases escape_cases d with hcopy | hescape
          · rw [hcopy, List.singleton_append, List.cons_prefix_cons] at hbegins
            rw [List.cons_prefix_cons]
            exact ⟨hbegins.1, ih (fun c hc => h c (List.mem_cons_of_mem _ hc)) hbegins.2⟩
          · cases hd : escape d with
            | nil => exact absurd hd (escape_ne_nil d)
            | cons e more =>
                rw [hd, List.cons_append, List.cons_prefix_cons] at hbegins
                have hfalse := hescape e (by simp [hd])
                rw [← hbegins.1, h c (by simp)] at hfalse
                cases hfalse

theorem infix_escapes (h : Marker word) :
    word <:+: text.flatMap escape ↔ word <:+: text := by
  constructor
  · intro hword
    induction text with
    | nil => exact hword
    | cons d text ih =>
        rw [List.flatMap_cons] at hword
        rcases List.infix_append_iff_ne_nil.mp hword with
          hhere | hlater | ⟨left, right, hleft, -, rfl, hsuffix, hbegins⟩
        · rcases escape_cases d with hcopy | hescape
          · rw [hcopy] at hhere
            exact hhere.trans (List.prefix_append [d] text).isInfix
          · have hfalse := hescape _ (hhere.subset h.underscore)
            cases hfalse
        · exact List.infix_cons (ih hlater)
        · rcases escape_cases d with hcopy | hescape
          · have hd : left = [d] := by
              rw [hcopy] at hsuffix
              rcases List.suffix_cons_iff.mp hsuffix with heq | hnil
              · exact heq
              · exact absurd (List.suffix_nil.mp hnil) hleft
            subst hd
            have hright := prefix_escapes
              (fun c hc => h.copied c (List.mem_append_right _ hc)) hbegins
            exact (List.cons_prefix_cons.mpr ⟨rfl, hright⟩).isInfix
          · obtain ⟨c, left, rfl⟩ := List.exists_cons_of_ne_nil hleft
            have hfalse := hescape c (hsuffix.subset (by simp))
            rw [h.copied c (by simp)] at hfalse
            cases hfalse
  · rintro ⟨before, after, rfl⟩
    rw [List.flatMap_append, List.flatMap_append, flatMap_escape h.copied]
    exact ⟨_, _, rfl⟩

theorem infix_quote (h : Marker word) {s : String} :
    word <:+: quote s ↔ word <:+: s.toList := by
  have hquote : '"' ∉ word := h.notMem rfl
  constructor
  · intro hword
    have hquoted : word <:+: [] ++ '"' :: (s.toList.flatMap escape ++ ['"']) := hword
    rcases infix_split hquote hquoted with hnil | hbody
    · exact absurd (List.infix_nil.mp hnil) h.ne_nil
    · rcases infix_split hquote hbody with hbody | hnil
      · exact h.infix_escapes.mp hbody
      · exact absurd (List.infix_nil.mp hnil) h.ne_nil
  · intro hword
    exact List.infix_cons (List.infix_append_of_infix_left (h.infix_escapes.mpr hword))

theorem not_infix_nil (h : Marker word) : ¬ word <:+: [] :=
  fun hword => h.ne_nil (List.infix_nil.mp hword)

theorem not_infix_of_notMem (h : Marker word) (htext : '_' ∉ text) : ¬ word <:+: text :=
  fun hword => htext (hword.subset h.underscore)

theorem infix_cons_iff (h : Marker word) (hc : JsonText.copied c = false) :
    word <:+: c :: text ↔ word <:+: text := by
  refine ⟨fun hword => ?_, List.infix_cons⟩
  have hcons : word <:+: [] ++ c :: text := hword
  rcases infix_split (h.notMem hc) hcons with hnil | htext
  · exact absurd hnil h.not_infix_nil
  · exact htext

theorem infix_append_cons_iff (h : Marker word) (hc : JsonText.copied c = false) :
    word <:+: text ++ c :: rest ↔ word <:+: text ∨ word <:+: rest := by
  refine ⟨infix_split (h.notMem hc), ?_⟩
  rintro (htext | hrest)
  · exact List.infix_append_of_infix_left htext
  · exact List.infix_append_of_infix_right (List.infix_cons hrest)

theorem not_infix_intText (h : Marker word) (n : Int) : ¬ word <:+: intText n := by
  apply h.not_infix_of_notMem
  have hdigits : '_' ∉ Nat.toDigits 10 n.natAbs := Nat.underscore_not_in_toDigits
  unfold intText
  split_ifs
  · simp [hdigits]
  · exact hdigits

variable (floatText : BitVec 64 → List Char) {floatOf : List Char → BitVec 64}

theorem infix_append_dumpItems (h : Marker word) (items : List Json) :
    word <:+: text ++ dumpItems floatText items ↔
      word <:+: text ∨ word <:+: dumpItems floatText items := by
  cases items with
  | nil => rw [dumpItems, h.infix_append_cons_iff rfl, h.infix_cons_iff rfl]
  | cons item items =>
      rw [dumpItems, h.infix_append_cons_iff rfl, h.infix_cons_iff (c := ',') rfl]

theorem infix_append_dumpFields (h : Marker word) (fields : List (String × Json)) :
    word <:+: text ++ dumpFields floatText fields ↔
      word <:+: text ∨ word <:+: dumpFields floatText fields := by
  cases fields with
  | nil => rw [dumpFields, h.infix_append_cons_iff rfl, h.infix_cons_iff rfl]
  | cons field fields =>
      rw [dumpFields, h.infix_append_cons_iff rfl, h.infix_cons_iff (c := ',') rfl]

mutual

-- A value has the word in its text if it has it in a string.
theorem infix_dumps (h : Marker word) : ∀ {v : Json}, Readable floatText floatOf v →
    (word <:+: dumps floatText v ↔ ∃ s ∈ strings v, word <:+: s.toList)
  | .null, _ => by simp [dumps, strings, h.not_infix_of_notMem]
  | .bool true, _ => by simp [dumps, strings, h.not_infix_of_notMem]
  | .bool false, _ => by simp [dumps, strings, h.not_infix_of_notMem]
  | .int n, _ => by simp [dumps, strings, h.not_infix_intText]
  | .float _, hv => by
      have hunderscore := h.not_infix_of_notMem fun hmem => (hv.plain _ hmem).2.2 rfl
      simp [dumps, strings, hunderscore]
  | .str s, _ => by simp [dumps, strings, h.infix_quote]
  | .arr [], _ => by simp [dumps, strings, itemStrings, h.not_infix_of_notMem]
  | .arr (item :: items), hv => by
      obtain ⟨hitem, hitems⟩ := by simpa [Readable, ReadableItems] using hv
      rw [dumps, h.infix_cons_iff rfl, h.infix_append_dumpItems floatText items,
        infix_dumps h hitem, infix_dumpItems h hitems]
      simp [strings, itemStrings, or_and_right, exists_or]
  | .obj [], _ => by simp [dumps, strings, fieldStrings, h.not_infix_of_notMem]
  | .obj ((key, item) :: fields), hv => by
      simp only [Readable, ReadableFields] at hv
      rw [dumps, h.infix_cons_iff rfl, h.infix_append_cons_iff rfl, h.infix_cons_iff rfl,
        h.infix_quote, h.infix_append_dumpFields floatText fields, infix_dumps h hv.2.1,
        infix_dumpFields h hv.2.2]
      simp [strings, fieldStrings, or_and_right, exists_or]

theorem infix_dumpItems (h : Marker word) :
    ∀ {items : List Json}, ReadableItems floatText floatOf items →
    (word <:+: dumpItems floatText items ↔ ∃ s ∈ itemStrings items, word <:+: s.toList)
  | [], _ => by simp [dumpItems, itemStrings, h.not_infix_of_notMem]
  | item :: items, hv => by
      obtain ⟨hitem, hitems⟩ := hv
      rw [dumpItems, h.infix_cons_iff rfl, h.infix_cons_iff rfl,
        h.infix_append_dumpItems floatText items, infix_dumps h hitem, infix_dumpItems h hitems]
      simp [itemStrings, or_and_right, exists_or]

theorem infix_dumpFields (h : Marker word) : ∀ {fields : List (String × Json)},
    ReadableFields floatText floatOf fields →
    (word <:+: dumpFields floatText fields ↔ ∃ s ∈ fieldStrings fields, word <:+: s.toList)
  | [], _ => by simp [dumpFields, fieldStrings, h.not_infix_of_notMem]
  | (key, item) :: fields, hv => by
      obtain ⟨hitem, hfields⟩ := hv
      rw [dumpFields, h.infix_cons_iff rfl, h.infix_cons_iff rfl, h.infix_append_cons_iff rfl,
        h.infix_cons_iff rfl, h.infix_quote, h.infix_append_dumpFields floatText fields,
        infix_dumps h hitem, infix_dumpFields h hfields]
      simp [fieldStrings, or_and_right, exists_or]

end

theorem scan_outside (h : Marker word) : scan .outside word = none := by
  obtain ⟨before, after, rfl⟩ := List.append_of_mem h.underscore
  rw [scan_append]
  cases hbefore : scan .outside before with
  | none => rfl
  | some mode =>
      have hin : scan .inside before = some .inside := by
        apply scan_inside
        intro c hc
        have hcopied := h.copied c (List.mem_append_left _ hc)
        constructor <;> rintro rfl <;> cases hcopied
      rcases (scan_both hbefore hin).1 with ⟨rfl, -⟩ | ⟨-, hmode⟩
      · rfl
      · cases hmode

theorem scan_inside (h : Marker word) : scan .inside word = some .inside := by
  apply JsonText.scan_inside
  intro c hc
  have hcopied := h.copied c hc
  constructor <;> rintro rfl <;> cases hcopied

theorem scan_escaping (h : Marker word) : scan .escaping word = none := by
  cases word with
  | nil => exact absurd rfl h.ne_nil
  | cons c word =>
      have hcopied := h.copied c (by simp)
      have hread : Mode.read .escaping c = none := by
        apply if_neg
        intro hmem
        fin_cases hmem <;> cases hcopied
      rw [scan_cons, hread]
      rfl

-- In a text of JSON the word stands inside of a string.
theorem scan_before (h : Marker word) {before after : List Char} {mode : Mode}
    (hscan : scan .outside (before ++ (word ++ after)) = some mode) :
    scan .outside before = some .inside ∧ scan .inside after = some mode := by
  rw [scan_append] at hscan
  obtain ⟨middle, hbefore, hscan⟩ := Option.bind_eq_some_iff.mp hscan
  rw [scan_append] at hscan
  cases middle with
  | outside =>
      rw [h.scan_outside] at hscan
      cases hscan
  | escaping =>
      rw [h.scan_escaping] at hscan
      cases hscan
  | inside =>
      rw [h.scan_inside] at hscan
      exact ⟨hbefore, hscan⟩

end Marker

end EvoClaw.JsonText
