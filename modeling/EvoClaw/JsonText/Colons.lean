import EvoClaw.JsonText.Quotes

-- A colon outside of the strings of a text that json.dumps has written is followed by a blank,
-- so that no such text ends with a field of another format.
namespace EvoClaw.JsonText

section Spots

-- Where a reader is that also watches what follows a colon.
inductive Spot where
  | outside
  | colon
  | inside
  | escaping
deriving DecidableEq

def Spot.read : Spot → Char → Option Spot
  | outside, c =>
      if c = '"' then some inside else if c = ':' then some colon
      else if c = '\\' then none else some outside
  | colon, c => if c = ' ' then some outside else none
  | inside, c =>
      if c = '"' then some outside else if c = '\\' then some escaping else some inside
  | escaping, c =>
      if c ∈ ['"', '\\', '/', 'b', 'f', 'n', 'r', 't', 'u'] then some inside else none

def spot (from_ : Spot) (text : List Char) : Option Spot :=
  text.foldlM Spot.read from_

variable {start : Spot} {c : Char} {text rest : List Char}

@[simp] theorem spot_cons : spot start (c :: text) = (start.read c).bind (spot · text) := rfl

theorem spot_append : spot start (text ++ rest) = (spot start text).bind (spot · rest) := by
  unfold spot
  exact List.foldlM_append ..

theorem spot_outside (h : ∀ c ∈ text, Plain c ∧ c ≠ ':') :
    spot .outside text = some .outside := by
  induction text with
  | nil => rfl
  | cons c text ih =>
      obtain ⟨⟨hquote, hslash, -⟩, hcolon⟩ := h c List.mem_cons_self
      have hread : Spot.read .outside c = some .outside := by
        simp [Spot.read, hquote, hcolon, hslash]
      rw [spot_cons, hread]
      exact ih fun c hc => h c (List.mem_cons_of_mem _ hc)

theorem spot_inside (h : ∀ c ∈ text, c ≠ '"' ∧ c ≠ '\\') :
    spot .inside text = some .inside := by
  induction text with
  | nil => rfl
  | cons c text ih =>
      obtain ⟨hquote, hslash⟩ := h c List.mem_cons_self
      have hread : Spot.read .inside c = some .inside := by simp [Spot.read, hquote, hslash]
      rw [spot_cons, hread]
      exact ih fun c hc => h c (List.mem_cons_of_mem _ hc)

-- Two readers of one text, of which one began outside and the other one inside, disagree to
-- its end.
theorem spot_both {first second : Spot} (hfrom : start = .outside ∨ start = .colon)
    (hout : spot start text = some first) (hin : spot .inside text = some second) :
    ((first = .outside ∨ first = .colon) ∧ second = .inside) ∨
      (first = .inside ∧ (second = .outside ∨ second = .colon)) := by
  suffices hgen : ∀ one other, ((one = .outside ∨ one = .colon) ∧ other = .inside) ∨
      (one = .inside ∧ (other = .outside ∨ other = .colon)) → spot one text = some first →
      spot other text = some second →
      ((first = .outside ∨ first = .colon) ∧ second = .inside) ∨
        (first = .inside ∧ (second = .outside ∨ second = .colon)) from
    hgen start .inside (.inl ⟨hfrom, rfl⟩) hout hin
  clear hout hin hfrom
  induction text with
  | nil =>
      intro one other hspots hfirst hsecond
      cases hfirst
      cases hsecond
      exact hspots
  | cons c text ih =>
      intro one other hspots hfirst hsecond
      rw [spot_cons] at hfirst hsecond
      obtain ⟨one', hone, hfirst⟩ := Option.bind_eq_some_iff.mp hfirst
      obtain ⟨other', hother, hsecond⟩ := Option.bind_eq_some_iff.mp hsecond
      refine ih one' other' ?_ hfirst hsecond
      rcases hspots with ⟨rfl | rfl, rfl⟩ | ⟨rfl, rfl | rfl⟩ <;>
        simp only [Spot.read] at hone hother <;> grind

end Spots

section Dumps

variable (floatText : BitVec 64 → List Char) {floatOf : List Char → BitVec 64}

theorem spot_unicodeEscape (n : Nat) : spot .inside (unicodeEscape n) = some .inside := by
  have hdigits : spot .inside
      [hexDigit (n / 0x1000), hexDigit (n / 0x100), hexDigit (n / 0x10), hexDigit n] =
      some .inside := by
    apply spot_inside
    intro c hc
    simp only [List.mem_cons, List.not_mem_nil, or_false] at hc
    rcases hc with rfl | rfl | rfl | rfl <;> exact hexDigit_plain _
  exact hdigits

theorem spot_escape (c : Char) : spot .inside (escape c) = some .inside := by
  rcases escape_forms c with ⟨hc, hquote, hslash, -⟩ | ⟨mark, hmark, hc, -⟩ | ⟨hc, -⟩ | ⟨hc, -⟩
  · rw [hc]
    exact spot_inside (by simp [hquote, hslash])
  · rw [hc]
    fin_cases hmark <;> rfl
  · rw [hc]
    exact spot_unicodeEscape _
  · rw [hc, spot_append, spot_unicodeEscape, Option.bind_some, spot_unicodeEscape]

theorem spot_quote (text : String) : spot .outside (quote text) = some .outside := by
  have hescapes (chars : List Char) : spot .inside (chars.flatMap escape) = some .inside := by
    induction chars with
    | nil => rfl
    | cons c chars ih =>
        rw [List.flatMap_cons, spot_append, spot_escape]
        exact ih
  have hopen : spot .outside (quote text) =
      spot .inside (text.toList.flatMap escape ++ ['"']) := rfl
  rw [hopen, spot_append, hescapes]
  rfl

theorem intText_plain (n : Int) : ∀ c ∈ intText n, Plain c ∧ c ≠ ':' := by
  have hdigits : ∀ c ∈ Nat.toDigits 10 n.natAbs, Plain c ∧ c ≠ ':' := by
    intro c hc
    have hdigit := Nat.isDigit_of_mem_toDigits (by omega) (by omega) hc
    refine ⟨isDigit_plain hdigit, ?_⟩
    rintro rfl
    cases hdigit
  unfold intText
  split_ifs
  · intro c hc
    rcases List.mem_cons.mp hc with rfl | hc
    · exact ⟨⟨by decide, by decide, by decide⟩, by decide⟩
    · exact hdigits c hc
  · exact hdigits

-- The text of a float has no colon.
variable {floatText} in
theorem spot_float (hfloat : ∀ bits, ':' ∉ floatText bits) {bits : BitVec 64}
    (h : FloatReads floatText floatOf bits) : spot .outside (floatText bits) = some .outside :=
  spot_outside fun c hc => ⟨h.plain c hc, fun heq => hfloat bits (heq ▸ hc)⟩

mutual

theorem spot_dumps (hfloat : ∀ bits, ':' ∉ floatText bits) :
    ∀ {v : Json}, Readable floatText floatOf v →
    spot .outside (dumps floatText v) = some .outside
  | .null, _ => rfl
  | .bool true, _ => rfl
  | .bool false, _ => rfl
  | .int n, _ => spot_outside (intText_plain n)
  | .float _, h => spot_float hfloat h
  | .str text, _ => spot_quote text
  | .arr [], _ => rfl
  | .arr (item :: items), h => by
      obtain ⟨hitem, hitems⟩ := by simpa [Readable, ReadableItems] using h
      have hopen : spot .outside (dumps floatText (.arr (item :: items))) =
          spot .outside (dumps floatText item ++ dumpItems floatText items) := rfl
      rw [hopen, spot_append, spot_dumps hfloat hitem]
      exact spot_dumpItems hfloat hitems
  | .obj [], _ => rfl
  | .obj ((key, item) :: fields), h => by
      simp only [Readable, ReadableFields] at h
      have hopen : spot .outside (dumps floatText (.obj ((key, item) :: fields))) =
          spot .outside
            (quote key ++ ':' :: ' ' :: (dumps floatText item ++ dumpFields floatText fields)) :=
        rfl
      have hcolon (text : List Char) :
          spot .outside (':' :: ' ' :: text) = spot .outside text := rfl
      rw [hopen, spot_append, spot_quote, Option.bind_some, hcolon, spot_append,
        spot_dumps hfloat h.2.1]
      exact spot_dumpFields hfloat h.2.2

theorem spot_dumpItems (hfloat : ∀ bits, ':' ∉ floatText bits) :
    ∀ {items : List Json}, ReadableItems floatText floatOf items →
    spot .outside (dumpItems floatText items) = some .outside
  | [], _ => rfl
  | item :: items, h => by
      obtain ⟨hitem, hitems⟩ := h
      have hopen : spot .outside (dumpItems floatText (item :: items)) =
          spot .outside (dumps floatText item ++ dumpItems floatText items) := rfl
      rw [hopen, spot_append, spot_dumps hfloat hitem]
      exact spot_dumpItems hfloat hitems

theorem spot_dumpFields (hfloat : ∀ bits, ':' ∉ floatText bits) :
    ∀ {fields : List (String × Json)}, ReadableFields floatText floatOf fields →
    spot .outside (dumpFields floatText fields) = some .outside
  | [], _ => rfl
  | (key, item) :: fields, h => by
      obtain ⟨hitem, hfields⟩ := h
      have hopen : spot .outside (dumpFields floatText ((key, item) :: fields)) =
          spot .outside
            (quote key ++ ':' :: ' ' :: (dumps floatText item ++ dumpFields floatText fields)) :=
        rfl
      have hcolon (text : List Char) :
          spot .outside (':' :: ' ' :: text) = spot .outside text := rfl
      rw [hopen, spot_append, spot_quote, Option.bind_some, hcolon, spot_append,
        spot_dumps hfloat hitem]
      exact spot_dumpFields hfloat hfields

end

end Dumps

section Fields

variable {a b field field' text text' : List Char}

-- No text that a reader has gone through ends with a tight colon, an unquoted field, a colon
-- and another such text.
theorem spot_no_field {before : List Char} (htext : spot .outside text = some .outside)
    (htext' : spot .outside text' = some .outside)
    (hfield : ∀ c ∈ field, Plain c ∧ c ≠ ':') (hhead : ∀ c, field.head? = some c → c ≠ ' ')
    (hne : field ≠ []) : text ≠ before ++ ':' :: (field ++ ':' :: text') := by
  rintro rfl
  rw [spot_append] at htext
  obtain ⟨middle, hmiddle, hrest⟩ := Option.bind_eq_some_iff.mp htext
  cases middle with
  | outside =>
      obtain ⟨c, field, rfl⟩ := List.exists_cons_of_ne_nil hne
      have hblank := hhead c rfl
      rw [spot_cons] at hrest
      simp [Spot.read, hblank] at hrest
  | colon => simp [Spot.read] at hrest
  | inside =>
      have hinside : spot .inside field = some .inside :=
        spot_inside fun c hc => ⟨(hfield c hc).1.1, (hfield c hc).1.2.1⟩
      have hend : spot .inside text' = some .outside := by
        rw [spot_cons] at hrest
        change spot .inside (field ++ ':' :: text') = _ at hrest
        rw [spot_append, hinside] at hrest
        exact hrest
      rcases spot_both (.inl rfl) htext' hend with ⟨-, h⟩ | ⟨h, -⟩ <;> cases h
  | escaping => simp [Spot.read] at hrest

-- Up to a separator that neither of two words has.
theorem append_separator_inj {c : Char} (ha : c ∉ a) (hb : c ∉ b)
    (h : a ++ c :: text = b ++ c :: text') : a = b ∧ text = text' := by
  induction a generalizing b with
  | nil =>
      cases b with
      | nil => exact ⟨rfl, (List.cons.inj h).2⟩
      | cons d b => exact absurd ((List.cons.inj h).1 ▸ List.mem_cons_self) hb
  | cons d a ih =>
      cases b with
      | nil => exact absurd ((List.cons.inj h).1 ▸ List.mem_cons_self) ha
      | cons e b =>
          obtain ⟨rfl, hrest⟩ := List.cons.inj h
          obtain ⟨rfl, htext⟩ := ih (fun hm => ha (List.mem_cons_of_mem _ hm))
            (fun hm => hb (List.mem_cons_of_mem _ hm)) hrest
          exact ⟨rfl, htext⟩

end Fields

end EvoClaw.JsonText
