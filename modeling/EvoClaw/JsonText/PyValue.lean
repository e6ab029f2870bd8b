import EvoClaw.JsonText.Colons
import EvoClaw.Keyed
import Mathlib.Data.List.Sort
import Mathlib.Data.String.Basic

-- json.dumps with sort_keys.
namespace EvoClaw.JsonText

mutual

-- Every dictionary of the value in the order of its keys.
def sortKeys : Json → Json
  | .arr items => .arr (sortItems items)
  | .obj fields => .obj ((sortFields fields).insertionSort fun a b => a.1 ≤ b.1)
  | .null => .null
  | .bool value => .bool value
  | .int value => .int value
  | .float bits => .float bits
  | .str text => .str text

def sortItems : List Json → List Json
  | [] => []
  | item :: items => sortKeys item :: sortItems items

def sortFields : List (String × Json) → List (String × Json)
  | [] => []
  | (key, value) :: fields => (key, sortKeys value) :: sortFields fields

end

variable {floatText : BitVec 64 → List Char} {floatOf : List Char → BitVec 64}

theorem sortFields_keys (fields : List (String × Json)) :
    (sortFields fields).map Prod.fst = fields.map Prod.fst := by
  induction fields with
  | nil => rfl
  | cons field fields ih =>
      obtain ⟨key, value⟩ := field
      simp [sortFields, ih]

theorem readableFields_iff {fields : List (String × Json)} :
    ReadableFields floatText floatOf fields ↔
      ∀ field ∈ fields, Readable floatText floatOf field.2 := by
  induction fields with
  | nil => simp [ReadableFields]
  | cons field fields ih =>
      obtain ⟨key, value⟩ := field
      simp [ReadableFields, ih]

theorem readable_sorted {fields : List (String × Json)} (hkeys : (fields.map Prod.fst).Nodup)
    (h : ReadableFields floatText floatOf fields) :
    Readable floatText floatOf (.obj (fields.insertionSort fun a b => a.1 ≤ b.1)) := by
  have hperm := List.perm_insertionSort (fun a b : String × Json => a.1 ≤ b.1) fields
  refine ⟨(hperm.map Prod.fst).nodup_iff.mpr hkeys, ?_⟩
  rw [readableFields_iff] at h ⊢
  exact fun field hmem => h field (hperm.mem_iff.mp hmem)

mutual

theorem readable_sortKeys : ∀ {v : Json}, Readable floatText floatOf v →
    Readable floatText floatOf (sortKeys v)
  | .null, _ => trivial
  | .bool _, _ => trivial
  | .int _, h => h
  | .float _, h => h
  | .str _, _ => trivial
  | .arr _, h => readable_sortItems h
  | .obj fields, h =>
      readable_sorted (by rw [sortFields_keys]; exact h.1) (readable_sortFields h.2)

theorem readable_sortItems : ∀ {items : List Json}, ReadableItems floatText floatOf items →
    ReadableItems floatText floatOf (sortItems items)
  | [], _ => trivial
  | _ :: _, h => ⟨readable_sortKeys h.1, readable_sortItems h.2⟩

theorem readable_sortFields :
    ∀ {fields : List (String × Json)}, ReadableFields floatText floatOf fields →
    ReadableFields floatText floatOf (sortFields fields)
  | [], _ => trivial
  | (_, _) :: _, h => ⟨readable_sortKeys h.1, readable_sortFields h.2⟩

end

-- Values with one text are equal up to the order of their keys.
theorem sortKeys_eq_of_dumps_eq {v w : Json} (hv : Readable floatText floatOf v)
    (hw : Readable floatText floatOf w)
    (h : dumps floatText (sortKeys v) = dumps floatText (sortKeys w)) :
    sortKeys v = sortKeys w := by
  have hv' := loads_dumps (readable_sortKeys hv)
  rw [h, loads_dumps (readable_sortKeys hw)] at hv'
  exact (Option.some.inj hv').symm

theorem dumps_obj_head (fields : List (String × Json)) :
    (dumps floatText (sortKeys (.obj fields))).head? = some '{' := by
  simp only [sortKeys]
  cases (sortFields fields).insertionSort fun a b => a.1 ≤ b.1 <;> rfl

end EvoClaw.JsonText

-- json.dumps of what Python builds itself: a dictionary may have int keys.
namespace EvoClaw.JsonText

inductive Key
  | int (value : Int)
  | str (text : String)
deriving DecidableEq

inductive PyValue where
  | null
  | bool (value : Bool)
  | int (value : Int)
  | float (bits : BitVec 64)
  | str (text : String)
  | list (items : List PyValue)
  | dict (fields : List (Key × PyValue))

namespace Key

-- An int key is written as its text.
def text : Key → String
  | .int value => String.ofList (intText value)
  | .str text => text

def isInt : Key → Bool
  | .int _ => true
  | .str _ => false

-- An int and a str are not compared: see sortDict.
def le : Key → Key → Prop
  | .int a, .int b => a ≤ b
  | .str a, .str b => a ≤ b
  | .int _, .str _ => True
  | .str _, .int _ => False

instance : DecidableRel Key.le
  | .int a, .int b => inferInstanceAs (Decidable (a ≤ b))
  | .str a, .str b => inferInstanceAs (Decidable (a ≤ b))
  | .int _, .str _ => isTrue trivial
  | .str _, .int _ => isFalse id

end Key

-- `a < b` raises a TypeError between an int and a str.
def Comparable (keys : List Key) : Prop := ∀ a ∈ keys, ∀ b ∈ keys, a.isInt = b.isInt

instance (keys : List Key) : Decidable (Comparable keys) :=
  inferInstanceAs (Decidable (∀ a ∈ keys, _))

-- sorted(dct.items()) with the keys written. The keys of a dictionary are different.
def sortDict (fields : List (Key × Json)) : Option (List (String × Json)) :=
  if Comparable (fields.map Prod.fst) then
    some ((fields.insertionSort fun a b => a.1.le b.1).map fun field => (field.1.text, field.2))
  else none

mutual

-- What json.dumps writes.
def encode : PyValue → Json
  | .null => .null
  | .bool value => .bool value
  | .int value => .int value
  | .float bits => .float bits
  | .str text => .str text
  | .list items => .arr (encodeItems items)
  | .dict fields => .obj (encodeFields fields)

def encodeItems : List PyValue → List Json
  | [] => []
  | item :: items => encode item :: encodeItems items

def encodeFields : List (Key × PyValue) → List (String × Json)
  | [] => []
  | (key, value) :: fields => (key.text, encode value) :: encodeFields fields

end

mutual

-- What json.dumps writes with sort_keys, none where it raises.
def encodeSorted : PyValue → Option Json
  | .null => some .null
  | .bool value => some (.bool value)
  | .int value => some (.int value)
  | .float bits => some (.float bits)
  | .str text => some (.str text)
  | .list items => (encodeSortedItems items).map .arr
  | .dict fields => ((encodeSortedFields fields).bind sortDict).map .obj

def encodeSortedItems : List PyValue → Option (List Json)
  | [] => some []
  | item :: items => (encodeSorted item).bind fun item =>
      (encodeSortedItems items).map fun items => item :: items

def encodeSortedFields : List (Key × PyValue) → Option (List (Key × Json))
  | [] => some []
  | (key, value) :: fields => (encodeSorted value).bind fun value =>
      (encodeSortedFields fields).map fun fields => (key, value) :: fields

end

mutual

-- What json.loads returns, as a Python value.
def ofJson : Json → PyValue
  | .null => .null
  | .bool value => .bool value
  | .int value => .int value
  | .float bits => .float bits
  | .str text => .str text
  | .arr items => .list (ofJsonItems items)
  | .obj fields => .dict (ofJsonFields fields)

def ofJsonItems : List Json → List PyValue
  | [] => []
  | item :: items => ofJson item :: ofJsonItems items

def ofJsonFields : List (String × Json) → List (Key × PyValue)
  | [] => []
  | (key, value) :: fields => (.str key, ofJson value) :: ofJsonFields fields

end

variable (floatText : BitVec 64 → List Char) (floatOf : List Char → BitVec 64)

def Key.Accepted : Key → Prop
  | .int value => (Nat.toDigits 10 value.natAbs).length ≤ maxStrDigits
  | .str _ => True

instance : DecidablePred Key.Accepted
  | .int value => inferInstanceAs (Decidable ((Nat.toDigits 10 value.natAbs).length ≤ maxStrDigits))
  | .str _ => isTrue trivial

mutual

-- What json.dumps accepts: the keys of a dictionary are different, and int.__repr__ has a
-- limit. The text of a float is read back as the float.
def Accepted : PyValue → Prop
  | .int value => (Nat.toDigits 10 value.natAbs).length ≤ maxStrDigits
  | .float bits => FloatReads floatText floatOf bits
  | .list items => AcceptedItems items
  | .dict fields => (fields.map Prod.fst).Nodup ∧ (∀ field ∈ fields, field.1.Accepted) ∧
      AcceptedFields fields
  | .null => True
  | .bool _ => True
  | .str _ => True

def AcceptedItems : List PyValue → Prop
  | [] => True
  | item :: items => Accepted item ∧ AcceptedItems items

def AcceptedFields : List (Key × PyValue) → Prop
  | [] => True
  | (_, value) :: fields => Accepted value ∧ AcceptedFields fields

end

-- The keys are of one kind, and stand in the order of their texts.
def OrderedKeys (keys : List Key) : Prop :=
  Comparable keys ∧ ∀ a ∈ keys, ∀ b ∈ keys, a.le b → a.text ≤ b.text

instance (keys : List Key) : Decidable (OrderedKeys keys) :=
  inferInstanceAs (Decidable (_ ∧ ∀ a ∈ keys, _))

mutual

-- Of every dictionary of the value.
def TextOrdered : PyValue → Prop
  | .list items => TextOrderedItems items
  | .dict fields => OrderedKeys (fields.map Prod.fst) ∧ TextOrderedFields fields
  | .null => True
  | .bool _ => True
  | .int _ => True
  | .float _ => True
  | .str _ => True

def TextOrderedItems : List PyValue → Prop
  | [] => True
  | item :: items => TextOrdered item ∧ TextOrderedItems items

def TextOrderedFields : List (Key × PyValue) → Prop
  | [] => True
  | (_, value) :: fields => TextOrdered value ∧ TextOrderedFields fields

end

section Dictionaries

instance : Std.Total Key.le where
  total
    | .int a, .int b => Int.le_total a b
    | .str a, .str b => le_total a b
    | .int _, .str _ => .inl trivial
    | .str _, .int _ => .inr trivial

instance : IsTrans Key Key.le where
  trans
    | .int _, .int _, .int _ => Int.le_trans
    | .str _, .str _, .str _ => le_trans
    | .int _, .int _, .str _ => fun _ _ => trivial
    | .int _, .str _, .str _ => fun _ _ => trivial
    | .int _, .str _, .int _ => fun _ h => absurd h id
    | .str _, .int _, _ => fun h _ => absurd h id
    | .str _, .str _, .int _ => fun _ h => absurd h id

theorem Key.le_antisymm {a b : Key} (hab : a.le b) (hba : b.le a) : a = b := by
  cases a with
  | int a =>
      cases b with
      | int b => rw [Int.le_antisymm hab hba]
      | str b => exact absurd hba id
  | str a =>
      cases b with
      | int b => exact absurd hab id
      | str b =>
          have hle : a ≤ b := hab
          rw [hle.antisymm hba]

theorem Key.text_inj {a b : Key} (hkind : a.isInt = b.isInt) (h : a.text = b.text) : a = b := by
  cases a with
  | int a =>
      cases b with
      | int b => rw [intText_inj (String.ofList_inj.mp h)]
      | str b => cases hkind
  | str a =>
      cases b with
      | int b => cases hkind
      | str b => rw [show a = b from h]

instance : Std.Total fun a b : Key × Json => a.1.le b.1 where
  total a b := Std.Total.total a.1 b.1

instance : IsTrans (Key × Json) fun a b => a.1.le b.1 where
  trans a b c := IsTrans.trans (r := Key.le) a.1 b.1 c.1

instance : Std.Total fun a b : String × Json => a.1 ≤ b.1 where
  total a b := le_total a.1 b.1

instance : IsTrans (String × Json) fun a b => a.1 ≤ b.1 where
  trans _ _ _ := le_trans

-- The field as it is written.
def written (field : Key × Json) : String × Json := (field.1.text, field.2)

variable {fields other : List (Key × Json)}

theorem written_keys : (fields.map written).map Prod.fst = (fields.map Prod.fst).map Key.text := by
  simp [written]

theorem nodup_written (hcomparable : Comparable (fields.map Prod.fst))
    (hnodup : (fields.map Prod.fst).Nodup) : ((fields.map written).map Prod.fst).Nodup := by
  rw [written_keys]
  exact hnodup.map_on fun a ha b hb htext => Key.text_inj (hcomparable a ha b hb) htext

theorem eq_of_key (hnodup : (fields.map Prod.fst).Nodup) {a b : Key × Json} (ha : a ∈ fields)
    (hb : b ∈ fields) (hkey : a.1 = b.1) : a = b :=
  List.inj_on_of_nodup_map hnodup ha hb hkey

-- The dictionary is written in the order of its texts exactly when the keys have that order.
theorem sorted_written_iff (hcomparable : Comparable (fields.map Prod.fst))
    (hnodup : (fields.map Prod.fst).Nodup) :
    (fields.insertionSort fun a b => a.1.le b.1).map written =
        (fields.map written).insertionSort (fun a b => a.1 ≤ b.1) ↔
      OrderedKeys (fields.map Prod.fst) := by
  have hanti : ∀ a ∈ fields, ∀ b ∈ fields, a.1.le b.1 → b.1.le a.1 → a = b :=
    fun a ha b hb hab hba => eq_of_key hnodup ha hb (Key.le_antisymm hab hba)
  have hinj : ∀ a ∈ fields, ∀ b ∈ fields, (written a).1 ≤ (written b).1 →
      (written b).1 ≤ (written a).1 → a = b := fun a ha b hb hab hba =>
    eq_of_key hnodup ha hb (Key.text_inj
      (hcomparable a.1 (List.mem_map_of_mem ha) b.1 (List.mem_map_of_mem hb))
      (le_antisymm hab hba))
  have hiff := SortedMap.map_insertionSort_eq_iff (r := fun a b : Key × Json => a.1.le b.1)
    (s := fun a b : String × Json => a.1 ≤ b.1) (f := written) hanti hinj
  rw [hiff, OrderedKeys, and_iff_right hcomparable]
  simp only [List.forall_mem_map, written]

theorem sortDict_eq_some {sorted : List (String × Json)} (h : sortDict fields = some sorted) :
    Comparable (fields.map Prod.fst) ∧
      sorted = (fields.insertionSort fun a b => a.1.le b.1).map written := by
  unfold sortDict at h
  split at h
  · rename_i hcomparable
    exact ⟨hcomparable, (Option.some.inj h).symm⟩
  · cases h

-- Two dictionaries with the same keys, one sorted before it is written and one after it.
theorem sortDict_eq_iff (hkeys : fields.map Prod.fst = other.map Prod.fst)
    (hnodup : (other.map Prod.fst).Nodup) :
    sortDict fields = some ((other.map written).insertionSort fun a b => a.1 ≤ b.1) ↔
      fields = other ∧ OrderedKeys (other.map Prod.fst) := by
  constructor
  · intro h
    obtain ⟨hcomparable, hsorted⟩ := sortDict_eq_some h
    have hfields : fields.map written = other.map written := by
      refine SortedMap.eq_of_perm ?_ (nodup_written hcomparable (hkeys ▸ hnodup)) ?_
      · rw [written_keys, written_keys, hkeys]
      · have hperm := (List.perm_insertionSort (fun a b : Key × Json => a.1.le b.1) fields).map written
        rw [← hsorted] at hperm
        exact hperm.symm.trans (List.perm_insertionSort _ _)
    have hvalues : fields.map Prod.snd = other.map Prod.snd := by
      have hsnd := congrArg (List.map Prod.snd) hfields
      rwa [List.map_map, List.map_map] at hsnd
    obtain rfl : fields = other := by
      rw [List.zip_of_prod hkeys hvalues, ← List.zip_of_prod rfl rfl]
    exact ⟨rfl, (sorted_written_iff hcomparable hnodup).mp hsorted.symm⟩
  · rintro ⟨rfl, hordered⟩
    rw [← (sorted_written_iff hordered.1 hnodup).mpr hordered]
    exact if_pos hordered.1

end Dictionaries

section Values

variable {floatText : BitVec 64 → List Char} {floatOf : List Char → BitVec 64}

theorem encodeSortedFields_keys {fields : List (Key × PyValue)} {encoded : List (Key × Json)}
    (h : encodeSortedFields fields = some encoded) :
    encoded.map Prod.fst = fields.map Prod.fst := by
  induction fields generalizing encoded with
  | nil =>
      cases h
      rfl
  | cons field fields ih =>
      obtain ⟨key, value⟩ := field
      simp only [encodeSortedFields, Option.bind_eq_some_iff, Option.map_eq_some_iff] at h
      obtain ⟨first, -, rest, hrest, rfl⟩ := h
      rw [List.map_cons, List.map_cons, ih hrest]

-- The fields as they are written, each value sorted.
def sortedFields (fields : List (Key × PyValue)) : List (Key × Json) :=
  fields.map fun field => (field.1, sortKeys (encode field.2))

theorem sortedFields_keys (fields : List (Key × PyValue)) :
    (sortedFields fields).map Prod.fst = fields.map Prod.fst := by
  simp [sortedFields]

theorem sortFields_encodeFields (fields : List (Key × PyValue)) :
    sortFields (encodeFields fields) = (sortedFields fields).map written := by
  induction fields with
  | nil => rfl
  | cons field fields ih =>
      obtain ⟨key, value⟩ := field
      rw [encodeFields, sortFields, ih]
      rfl

mutual

-- A value is written in the order that it has after it was read exactly when all of its
-- dictionaries are in the order of their texts.
theorem encodeSorted_eq_iff : ∀ {v : PyValue}, Accepted floatText floatOf v →
    (encodeSorted v = some (sortKeys (encode v)) ↔ TextOrdered v)
  | .null, _ => iff_of_true rfl trivial
  | .bool _, _ => iff_of_true rfl trivial
  | .int _, _ => iff_of_true rfl trivial
  | .float _, _ => iff_of_true rfl trivial
  | .str _, _ => iff_of_true rfl trivial
  | .list items, h => by
      rw [encodeSorted, encode, sortKeys, TextOrdered, ← encodeSortedItems_eq_iff h]
      simp
  | .dict fields, h => by
      rw [encodeSorted, encode, sortKeys, TextOrdered, ← encodeSortedFields_eq_iff h.2.2,
        sortFields_encodeFields, ← sortedFields_keys]
      have hnodup := h.1
      rw [← sortedFields_keys] at hnodup
      cases hencoded : encodeSortedFields fields with
      | none => simp
      | some encoded =>
          have hkeys := encodeSortedFields_keys hencoded
          rw [← sortedFields_keys] at hkeys
          have hiff := sortDict_eq_iff hkeys hnodup
          simp only [Option.bind_some, Option.map_eq_some_iff, Json.obj.injEq, exists_eq_right,
            Option.some.injEq, hiff]
          exact and_comm

theorem encodeSortedItems_eq_iff : ∀ {items : List PyValue},
    AcceptedItems floatText floatOf items →
    (encodeSortedItems items = some (sortItems (encodeItems items)) ↔ TextOrderedItems items)
  | [], _ => iff_of_true rfl trivial
  | item :: items, h => by
      rw [encodeSortedItems, encodeItems, sortItems, TextOrderedItems, ← encodeSorted_eq_iff h.1,
        ← encodeSortedItems_eq_iff h.2]
      simp only [Option.bind_eq_some_iff, Option.map_eq_some_iff, List.cons.injEq]
      constructor
      · rintro ⟨first, hfirst, rest, hrest, rfl, rfl⟩
        exact ⟨hfirst, hrest⟩
      · rintro ⟨hfirst, hrest⟩
        exact ⟨_, hfirst, _, hrest, rfl, rfl⟩

theorem encodeSortedFields_eq_iff : ∀ {fields : List (Key × PyValue)},
    AcceptedFields floatText floatOf fields →
    (encodeSortedFields fields = some (sortedFields fields) ↔ TextOrderedFields fields)
  | [], _ => iff_of_true rfl trivial
  | (key, value) :: fields, h => by
      rw [encodeSortedFields, sortedFields, List.map_cons, ← sortedFields, TextOrderedFields,
        ← encodeSorted_eq_iff h.1, ← encodeSortedFields_eq_iff h.2]
      simp only [Option.bind_eq_some_iff, Option.map_eq_some_iff, List.cons.injEq, Prod.mk.injEq,
        true_and]
      constructor
      · rintro ⟨first, hfirst, rest, hrest, rfl, rfl⟩
        exact ⟨hfirst, hrest⟩
      · rintro ⟨hfirst, hrest⟩
        exact ⟨_, hfirst, _, hrest, rfl, rfl⟩

end

theorem readable_of_perm {fields other : List (String × Json)} (hperm : fields.Perm other)
    (h : Readable floatText floatOf (.obj fields)) : Readable floatText floatOf (.obj other) :=
  ⟨(hperm.map Prod.fst).nodup_iff.mp h.1, readableFields_iff.mpr fun field hmem =>
    readableFields_iff.mp h.2 field (hperm.mem_iff.mpr hmem)⟩

theorem encodeFields_keys (fields : List (Key × PyValue)) :
    (encodeFields fields).map Prod.fst = (fields.map Prod.fst).map Key.text := by
  induction fields with
  | nil => rfl
  | cons field fields ih =>
      obtain ⟨key, value⟩ := field
      rw [encodeFields, List.map_cons, List.map_cons, List.map_cons, ih]

mutual

-- What a value that is sorted without an exception is written as, in either order.
theorem readable_encode : ∀ {v : PyValue} {sorted : Json}, Accepted floatText floatOf v →
    encodeSorted v = some sorted →
    Readable floatText floatOf (encode v) ∧ Readable floatText floatOf sorted
  | .null, _, _, rfl => ⟨trivial, trivial⟩
  | .bool _, _, _, rfl => ⟨trivial, trivial⟩
  | .int _, _, h, rfl => ⟨h, h⟩
  | .float _, _, h, rfl => ⟨h, h⟩
  | .str _, _, _, rfl => ⟨trivial, trivial⟩
  | .list items, sorted, h, hsorted => by
      obtain ⟨encoded, hencoded, rfl⟩ := Option.map_eq_some_iff.mp hsorted
      exact readable_encodeItems h hencoded
  | .dict fields, sorted, h, hsorted => by
      obtain ⟨dict, hdict, rfl⟩ := Option.map_eq_some_iff.mp hsorted
      obtain ⟨encoded, hencoded, hsort⟩ := Option.bind_eq_some_iff.mp hdict
      obtain ⟨hcomparable, rfl⟩ := sortDict_eq_some hsort
      obtain ⟨hplain, hwritten⟩ := readable_encodeFields h.2.2 hencoded
      have hkeys := encodeSortedFields_keys hencoded
      have hnodup := nodup_written hcomparable (hkeys ▸ h.1)
      refine ⟨⟨?_, hplain⟩, readable_of_perm ?_ ⟨hnodup, hwritten⟩⟩
      · rw [encodeFields_keys, ← hkeys, ← written_keys]
        exact hnodup
      · exact ((List.perm_insertionSort _ encoded).map written).symm

theorem readable_encodeItems : ∀ {items : List PyValue} {sorted : List Json},
    AcceptedItems floatText floatOf items → encodeSortedItems items = some sorted →
    ReadableItems floatText floatOf (encodeItems items) ∧ ReadableItems floatText floatOf sorted
  | [], _, _, rfl => ⟨trivial, trivial⟩
  | item :: items, sorted, h, hsorted => by
      obtain ⟨first, hfirst, hrest⟩ := Option.bind_eq_some_iff.mp hsorted
      obtain ⟨rest, hitems, rfl⟩ := Option.map_eq_some_iff.mp hrest
      obtain ⟨hplain, hsort⟩ := readable_encode h.1 hfirst
      obtain ⟨hplains, hsorts⟩ := readable_encodeItems h.2 hitems
      exact ⟨⟨hplain, hplains⟩, hsort, hsorts⟩

theorem readable_encodeFields : ∀ {fields : List (Key × PyValue)} {sorted : List (Key × Json)},
    AcceptedFields floatText floatOf fields → encodeSortedFields fields = some sorted →
    ReadableFields floatText floatOf (encodeFields fields) ∧
      ReadableFields floatText floatOf (sorted.map written)
  | [], _, _, rfl => ⟨trivial, trivial⟩
  | (key, value) :: fields, sorted, h, hsorted => by
      obtain ⟨first, hfirst, hrest⟩ := Option.bind_eq_some_iff.mp hsorted
      obtain ⟨rest, hfields, rfl⟩ := Option.map_eq_some_iff.mp hrest
      obtain ⟨hplain, hsort⟩ := readable_encode h.1 hfirst
      obtain ⟨hplains, hsorts⟩ := readable_encodeFields h.2 hfields
      exact ⟨⟨hplain, hplains⟩, hsort, hsorts⟩

end

-- The text that a value is signed with is that of what a reader makes of it.
theorem dumps_sorted_iff {v : PyValue} (h : Accepted floatText floatOf v) :
    (encodeSorted v).map (dumps floatText) = some (dumps floatText (sortKeys (encode v))) ↔
      TextOrdered v := by
  rw [← encodeSorted_eq_iff h, Option.map_eq_some_iff]
  constructor
  · rintro ⟨sorted, hsorted, htext⟩
    obtain ⟨hplain, hsort⟩ := readable_encode h hsorted
    have hread := loads_dumps hsort
    rw [htext, loads_dumps (readable_sortKeys hplain)] at hread
    rw [hsorted, hread]
  · intro hsorted
    exact ⟨_, hsorted, rfl⟩

-- A value that was read has text keys, and a name once.
theorem sortDict_strings (fields : List (String × Json)) :
    sortDict (fields.map fun field => (.str field.1, field.2)) =
      some (fields.insertionSort fun a b => a.1 ≤ b.1) := by
  have hcomparable : Comparable
      ((fields.map fun field => (Key.str field.1, field.2)).map Prod.fst) := by
    intro a ha b hb
    simp only [List.map_map, List.mem_map, Function.comp_apply] at ha hb
    obtain ⟨_, -, rfl⟩ := ha
    obtain ⟨_, -, rfl⟩ := hb
    rfl
  have hmap := List.map_insertionSort (fun a b : Key × Json => a.1.le b.1)
    (fun a b : String × Json => a.1 ≤ b.1) written
    (fields.map fun field => (Key.str field.1, field.2)) ?_
  · unfold sortDict
    rw [if_pos hcomparable]
    change some (List.map written _) = _
    rw [hmap, List.map_map]
    simp [written, Function.comp_def, Key.text]
  · intro a ha b hb
    obtain ⟨_, -, rfl⟩ := List.mem_map.mp ha
    obtain ⟨_, -, rfl⟩ := List.mem_map.mp hb
    exact Iff.rfl

mutual

theorem encodeSorted_ofJson : ∀ v : Json, encodeSorted (ofJson v) = some (sortKeys v)
  | .null => rfl
  | .bool _ => rfl
  | .int _ => rfl
  | .float _ => rfl
  | .str _ => rfl
  | .arr items => by
      rw [ofJson, encodeSorted, encodeSortedItems_ofJson items]
      rfl
  | .obj fields => by
      rw [ofJson, encodeSorted, encodeSortedFields_ofJson fields, Option.bind_some,
        sortDict_strings]
      rfl

theorem encodeSortedItems_ofJson : ∀ items : List Json,
    encodeSortedItems (ofJsonItems items) = some (sortItems items)
  | [] => rfl
  | item :: items => by
      rw [ofJsonItems, encodeSortedItems, encodeSorted_ofJson item, encodeSortedItems_ofJson items]
      rfl

theorem encodeSortedFields_ofJson : ∀ fields : List (String × Json),
    encodeSortedFields (ofJsonFields fields) =
      some ((sortFields fields).map fun field => (.str field.1, field.2))
  | [] => rfl
  | (key, value) :: fields => by
      rw [ofJsonFields, encodeSortedFields, encodeSorted_ofJson value,
        encodeSortedFields_ofJson fields]
      rfl

end

end Values

end EvoClaw.JsonText
