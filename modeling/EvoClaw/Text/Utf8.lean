import EvoClaw.Text.Search
import Mathlib.Data.List.Basic
import Mathlib.Data.List.Perm.Basic

-- UTF-8, and what is read of bytes that are not UTF-8.
namespace EvoClaw.Text.Utf8

def encode (text : List Char) : List UInt8 :=
  text.flatMap String.utf8EncodeChar

def isContinuation (byte : UInt8) : Bool :=
  0x80 ≤ byte ∧ byte ≤ 0xbf

-- What may follow the first byte of a character of three or four bytes.
def isSecond (lead byte : UInt8) : Bool :=
  if lead = 0xe0 then 0xa0 ≤ byte ∧ byte ≤ 0xbf
  else if lead = 0xed then 0x80 ≤ byte ∧ byte ≤ 0x9f
  else if lead = 0xf0 then 0x90 ≤ byte ∧ byte ≤ 0xbf
  else if lead = 0xf4 then 0x80 ≤ byte ∧ byte ≤ 0x8f
  else (0xe1 ≤ lead ∧ lead ≤ 0xf3) ∧ isContinuation byte

-- Of bytes that begin no character, how many are the beginning of one that is cut off.
def truncated : List UInt8 → Nat
  | lead :: second :: rest =>
      if isSecond lead second then
        match rest with
        | third :: _ => if 0xf0 ≤ lead ∧ isContinuation third then 3 else 2
        | [] => 2
      else 1
  | _ => 1

-- An entry for each character, and none for each stretch that is no character. The first `skip`
-- bytes belong to the entry before.
def scanFrom : Nat → List UInt8 → List (Option Char)
  | _, [] => []
  | skip + 1, _ :: rest => scanFrom skip rest
  | 0, byte :: rest =>
      match ByteArray.utf8DecodeChar? (byte :: rest).toByteArray 0 with
      | some c => some c :: scanFrom (c.utf8Size - 1) rest
      | none => none :: scanFrom (truncated (byte :: rest) - 1) rest

def scan (bytes : List UInt8) : List (Option Char) :=
  scanFrom 0 bytes

-- bytes.decode("utf-8")
def decode (bytes : List UInt8) : Option (List Char) :=
  (scan bytes).mapM id

def replacement : Char := Char.ofNat 0xfffd

-- bytes.decode("utf-8", errors="replace")
def decodeReplace (bytes : List UInt8) : List Char :=
  (scan bytes).map (·.getD replacement)

example : decodeReplace [0x41, 0xf0, 0x9f, 0x98, 0x42, 0xed, 0xa0, 0x80] =
    ['A', replacement, 'B', replacement, replacement, replacement] := by decide +kernel

section Scan

variable {c : Char} {byte : UInt8} {bytes rest bad : List UInt8} {text word : List Char}

@[simp] theorem encode_nil : encode [] = [] := rfl

@[simp] theorem encode_cons : encode (c :: text) = String.utf8EncodeChar c ++ encode text := rfl

@[simp] theorem encode_append : encode (text ++ word) = encode text ++ encode word :=
  List.flatMap_append

theorem length_encode_replicate (n : Nat) (c : Char) :
    (encode (List.replicate n c)).length = n * c.utf8Size := by
  induction n with
  | zero => rw [Nat.zero_mul]; rfl
  | succ n ih =>
      rw [List.replicate_succ, encode_cons, List.length_append, ih, String.length_utf8EncodeChar,
        Nat.succ_mul, Nat.add_comm]

theorem scanFrom_eq_drop (skip : Nat) (bytes : List UInt8) :
    scanFrom skip bytes = scan (bytes.drop skip) := by
  induction bytes generalizing skip with
  | nil => simp [scan, scanFrom]
  | cons byte rest ih =>
      cases skip with
      | zero => rfl
      | succ skip => exact ih skip

theorem utf8EncodeChar_ne_nil (c : Char) : String.utf8EncodeChar c ≠ [] := by
  rw [← List.length_pos_iff, String.length_utf8EncodeChar]
  exact c.utf8Size_pos

theorem truncated_pos (bytes : List UInt8) : 0 < truncated bytes := by
  unfold truncated
  repeat' split
  all_goals omega

theorem scan_cons (c : Char) (rest : List UInt8) :
    scan (String.utf8EncodeChar c ++ rest) = some c :: scan rest := by
  obtain ⟨byte, more, hbytes⟩ := List.exists_cons_of_ne_nil (utf8EncodeChar_ne_nil c)
  have hdecode : ByteArray.utf8DecodeChar? (byte :: (more ++ rest)).toByteArray 0 = some c := by
    rw [← List.cons_append, ← hbytes, List.toByteArray_append]
    exact ByteArray.utf8DecodeChar?_utf8EncodeChar_append
  have hlength : more.length = c.utf8Size - 1 := by
    rw [← String.length_utf8EncodeChar, hbytes]
    rfl
  rw [hbytes, List.cons_append, scan, scanFrom, hdecode]
  dsimp only
  rw [scanFrom_eq_drop, ← hlength, List.drop_left]

-- What a scan takes off the bytes.
theorem scan_cases (hbytes : bytes ≠ []) :
    (∃ c rest, bytes = String.utf8EncodeChar c ++ rest ∧ scan bytes = some c :: scan rest) ∨
      scan bytes = none :: scan (bytes.drop (truncated bytes)) := by
  cases hdecode : ByteArray.utf8DecodeChar? bytes.toByteArray 0 with
  | some c =>
      have hsplit := ByteArray.eq_of_utf8DecodeChar?_eq_some hdecode
      have hlist : bytes = String.utf8EncodeChar c ++
          (bytes.toByteArray.extract c.utf8Size bytes.toByteArray.size).data.toList := by
        have := congrArg (·.data.toList) hsplit
        simpa using this
      refine Or.inl ⟨c, _, hlist, ?_⟩
      rw [← scan_cons, ← hlist]
  | none =>
      obtain ⟨byte, rest, rfl⟩ := List.exists_cons_of_ne_nil hbytes
      refine Or.inr ?_
      rw [scan, scanFrom, hdecode]
      dsimp only
      obtain ⟨skip, hskip⟩ := Nat.exists_eq_add_of_lt (truncated_pos (byte :: rest))
      rw [scanFrom_eq_drop, hskip]
      simp

@[elab_as_elim]
theorem scan_induct {motive : List UInt8 → Prop} (bytes : List UInt8) (nil : motive [])
    (char : ∀ c rest, motive rest → motive (String.utf8EncodeChar c ++ rest))
    (bad : ∀ bytes, scan bytes = none :: scan (bytes.drop (truncated bytes)) →
      motive (bytes.drop (truncated bytes)) → motive bytes) : motive bytes := by
  induction hlength : bytes.length using Nat.strong_induction_on generalizing bytes with
  | _ length ih =>
      subst hlength
      rcases eq_or_ne bytes [] with rfl | hbytes
      · exact nil
      rcases scan_cases hbytes with ⟨c, rest, rfl, -⟩ | hscan
      · refine char c rest (ih rest.length ?_ rest rfl)
        have := c.utf8Size_pos
        rw [List.length_append, String.length_utf8EncodeChar]
        omega
      · refine bad bytes hscan (ih _ ?_ _ rfl)
        have := List.length_pos_iff.mpr hbytes
        have := truncated_pos bytes
        rw [List.length_drop]
        omega

theorem scan_encode (text : List Char) : scan (encode text) = text.map some := by
  induction text with
  | nil => rfl
  | cons c text ih => rw [encode_cons, scan_cons, ih, List.map_cons]

@[simp] theorem decodeReplace_encode (text : List Char) : decodeReplace (encode text) = text := by
  unfold decodeReplace
  rw [scan_encode, List.map_map]
  exact List.map_id text

theorem encode_of_scan (h : scan bytes = text.map some) : encode text = bytes := by
  induction bytes using scan_induct generalizing text with
  | nil =>
      rw [List.map_eq_nil_iff.mp h.symm]
      rfl
  | char c rest ih =>
      rw [scan_cons] at h
      obtain ⟨d, text, rfl, hd, hrest⟩ := List.map_eq_cons_iff.mp h.symm
      rw [encode_cons, ih hrest.symm, Option.some.inj hd]
  | bad bytes hscan ih =>
      rw [hscan] at h
      obtain ⟨d, text, -, hd, -⟩ := List.map_eq_cons_iff.mp h.symm
      cases hd

theorem mapM_id_eq_some {entries : List (Option Char)} :
    entries.mapM id = some text ↔ entries = text.map some := by
  induction entries generalizing text with
  | nil => cases text <;> simp
  | cons entry entries ih =>
      rw [List.mapM_cons]
      cases entry with
      | none => cases text <;> simp
      | some c =>
          cases text with
          | nil => cases entries.mapM id <;> simp
          | cons d text =>
              rw [List.map_cons, List.cons.injEq, ← ih]
              cases entries.mapM id <;> simp

theorem decode_eq_some : decode bytes = some text ↔ encode text = bytes := by
  unfold decode
  rw [mapM_id_eq_some]
  constructor
  · exact encode_of_scan
  · rintro rfl
    exact scan_encode text

theorem encode_injective : Function.Injective encode := by
  intro text word h
  rw [← decodeReplace_encode text, h, decodeReplace_encode]

end Scan

section Boundaries

variable {c : Char} {byte : UInt8} {before after bytes : List UInt8} {text word : List Char}

theorem prefix_of_encode_prefix (h : encode word <+: encode text) : word <+: text := by
  induction word generalizing text with
  | nil => exact List.nil_prefix
  | cons c word ih =>
      obtain ⟨after, hafter⟩ := h
      cases text with
      | nil =>
          have hnil := (List.append_eq_nil_iff.mp hafter).1
          exact absurd (List.append_eq_nil_iff.mp hnil).1 (utf8EncodeChar_ne_nil c)
      | cons d text =>
          rw [encode_cons, encode_cons, List.append_assoc] at hafter
          have hscan := congrArg scan hafter
          rw [scan_cons, scan_cons] at hscan
          obtain rfl : c = d := Option.some.inj (List.cons.inj hscan).1
          have hrest : encode word <+: encode text := ⟨after, List.append_cancel_left hafter⟩
          exact List.prefix_cons_inj c |>.mpr (ih hrest)

theorem isUTF8FirstByte_head (h : (String.utf8EncodeChar c).head? = some byte) :
    byte.IsUTF8FirstByte := by
  rw [List.head?_eq_getElem?, List.getElem?_eq_some_iff] at h
  obtain ⟨hlt, rfl⟩ := h
  exact UInt8.isUTF8FirstByte_getElem_utf8EncodeChar.mpr rfl

-- No character begins inside another one.
theorem not_isUTF8FirstByte (hbefore : before ≠ [])
    (h : String.utf8EncodeChar c = before ++ byte :: after) : ¬ byte.IsUTF8FirstByte := by
  have hlt : before.length < (String.utf8EncodeChar c).length := by
    rw [h, List.length_append, List.length_cons]
    omega
  have hbyte : (String.utf8EncodeChar c)[before.length] = byte := by
    simp [h]
  intro hfirst
  rw [← hbyte, UInt8.isUTF8FirstByte_getElem_utf8EncodeChar, List.length_eq_zero_iff] at hfirst
  exact hbefore hfirst

-- A text that occurs in another one's bytes occurs in the text.
theorem exists_split (hword : word ≠ []) (h : encode text = before ++ (encode word ++ after)) :
    ∃ front back, text = front ++ (word ++ back) ∧ encode front = before ∧ encode back = after := by
  induction text generalizing before with
  | nil =>
      obtain ⟨c, rest, rfl⟩ := List.exists_cons_of_ne_nil hword
      have hlength := congrArg List.length h
      simp [String.length_utf8EncodeChar] at hlength
      have := c.utf8Size_pos
      omega
  | cons c text ih =>
      rcases eq_or_ne before [] with rfl | hbefore
      · obtain ⟨back, hback⟩ := prefix_of_encode_prefix ⟨after, h.symm⟩
        refine ⟨[], back, hback.symm, rfl, ?_⟩
        rw [← hback, encode_append] at h
        exact List.append_cancel_left h
      · rcases List.append_eq_append_iff.mp h with ⟨more, rfl, hrest⟩ | ⟨more, hc, hrest⟩
        · obtain ⟨front, back, rfl, rfl, rfl⟩ := ih hrest
          exact ⟨c :: front, back, rfl, rfl, rfl⟩
        · cases more with
          | nil =>
              rw [List.append_nil] at hc
              rw [List.nil_append] at hrest
              obtain ⟨front, back, rfl, hfront, hback⟩ := @ih [] hrest.symm
              exact ⟨c :: front, back, rfl, by rw [encode_cons, hfront, List.append_nil, hc], hback⟩
          | cons byte more =>
              obtain ⟨d, rest, rfl⟩ := List.exists_cons_of_ne_nil hword
              refine absurd (isUTF8FirstByte_head (c := d) ?_) (not_isUTF8FirstByte hbefore hc)
              obtain ⟨first, tail, hd⟩ := List.exists_cons_of_ne_nil (utf8EncodeChar_ne_nil d)
              rw [encode_cons, hd] at hrest
              rw [hd, ← (List.cons.inj hrest).1]
              rfl

-- Where a word occurs in the bytes is where it occurs in the text.
theorem occursAt_of_encode {i : Nat} (hword : word ≠ [])
    (h : OccursAt (encode word) (encode text) i) :
    ∃ k, OccursAt word text k ∧ i = (encode (text.take k)).length := by
  obtain ⟨before, after, hsplit, rfl⟩ := h
  obtain ⟨front, back, rfl, rfl, rfl⟩ := exists_split hword hsplit
  exact ⟨front.length, ⟨front, back, rfl, rfl⟩, by rw [List.take_left]⟩

theorem occursAt_encode {k : Nat} (h : OccursAt word text k) :
    OccursAt (encode word) (encode text) (encode (text.take k)).length := by
  obtain ⟨front, back, rfl, rfl⟩ := h
  exact ⟨encode front, encode back, by simp, by rw [List.take_left]⟩

theorem length_encode_take_lt {k m : Nat} (hlt : k < m) (hle : m ≤ text.length) :
    (encode (text.take k)).length < (encode (text.take m)).length := by
  obtain ⟨more, hmore⟩ := List.take_prefix_take_left (l := text) hlt.le
  have hne : more ≠ [] := by
    rintro rfl
    have hlength := congrArg List.length hmore
    simp only [List.append_nil, List.length_take] at hlength
    omega
  obtain ⟨c, rest, rfl⟩ := List.exists_cons_of_ne_nil hne
  have hpos := c.utf8Size_pos
  rw [← hmore, encode_append, encode_cons, List.length_append, List.length_append,
    String.length_utf8EncodeChar]
  omega

end Boundaries

section Ascii

variable {c d : Char} {byte : UInt8} {bytes : List UInt8} {text : List Char}

theorem le_or (byte mask : UInt8) : mask ≤ byte ||| mask := by
  rw [UInt8.le_iff_toNat_le, UInt8.toNat_or]
  exact Nat.right_le_or

-- The bytes of a character beyond ASCII are all beyond ASCII.
theorem high_of_mem_utf8EncodeChar (hc : c.utf8Size ≠ 1) (h : byte ∈ String.utf8EncodeChar c) :
    0x80 ≤ byte := by
  have hmask : ∀ low mask : UInt8, 0x80 ≤ mask → 0x80 ≤ low ||| mask := fun low mask hle =>
    UInt8.le_trans hle (le_or low mask)
  rcases c.utf8Size_eq with hsize | hsize | hsize | hsize
  · exact absurd hsize hc
  · rw [String.utf8EncodeChar_eq_cons_cons hsize] at h
    simp only [List.mem_cons, List.not_mem_nil, or_false] at h
    rcases h with rfl | rfl <;> exact hmask _ _ (by decide)
  · rw [String.utf8EncodeChar_eq_cons_cons_cons hsize] at h
    simp only [List.mem_cons, List.not_mem_nil, or_false] at h
    rcases h with rfl | rfl | rfl <;> exact hmask _ _ (by decide)
  · rw [String.utf8EncodeChar_eq_cons_cons_cons_cons hsize] at h
    simp only [List.mem_cons, List.not_mem_nil, or_false] at h
    rcases h with rfl | rfl | rfl | rfl <;> exact hmask _ _ (by decide)

theorem mem_utf8EncodeChar_ascii (hd : d.val ≤ 127) :
    d.val.toUInt8 ∈ String.utf8EncodeChar c ↔ c = d := by
  have hsize : d.utf8Size = 1 := Char.utf8Size_eq_one_iff.mpr hd
  have hle : d.val.toNat ≤ 127 := UInt32.le_iff_toNat_le.mp hd
  constructor
  · intro h
    have hc : c.utf8Size = 1 := by
      by_contra hc
      have hhigh : 128 ≤ d.val.toUInt8.toNat :=
        UInt8.le_iff_toNat_le.mp (high_of_mem_utf8EncodeChar hc h)
      rw [UInt32.toNat_toUInt8] at hhigh
      omega
    rw [String.utf8EncodeChar_eq_singleton hc, List.mem_singleton] at h
    have hcle : c.val.toNat ≤ 127 := UInt32.le_iff_toNat_le.mp (Char.utf8Size_eq_one_iff.mp hc)
    have hval : d.val.toNat % 256 = c.val.toNat % 256 := by
      rw [← UInt32.toNat_toUInt8, h, UInt32.toNat_toUInt8]
    apply Char.ext
    apply UInt32.toNat_inj.mp
    omega
  · rintro rfl
    rw [String.utf8EncodeChar_eq_singleton hsize]
    exact List.mem_singleton.mpr rfl

theorem mem_encode_ascii (hd : d.val ≤ 127) : d.val.toUInt8 ∈ encode text ↔ d ∈ text := by
  unfold encode
  simp only [List.mem_flatMap, mem_utf8EncodeChar_ascii hd, exists_eq_right]

end Ascii

section Replacing

variable {c : Char} {byte : UInt8} {bytes : List UInt8}

-- Bytes below those that begin a character of four bytes.
def lowCount (bytes : List UInt8) : Nat :=
  bytes.countP (· < 0xf0)

theorem lowCount_append (bytes more : List UInt8) :
    lowCount (bytes ++ more) = lowCount bytes + lowCount more :=
  List.countP_append

theorem lowCount_truncated (bytes : List UInt8) :
    lowCount (bytes.take (truncated bytes)) ≤ 2 := by
  unfold truncated
  split
  · next lead second rest =>
    split
    · split
      · next third more =>
        split
        · next hlead =>
          have hhigh : ¬ lead < 0xf0 := UInt8.not_lt.mpr hlead.1
          have htail : lowCount [second, third] ≤ 2 := List.countP_le_length
          simpa [lowCount, hhigh] using htail
        · exact (List.countP_le_length).trans (List.length_take_le 2 _)
      · exact (List.countP_le_length).trans (List.length_take_le 2 _)
    · exact (List.countP_le_length).trans ((List.length_take_le 1 _).trans (by omega))
  · exact (List.countP_le_length).trans ((List.length_take_le 1 _).trans (by omega))

-- Every stretch that is replaced makes more bytes of this kind.
theorem lowCount_decodeReplace (bytes : List UInt8) :
    lowCount bytes + (scan bytes).count none ≤ lowCount (encode (decodeReplace bytes)) := by
  unfold decodeReplace
  induction bytes using scan_induct with
  | nil => exact Nat.le_refl 0
  | char c rest ih =>
      rw [scan_cons, List.map_cons, encode_cons, lowCount_append, lowCount_append,
        List.count_cons_of_ne (by simp), Option.getD_some]
      omega
  | bad bytes hscan ih =>
      have hcut := lowCount_truncated bytes
      have hsplit := lowCount_append (bytes.take (truncated bytes)) (bytes.drop (truncated bytes))
      rw [List.take_append_drop] at hsplit
      have hthree : lowCount (String.utf8EncodeChar replacement) = 3 := by decide
      rw [hscan, List.map_cons, encode_cons, lowCount_append, List.count_cons_self,
        Option.getD_none]
      omega

theorem scan_eq_map (h : none ∉ scan bytes) :
    scan bytes = (decodeReplace bytes).map some := by
  unfold decodeReplace
  rw [List.map_map]
  symm
  calc (scan bytes).map (some ∘ (·.getD replacement)) = (scan bytes).map id := by
        apply List.map_congr_left
        rintro (_ | c) hc
        · exact absurd hc h
        · rfl
    _ = scan bytes := List.map_id _

-- A reading that only moves bytes has replaced none.
theorem encode_decodeReplace_of_perm (h : (encode (decodeReplace bytes)).Perm bytes) :
    encode (decodeReplace bytes) = bytes := by
  have hcount : lowCount (encode (decodeReplace bytes)) = lowCount bytes := h.countP_eq _
  have hnone : none ∉ scan bytes := by
    rw [← List.count_eq_zero]
    have := lowCount_decodeReplace bytes
    omega
  exact encode_of_scan (scan_eq_map hnone)

-- What is read as a character was there.
theorem mem_of_mem_scan (hc : some c ∈ scan bytes) (hbyte : byte ∈ String.utf8EncodeChar c) :
    byte ∈ bytes := by
  induction bytes using scan_induct with
  | nil => cases hc
  | char d rest ih =>
      rw [scan_cons, List.mem_cons, Option.some.injEq] at hc
      rcases hc with rfl | hc
      · exact List.mem_append_left rest hbyte
      · exact List.mem_append_right _ (ih hc)
  | bad bytes hscan ih =>
      rw [hscan, List.mem_cons] at hc
      exact List.mem_of_mem_drop (ih (hc.resolve_left (by simp)))

theorem mem_decodeReplace_ascii {d : Char} (hd : d.val ≤ 127) (h : d ∈ decodeReplace bytes) :
    d.val.toUInt8 ∈ bytes := by
  unfold decodeReplace at h
  obtain ⟨entry, hentry, hvalue⟩ := List.mem_map.mp h
  cases entry with
  | none =>
      subst hvalue
      exact absurd hd (by decide)
  | some c =>
      obtain rfl : c = d := hvalue
      exact mem_of_mem_scan hentry ((mem_utf8EncodeChar_ascii hd).mpr rfl)

end Replacing

end EvoClaw.Text.Utf8
