import EvoClaw.AgentTools.Files
import EvoClaw.Dream.HotMemory
import EvoClaw.EventSystem.Runs
import EvoClaw.Posix.Path
import Mathlib.Data.List.GetD
import Mathlib.Data.List.ReduceOption
import Mathlib.Logic.Function.Basic
import Mathlib.Tactic.IntervalCases

-- The MEMORY.md files of the groups, and patch_hot_memory of memory_bus.py.
namespace EvoClaw.MemoryBus

open AgentTools (universalNewlines)
open ContainerRunner (byteLength)
open Dream (takeBytes)
open EventSystem Posix Text Utf8

-- cut -= 1 as long as the byte at the cut continues a character.
def walkBack (encoded : List UInt8) : Nat → Nat
  | 0 => 0
  | cut + 1 =>
      if encoded.getD (cut + 1) 0 &&& 0xc0 = 0x80 then walkBack encoded cut else cut + 1

-- _safe_truncate_utf8 of hot.py
def safeTruncateUtf8 (text : List Char) (max_bytes : Nat) : List Char :=
  let encoded := encode text
  if encoded.length ≤ max_bytes then text
  else (scan (encoded.take (walkBack encoded max_bytes))).reduceOption

-- The file operations of a call.
inductive Stage where
  | mkdir
  | read
  | write
  | replace
deriving DecidableEq

-- A call of patch_hot_memory, and the operation that raises an OSError, if one does.
structure PatchCall where
  agentId : String
  patch : List Char
  max_bytes : Nat
  fault : Option Stage := none

-- The bytes of each agent's MEMORY.md, if it has one.
abbrev Memories := String → Option (List UInt8)

inductive PatchError where
  | invalidAgentId
  | embeddedNull
  | undecodable
deriving DecidableEq

-- Path(agent_id).name is the id itself, and not empty.
def PatchCall.isValid (call : PatchCall) : Bool :=
  let safeId := (Path.parse call.agentId.toList).name
  safeId ≠ [] ∧ safeId = call.agentId.toList

-- mkdir raises a ValueError for a path with a NUL.
def PatchCall.hasNull (call : PatchCall) : Bool :=
  call.agentId.toList.contains '\x00'

-- memory_file.read_text(encoding="utf-8") if there is the file. None is a UnicodeDecodeError.
def currentText : Option (List UInt8) → Option (List Char)
  | none => some []
  | some bytes => (decode bytes).map universalNewlines

def updatedText (current patch : List Char) : List Char :=
  current ++ '\n' :: patch

def storedText (call : PatchCall) (current : List Char) : List Char :=
  let updated := updatedText current call.patch
  if call.max_bytes < (encode updated).length then safeTruncateUtf8 updated call.max_bytes
  else updated

def patchHotMemory (memories : Memories) (call : PatchCall) : Except PatchError Bool × Memories :=
  if call.isValid = false then (.error .invalidAgentId, memories)
  else if call.hasNull then (.error .embeddedNull, memories)
  else if call.fault = some .mkdir ∨ call.fault = some .read then (.ok false, memories)
  else
    match currentText (memories call.agentId) with
    | none => (.error .undecodable, memories)
    | some current =>
        if call.fault = some .write ∨ call.fault = some .replace then (.ok false, memories)
        else
          (.ok true,
            Function.update memories call.agentId (some (encode (storedText call current))))

section Truncation

variable {c : Char} {text front back patch : List Char} {room : Nat}

@[simp] theorem length_encode (text : List Char) : (encode text).length = byteLength text := by
  induction text with
  | nil => rfl
  | cons c rest ih =>
      rw [encode_cons, List.length_append, ih, String.length_utf8EncodeChar]
      rfl

@[simp] theorem byteLength_append (front back : List Char) :
    byteLength (front ++ back) = byteLength front + byteLength back := by
  simp [byteLength]

@[simp] theorem byteLength_cons (c : Char) (text : List Char) :
    byteLength (c :: text) = c.utf8Size + byteLength text := rfl

theorem continues_mask (low : UInt8) : (low &&& 0x3f ||| 0x80) &&& 0xc0 = 0x80 := by
  apply UInt8.toBitVec_inj.mp
  ext i hi
  simp
  interval_cases i <;> simp

theorem not_continues_mask :
    ∀ byte : BitVec 8, byte &&& 0x80 = 0 ∨ byte &&& 0xe0 = 0xc0 ∨ byte &&& 0xf0 = 0xe0 ∨
      byte &&& 0xf8 = 0xf0 → byte &&& 0xc0 ≠ 0x80 := by
  decide

theorem not_continues_first {byte : UInt8} (h : byte.IsUTF8FirstByte) : byte &&& 0xc0 ≠ 0x80 := by
  intro hcontinues
  refine not_continues_mask byte.toBitVec ?_ (congrArg UInt8.toBitVec hcontinues)
  exact h.imp (congrArg UInt8.toBitVec) (Or.imp (congrArg UInt8.toBitVec)
    (Or.imp (congrArg UInt8.toBitVec) (congrArg UInt8.toBitVec)))

-- The bytes of a character behind its first one.
theorem continues_tail {first : UInt8} {more : List UInt8}
    (h : String.utf8EncodeChar c = first :: more) : ∀ byte ∈ more, byte &&& 0xc0 = 0x80 := by
  intro byte hbyte
  obtain hsize | hsize | hsize | hsize := c.utf8Size_eq
  · rw [String.utf8EncodeChar_eq_singleton hsize] at h
    rw [← (List.cons.inj h).2] at hbyte
    cases hbyte
  · rw [String.utf8EncodeChar_eq_cons_cons hsize] at h
    rw [← (List.cons.inj h).2, List.mem_singleton] at hbyte
    exact hbyte ▸ continues_mask _
  · rw [String.utf8EncodeChar_eq_cons_cons_cons hsize] at h
    rw [← (List.cons.inj h).2] at hbyte
    simp only [List.mem_cons, List.not_mem_nil, or_false] at hbyte
    obtain rfl | rfl := hbyte <;> exact continues_mask _
  · rw [String.utf8EncodeChar_eq_cons_cons_cons_cons hsize] at h
    rw [← (List.cons.inj h).2] at hbyte
    simp only [List.mem_cons, List.not_mem_nil, or_false] at hbyte
    obtain rfl | rfl | rfl := hbyte <;> exact continues_mask _

-- The walk back ends at the first byte of the character that the cut falls into.
theorem walkBack_eq {before more after : List UInt8} {first : UInt8}
    (hfirst : first &&& 0xc0 ≠ 0x80) (hmore : ∀ byte ∈ more, byte &&& 0xc0 = 0x80) (k : Nat)
    (hk : k ≤ more.length) :
    walkBack (before ++ first :: (more ++ after)) (before.length + k) = before.length := by
  induction k with
  | zero =>
      cases hlength : before.length with
      | zero => rfl
      | succ n =>
          have hget : (before ++ first :: (more ++ after)).getD (n + 1) 0 = first := by
            rw [← hlength]
            simp
          rw [Nat.add_zero, walkBack, hget, if_neg hfirst]
  | succ k ih =>
      have hget : (before ++ first :: (more ++ after)).getD (before.length + k + 1) 0 = more[k] := by
        have hsplit : before ++ first :: (more ++ after) = (before ++ [first]) ++ (more ++ after) := by
          simp
        have hindex : before.length + k + 1 = (before ++ [first]).length + k := by
          simp only [List.length_append, List.length_singleton]
          omega
        rw [hsplit, hindex, List.getD_append_right _ _ _ _ (Nat.le_add_right _ _),
          Nat.add_sub_cancel_left, List.getD_append _ _ _ _ hk, List.getD_eq_getElem _ _ hk]
      rw [← Nat.add_assoc, walkBack, hget, if_pos (hmore _ (List.getElem_mem _)), ih (by omega)]

-- The character that does not fit any more.
theorem exists_cut (h : room < byteLength text) :
    ∃ front c back, text = front ++ c :: back ∧ byteLength front ≤ room ∧
      room < byteLength front + c.utf8Size ∧ takeBytes room text = front := by
  induction text generalizing room with
  | nil => exact absurd h (Nat.not_lt_zero room)
  | cons d rest ih =>
      rw [byteLength_cons] at h
      by_cases hfits : d.utf8Size ≤ room
      · obtain ⟨front, c, back, rfl, hle, hlt, htake⟩ := @ih (room - d.utf8Size) (by omega)
        refine ⟨d :: front, c, back, rfl, ?_, ?_, ?_⟩
        · rw [byteLength_cons]
          omega
        · rw [byteLength_cons]
          omega
        · rw [takeBytes, if_pos hfits, htake]
      · exact ⟨[], d, rest, rfl, Nat.zero_le room, by simpa [byteLength] using hfits,
          by rw [takeBytes, if_neg hfits]⟩

-- The walk over the bytes takes off the longest beginning of the text that fits.
theorem safeTruncateUtf8_eq (text : List Char) (room : Nat) :
    safeTruncateUtf8 text room = Dream.safeTruncateUtf8 text room := by
  unfold safeTruncateUtf8 Dream.safeTruncateUtf8
  dsimp only
  rw [length_encode]
  split
  · rfl
  · rename_i hlong
    obtain ⟨front, c, back, rfl, hle, hlt, htake⟩ := exists_cut (Nat.lt_of_not_le hlong)
    rw [htake]
    obtain ⟨first, more, hc⟩ := List.exists_cons_of_ne_nil (utf8EncodeChar_ne_nil c)
    have hfirst : first &&& 0xc0 ≠ 0x80 :=
      not_continues_first (isUTF8FirstByte_head (c := c) (by rw [hc]; rfl))
    have hlength : more.length + 1 = c.utf8Size := by
      rw [← String.length_utf8EncodeChar, hc]
      rfl
    have hcut : walkBack (encode front ++ first :: (more ++ encode back))
        ((encode front).length + (room - byteLength front)) = (encode front).length :=
      walkBack_eq hfirst (continues_tail hc) _ (by omega)
    rw [length_encode, Nat.add_sub_cancel' hle] at hcut
    have hencode : encode (front ++ c :: back) = encode front ++ first :: (more ++ encode back) := by
      rw [encode_append, encode_cons, hc, List.cons_append]
    rw [hencode, hcut, ← length_encode, List.take_left, scan_encode]
    simp [List.reduceOption]

theorem takeBytes_isPrefix (room : Nat) (text : List Char) : takeBytes room text <+: text := by
  by_cases h : room < byteLength text
  · obtain ⟨front, c, back, rfl, -, -, htake⟩ := exists_cut h
    rw [htake]
    exact List.prefix_append front (c :: back)
  · have hfits : ∀ (text : List Char) room, byteLength text ≤ room → takeBytes room text = text := by
      intro text
      induction text with
      | nil => exact fun _ _ => rfl
      | cons c rest ih =>
          intro room hle
          rw [byteLength_cons] at hle
          rw [takeBytes, if_pos (by omega), ih _ (by omega)]
    rw [hfits text room (Nat.le_of_not_lt h)]

-- Every beginning that fits is a beginning of what is kept.
theorem prefix_takeBytes (h : front <+: text) (hle : byteLength front ≤ room) :
    front <+: takeBytes room text := by
  induction front generalizing text room with
  | nil => exact List.nil_prefix
  | cons c front ih =>
      obtain ⟨back, rfl⟩ := h
      rw [byteLength_cons] at hle
      rw [List.cons_append, takeBytes, if_pos (by omega), List.prefix_cons_inj]
      exact ih (List.prefix_append front back) (by omega)

-- What is left is the longest beginning that fits: every other one that fits begins it.
theorem safeTruncateUtf8_longest (text : List Char) (max_bytes : Nat) :
    safeTruncateUtf8 text max_bytes <+: text ∧
      (encode (safeTruncateUtf8 text max_bytes)).length ≤ max_bytes ∧
      ∀ front, front <+: text → (encode front).length ≤ max_bytes →
        front <+: safeTruncateUtf8 text max_bytes := by
  rw [safeTruncateUtf8_eq, Dream.safeTruncateUtf8]
  split
  · next hfits =>
      refine ⟨List.prefix_rfl, ?_, fun front hfront _ => hfront⟩
      rwa [length_encode]
  · refine ⟨takeBytes_isPrefix max_bytes text, ?_, fun front hfront hle => ?_⟩
    · rw [length_encode]
      exact Dream.byteLength_takeBytes_le max_bytes text
    · rw [length_encode] at hle
      exact prefix_takeBytes hfront hle

theorem infix_takeBytes_iff :
    patch <:+: takeBytes room text ↔
      ∃ before, before ++ patch <+: text ∧ byteLength (before ++ patch) ≤ room := by
  constructor
  · rintro ⟨before, after, hsplit⟩
    have hfront : before ++ patch <+: takeBytes room text := ⟨after, hsplit⟩
    refine ⟨before, hfront.trans (takeBytes_isPrefix room text), ?_⟩
    refine Nat.le_trans ?_ (Dream.byteLength_takeBytes_le room text)
    rw [← hsplit, byteLength_append (before ++ patch) after]
    exact Nat.le_add_right _ _
  · rintro ⟨before, hprefix, hle⟩
    obtain ⟨after, hsplit⟩ := prefix_takeBytes hprefix hle
    exact ⟨before, after, hsplit⟩

end Truncation

section Patching

variable {memories : Memories} {call : PatchCall}

-- A call that returns True leaves a file of text within the limit that has the patch in it.
def PatchStored (memories : Memories) (call : PatchCall) : Prop :=
  (patchHotMemory memories call).1 = .ok true →
    ∃ bytes ∈ (patchHotMemory memories call).2 call.agentId, ∃ text, decode bytes = some text ∧
      bytes.length ≤ call.max_bytes ∧ call.patch <:+: text

-- The id is accepted, and is a name that a directory can have.
def PatchCall.Named (call : PatchCall) : Prop :=
  call.isValid = true ∧ call.hasNull = false

instance (call : PatchCall) : Decidable call.Named :=
  inferInstanceAs (Decidable (_ ∧ _))

-- Where the call gets as far as writing, the patch occurs, at its own place behind the current
-- text or before, within the first max_bytes bytes.
def PatchFits (memories : Memories) (call : PatchCall) : Prop :=
  call.Named → call.fault = none →
    ∀ current ∈ currentText (memories call.agentId), ∃ before,
      before ++ call.patch <+: updatedText current call.patch ∧
        byteLength (before ++ call.patch) ≤ call.max_bytes

theorem storedText_eq (call : PatchCall) (current : List Char) :
    storedText call current = takeBytes call.max_bytes (updatedText current call.patch) := by
  have htruncate : storedText call current =
      Dream.safeTruncateUtf8 (updatedText current call.patch) call.max_bytes := by
    unfold storedText
    dsimp only
    rw [safeTruncateUtf8_eq, length_encode]
    split
    · rfl
    · rename_i hfits
      exact (if_pos (Nat.le_of_not_lt hfits)).symm
  rw [htruncate, Dream.safeTruncateUtf8]
  split
  · rename_i hfits
    exact (prefix_takeBytes List.prefix_rfl hfits).eq_of_length_le
      (takeBytes_isPrefix call.max_bytes _).length_le
  · rfl

-- Only a call whose operations all succeed returns True.
theorem patchHotMemory_cases (memories : Memories) (call : PatchCall) :
    (patchHotMemory memories call).1 ≠ .ok true ∧
        ¬ (call.Named ∧ call.fault = none ∧
          (currentText (memories call.agentId)).isSome = true) ∨
      call.Named ∧ call.fault = none ∧ ∃ current,
        currentText (memories call.agentId) = some current ∧
        patchHotMemory memories call = (.ok true, Function.update memories call.agentId
          (some (encode (takeBytes call.max_bytes (updatedText current call.patch))))) := by
  unfold patchHotMemory
  split
  · rename_i hinvalid
    exact Or.inl ⟨nofun, fun h => by simp [h.1.1] at hinvalid⟩
  rename_i hvalid
  split
  · rename_i hnull
    exact Or.inl ⟨nofun, fun h => by simp [h.1.2] at hnull⟩
  · rename_i hnull
    split
    · rename_i hfault
      refine Or.inl ⟨nofun, fun h => ?_⟩
      simp [h.2.1] at hfault
    · rename_i hearly
      split
      · rename_i hcurrent
        exact Or.inl ⟨nofun, fun h => by simp [hcurrent] at h⟩
      · rename_i current hcurrent
        split
        · rename_i hfault
          refine Or.inl ⟨nofun, fun h => ?_⟩
          simp [h.2.1] at hfault
        · rename_i hlate
          have hnone : call.fault = none := by
            cases hfault : call.fault with
            | none => rfl
            | some stage => cases stage <;> simp_all
          have hnamed : call.Named := ⟨by simpa using hvalid, by simpa using hnull⟩
          exact Or.inr ⟨hnamed, hnone, current, hcurrent, by rw [storedText_eq]⟩

-- A stored text is within the limit whatever the patch is.
theorem patchStored_iff : PatchStored memories call ↔ PatchFits memories call := by
  obtain ⟨hfails, hnot⟩ | ⟨hvalid, hfault, current, hcurrent, hcall⟩ :=
    patchHotMemory_cases memories call
  · refine iff_of_true (fun h => absurd h hfails) fun hvalid hfault current hcurrent => ?_
    exact absurd ⟨hvalid, hfault, Option.isSome_iff_exists.mpr ⟨current, hcurrent⟩⟩ hnot
  · unfold PatchStored PatchFits
    simp only [hcall, hvalid, hfault, hcurrent, true_implies, Function.update_self, Option.mem_def,
      Option.some.injEq, exists_eq_left', forall_eq', ← infix_takeBytes_iff, decode_eq_some]
    constructor
    · rintro ⟨text, htext, -, hpatch⟩
      exact encode_injective htext ▸ hpatch
    · intro hpatch
      refine ⟨_, rfl, ?_, hpatch⟩
      rw [length_encode]
      exact Dream.byteLength_takeBytes_le call.max_bytes _

-- What a call that returns True leaves: text within the limit, which is the longest beginning
-- of the current text with the patch behind it, and has the patch in it exactly if it fits.
structure PatchKept (memories : Memories) (call : PatchCall) (current text : List Char) : Prop where
  written : (patchHotMemory memories call).2 call.agentId = some (encode text)
  bounded : (encode text).length ≤ call.max_bytes
  beginning : text <+: updatedText current call.patch
  longest : ∀ front, front <+: updatedText current call.patch →
    (encode front).length ≤ call.max_bytes → front <+: text
  stored_iff : call.patch <:+: text ↔ ∃ before,
    before ++ call.patch <+: updatedText current call.patch ∧
      (encode (before ++ call.patch)).length ≤ call.max_bytes

-- Every call of every sequence that returns True has kept what fits.
theorem patchKept_along (memories : Memories) (calls : List PatchCall) :
    Along (fun memories call => some (patchHotMemory memories call).2)
      (fun memories call => (patchHotMemory memories call).1 = .ok true →
        ∃ current ∈ currentText (memories call.agentId), ∃ text,
          PatchKept memories call current text) memories calls := by
  refine along_of_forall (fun memories call htrue => ?_) memories calls
  obtain ⟨hfails, -⟩ | ⟨-, -, current, hcurrent, hcall⟩ := patchHotMemory_cases memories call
  · exact absurd htrue hfails
  · refine ⟨current, hcurrent, takeBytes call.max_bytes (updatedText current call.patch),
      ?_, ?_, takeBytes_isPrefix _ _, fun front hfront hle => ?_, ?_⟩
    · rw [hcall]
      exact Function.update_self ..
    · rw [length_encode]
      exact Dream.byteLength_takeBytes_le call.max_bytes _
    · rw [length_encode] at hle
      exact prefix_takeBytes hfront hle
    · simp only [length_encode]
      exact infix_takeBytes_iff

-- The memory is full after the first patch, and the second one is cut off.
theorem second_patch_lost :
    ¬ Along (fun memories call => some (patchHotMemory memories call).2) PatchStored (fun _ => none)
      [⟨"main", "prefers tea".toList, 16, none⟩, ⟨"main", "lives in Rome".toList, 16, none⟩] := by
  rintro ⟨-, hsecond, -⟩
  have hcurrent : currentText ((patchHotMemory (fun _ => none)
      ⟨"main", "prefers tea".toList, 16, none⟩).2 "main") = some "\nprefers tea".toList := by
    have hstored : (patchHotMemory (fun _ => none) ⟨"main", "prefers tea".toList, 16, none⟩).2 "main" =
        some (encode "\nprefers tea".toList) := by decide
    rw [hstored, currentText, decode_eq_some.mpr rfl]
    decide
  have hfits := patchStored_iff.mp hsecond (by decide) rfl _ hcurrent
  exact absurd (infix_takeBytes_iff.mpr hfits) (by decide)

end Patching

end EvoClaw.MemoryBus
