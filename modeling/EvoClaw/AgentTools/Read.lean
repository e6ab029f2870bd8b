import EvoClaw.AgentTools.Files

-- Which files a read takes for binary.
namespace EvoClaw.AgentTools

open Text

-- What the file system answers to one call, each exception as its text.
structure ReadHost where
  repr : String → String
  resolved : Except String String
  resolvedAgain : Except String String
  sampleError : Option String
  textError : Option String

def READ_SIZE_LIMIT : Nat := 512 * 1024

inductive ReadAnswer
  | refused (err : String)
  | unresolved (exc : String)
  | escape (resolved : String)
  | failed (exc : String)
  | binary
  | truncated (text : List Char) (fileSize : Nat)
  | content (text : List Char)
  deriving DecidableEq

def ReadAnswer.text (repr : String → String) (filePath : String) : ReadAnswer → String
  | .refused err => err
  | .unresolved exc => "Error: cannot resolve path " ++ repr filePath ++ ": " ++ exc
  | .escape resolved =>
      "Error: access denied — " ++ repr filePath ++ " resolves to " ++ repr resolved ++
        " which is outside the allowed workspace (symlink escape prevention)."
  | .failed exc => "Error reading file: " ++ exc
  | .binary =>
      "Error: " ++ repr filePath ++ " appears to be a binary file. " ++
        "tool_read only supports text files. Use Bash + base64 to inspect binary content."
  | .truncated text fileSize =>
      "[OK] " ++ filePath ++ "\n" ++ String.ofList text ++ "\n\n... (file truncated: read " ++
        toString READ_SIZE_LIMIT ++ " of " ++ toString fileSize ++ " bytes)"
  | .content text => "[OK] " ++ filePath ++ "\n" ++ String.ofList text

def sampleOf (bytes : List UInt8) : List UInt8 :=
  bytes.take (min 512 bytes.length)

def highCount (bytes : List UInt8) : Nat :=
  bytes.countP (127 < ·)

def looksBinary (sample : List UInt8) : Bool :=
  0 ∈ sample ∨
    ((Utf8.decode sample).isNone ∧ 0 < sample.length ∧ sample.length < 2 * highCount sample)

def toolRead (host : ReadHost) (filePath : String) (bytes : List UInt8) : ReadAnswer :=
  match checkPathAllowed host.repr host.resolved filePath with
  | some err => .refused err
  | none =>
  match host.resolvedAgain with
  | .error exc => .unresolved exc
  | .ok resolved =>
  if ¬ allowed resolved then .escape resolved
  else
  match host.sampleError with
  | some exc => .failed exc
  | none =>
  if looksBinary (sampleOf bytes) then .binary
  else
  match host.textError with
  | some exc => .failed exc
  | none =>
  if READ_SIZE_LIMIT < bytes.length then
    .truncated (Utf8.decodeReplace (bytes.take READ_SIZE_LIMIT)) bytes.length
  else .content (readText bytes)

-- The sample of the file is looked at.
structure Sampled (host : ReadHost) (filePath : String) : Prop where
  path : checkPathAllowed host.repr host.resolved filePath = none
  resolved : ∃ resolved, host.resolvedAgain = .ok resolved ∧ allowed resolved = true
  readable : host.sampleError = none

-- The sample of the file is not cut off inside a character.
def SampleWhole (text : List Char) : Prop :=
  (Utf8.encode text).length ≤ 512 ∨
    ∃ front back, text = front ++ back ∧ (Utf8.encode front).length = 512

variable {host : ReadHost} {filePath : String} {bytes : List UInt8} {text : List Char}

theorem toolRead_eq_binary_iff :
    toolRead host filePath bytes = .binary ↔
      Sampled host filePath ∧ looksBinary (sampleOf bytes) = true := by
  unfold toolRead
  cases hpath : checkPathAllowed host.repr host.resolved filePath with
  | some err => exact ⟨fun h => (by cases h), fun h => absurd h.1.path (by simp [hpath])⟩
  | none =>
  cases hresolved : host.resolvedAgain with
  | error exc => exact ⟨fun h => (by cases h), fun h => absurd h.1.resolved (by simp [hresolved])⟩
  | ok resolved =>
  dsimp only
  by_cases hallowed : allowed resolved = true
  swap
  · rw [if_pos hallowed]
    exact ⟨fun h => (by cases h), fun h => absurd h.1.resolved (by simp [hresolved, hallowed])⟩
  rw [if_neg (not_not.mpr hallowed)]
  cases hreadable : host.sampleError with
  | some exc => exact ⟨fun h => (by cases h), fun h => absurd h.1.readable (by simp [hreadable])⟩
  | none =>
  dsimp only
  by_cases hbinary : looksBinary (sampleOf bytes) = true
  · rw [if_pos hbinary]
    exact ⟨fun _ => ⟨⟨hpath, ⟨resolved, hresolved, hallowed⟩, hreadable⟩, hbinary⟩, fun _ => rfl⟩
  · rw [if_neg hbinary]
    refine ⟨fun h => ?_, fun h => absurd h.2 hbinary⟩
    split at h
    · cases h
    · split_ifs at h

theorem sampleOf_begins (bytes : List UInt8) : sampleOf bytes <+: bytes :=
  List.take_prefix _ _

theorem sampleWhole_iff :
    SampleWhole text ↔ ∃ front, Utf8.encode front = sampleOf (Utf8.encode text) := by
  constructor
  · rintro (hshort | ⟨front, back, rfl, hlength⟩)
    · exact ⟨text, by rw [sampleOf, min_eq_right hshort, List.take_length]⟩
    · refine ⟨front, ?_⟩
      rw [sampleOf, Utf8.encode_append, List.length_append, hlength, Nat.min_eq_left (by omega),
        ← hlength, List.take_left]
  · rintro ⟨front, hfront⟩
    by_cases hshort : (Utf8.encode text).length ≤ 512
    · exact Or.inl hshort
    · obtain ⟨back, rfl⟩ := Utf8.prefix_of_encode_prefix (hfront ▸ sampleOf_begins _)
      refine Or.inr ⟨front, back, rfl, ?_⟩
      rw [hfront, sampleOf, List.length_take]
      omega

-- The sample of a text decodes if it ends where a character does.
theorem decode_sample (text : List Char) :
    (Utf8.decode (sampleOf (Utf8.encode text))).isNone = true ↔ ¬ SampleWhole text := by
  rw [Option.isNone_iff_eq_none, Option.eq_none_iff_forall_not_mem, sampleWhole_iff, not_exists]
  refine forall_congr' fun front => not_congr ?_
  rw [Option.mem_def, Utf8.decode_eq_some]

theorem not_mem_sample (hnull : Char.ofNat 0 ∉ text) : 0 ∉ sampleOf (Utf8.encode text) := by
  intro h
  have hzero : (Char.ofNat 0).val.toUInt8 ∈ Utf8.encode text := (sampleOf_begins _).subset h
  rw [Utf8.mem_encode_ascii (by decide)] at hzero
  exact hnull hzero

-- A text is taken for binary if its sample is cut off in a character and more than half of
-- the sample's bytes are beyond ASCII.
theorem text_readable_iff (host : ReadHost) (filePath : String) (text : List Char)
    (hnull : Char.ofNat 0 ∉ text) :
    toolRead host filePath (Utf8.encode text) ≠ .binary ↔
      (Sampled host filePath → SampleWhole text ∨
        2 * highCount (sampleOf (Utf8.encode text)) ≤ (sampleOf (Utf8.encode text)).length) := by
  have hhigh : highCount (sampleOf (Utf8.encode text)) ≤ (sampleOf (Utf8.encode text)).length :=
    List.countP_le_length
  rw [Ne, toolRead_eq_binary_iff, not_and]
  refine imp_congr_right fun _ => ?_
  rw [looksBinary, decide_eq_true_eq, or_iff_right (not_mem_sample hnull), decode_sample]
  constructor
  · intro h
    by_contra hneither
    rw [not_or, Nat.not_le] at hneither
    exact h ⟨hneither.1, by omega, hneither.2⟩
  · rintro (hwhole | hlow) ⟨hcut, -, hmany⟩
    · exact hcut hwhole
    · omega

def readableHost : ReadHost where
  repr path := "'" ++ path ++ "'"
  resolved := .ok "/workspace/group/notes.txt"
  resolvedAgain := .ok "/workspace/group/notes.txt"
  sampleError := none
  textError := none

theorem greeting_read :
    Char.ofNat 0 ∉ ['h', 'é'] ∧
      toolRead readableHost "notes.txt" (Utf8.encode ['h', 'é']) ≠ .binary :=
  ⟨by decide, (text_readable_iff readableHost "notes.txt" ['h', 'é'] (by decide)).mpr fun _ =>
    Or.inl (Or.inl (by decide))⟩

-- 171 characters of three bytes. The sample ends with two bytes of the last one.
def chineseText : List Char := List.replicate 171 '中'

theorem not_sampleWhole_chineseText : ¬ SampleWhole chineseText := by
  have hsize : '中'.utf8Size = 3 := by decide
  rintro (hshort | ⟨front, back, hsplit, hlength⟩)
  · rw [chineseText, Utf8.length_encode_replicate, hsize] at hshort
    omega
  · obtain ⟨-, hfront, -⟩ := List.replicate_eq_append_iff.mp hsplit
    rw [hfront, Utf8.length_encode_replicate, hsize] at hlength
    omega

theorem highCount_chineseText :
    highCount (sampleOf (Utf8.encode chineseText)) =
      (sampleOf (Utf8.encode chineseText)).length := by
  refine List.countP_eq_length.mpr fun byte hbyte => ?_
  obtain ⟨c, hc, hmem⟩ := List.mem_flatMap.mp ((sampleOf_begins _).subset hbyte)
  obtain rfl := List.eq_of_mem_replicate hc
  have hhigh := Utf8.high_of_mem_utf8EncodeChar (by decide) hmem
  exact decide_eq_true (UInt8.lt_iff_toNat_lt.mpr (Nat.lt_of_lt_of_le (by decide)
    (UInt8.le_iff_toNat_le.mp hhigh)))

theorem chinese_text_binary :
    Char.ofNat 0 ∉ chineseText ∧
      toolRead readableHost "notes.txt" (Utf8.encode chineseText) = .binary := by
  have hlength : (sampleOf (Utf8.encode chineseText)).length = 512 := by
    rw [sampleOf, List.length_take, chineseText, Utf8.length_encode_replicate]
    rfl
  refine ⟨fun h => absurd (List.eq_of_mem_replicate h) (by decide),
    toolRead_eq_binary_iff.mpr ⟨⟨rfl, ⟨_, rfl, by decide⟩, rfl⟩, ?_⟩⟩
  refine decide_eq_true (Or.inr ⟨(decode_sample _).mpr not_sampleWhole_chineseText, ?_, ?_⟩)
  · omega
  · rw [highCount_chineseText, hlength]
    omega

end EvoClaw.AgentTools
