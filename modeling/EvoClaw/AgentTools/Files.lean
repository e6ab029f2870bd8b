import EvoClaw.Text.Search
import EvoClaw.Text.Utf8

-- What the file tools of the agent share.
namespace EvoClaw.AgentTools

open Text

-- A character of a str, which need not be a Unicode scalar value.
inductive CodePoint
  | scalar (c : Char)
  | surrogate (unit : Fin 0x800)
  deriving DecidableEq, Repr

abbrev Str := List CodePoint

-- text.encode("utf-8"), and none for a UnicodeEncodeError
def encode : Str → Option (List UInt8)
  | [] => some []
  | .scalar c :: rest => (encode rest).map (String.utf8EncodeChar c ++ ·)
  | .surrogate _ :: _ => none

-- The newlines of a file that is opened as text.
def universalNewlines : List Char → List Char
  | [] => []
  | '\r' :: '\n' :: rest => '\n' :: universalNewlines rest
  | '\r' :: rest => '\n' :: universalNewlines rest
  | c :: rest => c :: universalNewlines rest

-- p.read_text(encoding="utf-8", errors="replace")
def readText (bytes : List UInt8) : List Char :=
  universalNewlines (Utf8.decodeReplace bytes)

def ALLOWED_PATH_PREFIXES : List String := ["/workspace/"]

def allowed (resolved : String) : Bool :=
  ALLOWED_PATH_PREFIXES.any fun pfx => decide (pfx.toList <+: resolved.toList)

-- `resolved` is what Path(file_path).resolve() gives, or the text of its exception.
def checkPathAllowed (repr : String → String) (resolved : Except String String)
    (filePath : String) : Option String :=
  if filePath = "" then some "Error: file path must not be empty"
  else if Char.ofNat 0 ∈ filePath.toList then
    some "Error: file path must not contain null bytes"
  else
    match resolved with
    | .error exc => some ("Error: cannot resolve path " ++ repr filePath ++ ": " ++ exc)
    | .ok path =>
        if allowed path then none
        else some ("Error: access denied — path " ++ repr filePath ++
          " is outside the allowed workspace. Only paths within /workspace/ are permitted.")

variable {c : Char} {text : List Char} {string : Str} {bytes : List UInt8}

theorem encode_eq_some :
    encode string = some bytes ↔ ∃ text, string = text.map .scalar ∧ Utf8.encode text = bytes := by
  induction string generalizing bytes with
  | nil =>
      constructor
      · intro h
        exact ⟨[], rfl, Option.some.inj h⟩
      · rintro ⟨text, htext, rfl⟩
        rw [List.map_eq_nil_iff.mp htext.symm]
        rfl
  | cons point rest ih =>
      cases point with
      | scalar c =>
          rw [encode, Option.map_eq_some_iff]
          constructor
          · rintro ⟨more, hmore, rfl⟩
            obtain ⟨text, rfl, rfl⟩ := ih.mp hmore
            exact ⟨c :: text, rfl, rfl⟩
          · rintro ⟨text, htext, rfl⟩
            obtain ⟨d, text, rfl, hd, rfl⟩ := List.map_eq_cons_iff.mp htext.symm
            cases hd
            exact ⟨Utf8.encode text, ih.mpr ⟨text, rfl, rfl⟩, rfl⟩
      | surrogate unit =>
          constructor
          · intro h
            cases h
          · rintro ⟨text, htext, -⟩
            obtain ⟨d, _, -, hd, -⟩ := List.map_eq_cons_iff.mp htext.symm
            cases hd

@[simp] theorem encode_map_scalar (text : List Char) :
    encode (text.map .scalar) = some (Utf8.encode text) :=
  encode_eq_some.mpr ⟨text, rfl, rfl⟩

theorem scalar_injective : Function.Injective CodePoint.scalar := fun _ _ h =>
  CodePoint.scalar.inj h

theorem not_mem_universalNewlines (text : List Char) : '\r' ∉ universalNewlines text := by
  fun_induction universalNewlines text with
  | case1 => exact List.not_mem_nil
  | case2 rest ih => simp [ih]
  | case3 rest hrest ih => simp [ih]
  | case4 c rest hpair hreturn ih =>
      rw [List.mem_cons, not_or]
      exact ⟨fun hc => hreturn hc.symm, ih⟩

theorem universalNewlines_eq_self (h : '\r' ∉ text) : universalNewlines text = text := by
  fun_induction universalNewlines text with
  | case1 => rfl
  | case2 rest ih => simp at h
  | case3 rest hrest ih => simp at h
  | case4 c rest hpair hreturn ih =>
      rw [List.mem_cons, not_or] at h
      rw [ih h.2]

-- A file in UTF-8 without a carriage return is read as it is.
theorem readText_encode (h : '\r' ∉ text) : readText (Utf8.encode text) = text := by
  rw [readText, Utf8.decodeReplace_encode, universalNewlines_eq_self h]

-- A file that is read and written back with the same bytes, in some order, is such a file.
theorem encode_readText_of_perm (h : (Utf8.encode (readText bytes)).Perm bytes) :
    Utf8.encode (readText bytes) = bytes := by
  have hreturn : '\r'.val ≤ 127 := by decide
  have hbytes : '\r'.val.toUInt8 ∉ bytes := by
    rw [← h.mem_iff, Utf8.mem_encode_ascii hreturn]
    exact not_mem_universalNewlines _
  have hdecoded : '\r' ∉ Utf8.decodeReplace bytes := fun hmem =>
    hbytes (Utf8.mem_decodeReplace_ascii hreturn hmem)
  have hread : readText bytes = Utf8.decodeReplace bytes := universalNewlines_eq_self hdecoded
  rw [hread] at h ⊢
  exact Utf8.encode_decodeReplace_of_perm h

end EvoClaw.AgentTools
