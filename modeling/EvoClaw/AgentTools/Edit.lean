import EvoClaw.AgentTools.Files

-- What an edit changes in a file.
namespace EvoClaw.AgentTools

open Text

-- What the file system answers to one call, each exception as its text.
structure EditHost where
  repr : String → String
  resolved : Except String String
  parent : Except String String
  readError : Option String
  encodeError : String
  writeError : Option String

def WRITE_SIZE_LIMIT : Nat := 10 * 1024 * 1024

def content (bytes : List UInt8) : Str :=
  (readText bytes).map .scalar

-- The answer to the model, and the file after the call.
def toolEdit (host : EditHost) (filePath : String) (oldString newString : Str)
    (bytes : List UInt8) : String × List UInt8 :=
  match checkPathAllowed host.repr host.resolved filePath with
  | some err => ("[ERROR] " ++ err, bytes)
  | none =>
  match host.parent with
  | .error exc => ("[ERROR] cannot resolve parent directory: " ++ exc, bytes)
  | .ok parent =>
  if ¬ allowed parent then
    ("[ERROR] access denied — parent directory of " ++ host.repr filePath ++ " resolves to " ++
      host.repr parent ++
      " which is outside the allowed workspace (symlink escape prevention).", bytes)
  else
  match host.readError with
  | some exc => ("[ERROR] " ++ exc, bytes)
  | none =>
  if ¬ contains (content bytes) oldString then
    ("[ERROR] old_string not found in " ++ filePath, bytes)
  else if 1 < count oldString (content bytes) then
    ("[ERROR] old_string appears " ++ toString (count oldString (content bytes)) ++ " times in " ++
      filePath ++
      ". Provide a longer, unique context string that matches exactly one location.", bytes)
  else
  match encode (replaceFirst oldString newString (content bytes)) with
  | none => ("[ERROR] " ++ host.encodeError, bytes)
  | some newContent =>
  if WRITE_SIZE_LIMIT < newContent.length then
    ("[ERROR] resulting file too large (> 10MB limit)", bytes)
  else
  match host.writeError with
  | some exc => ("[ERROR] " ++ exc, bytes)
  | none => ("[OK] Edited: " ++ filePath, newContent)

def reportsSuccess (answer : String) : Bool :=
  decide ("[OK]".toList <+: answer.toList)

section Spec

variable (host : EditHost) (filePath : String) (oldString newString : Str) (bytes : List UInt8)

-- An edit changes what it was asked to change and nothing else.
def Faithful (edited : String × List UInt8) : Prop :=
  if reportsSuccess edited.1 then
    ∃ oldBytes newBytes before after,
      encode oldString = some oldBytes ∧ encode newString = some newBytes ∧
      bytes = before ++ (oldBytes ++ after) ∧
      (∀ i, OccursAt oldBytes bytes i → i = before.length) ∧
      edited.2 = before ++ (newBytes ++ after)
  else edited.2 = bytes

-- No guard refuses the edit.
structure Accepted : Prop where
  path : checkPathAllowed host.repr host.resolved filePath = none
  parent : ∃ parent, host.parent = .ok parent ∧ allowed parent = true
  readable : host.readError = none
  found : contains (content bytes) oldString = true
  once : count oldString (content bytes) ≤ 1
  fits : ∃ newContent, encode (replaceFirst oldString newString (content bytes)) =
    some newContent ∧ newContent.length ≤ WRITE_SIZE_LIMIT
  writable : host.writeError = none

-- The file is UTF-8 without a carriage return, and no two occurrences in it overlap.
def Plain : Prop :=
  ∃ text : List Char, Utf8.encode text = bytes ∧ '\r' ∉ text ∧
    Separate oldString (text.map .scalar)

end Spec

section Outcome

variable {host : EditHost} {filePath : String} {oldString newString : Str} {bytes : List UInt8}

theorem reportsSuccess_of_toList {answer : String} {rest : List Char}
    (h : answer.toList = '[' :: 'E' :: rest) : reportsSuccess answer = false := by
  rw [reportsSuccess, decide_eq_false_iff_not, h]
  intro hmark
  have hsecond := (List.cons_prefix_cons.mp hmark).2
  exact absurd (List.cons_prefix_cons.mp hsecond).1 (by decide)

-- Either every guard lets the edit through, or the file stays as it is.
theorem toolEdit_cases (host : EditHost) (filePath : String) (oldString newString : Str)
    (bytes : List UInt8) :
    (Accepted host filePath oldString newString bytes ∧ ∃ newContent,
      encode (replaceFirst oldString newString (content bytes)) = some newContent ∧
      toolEdit host filePath oldString newString bytes =
        ("[OK] Edited: " ++ filePath, newContent)) ∨
    (¬ Accepted host filePath oldString newString bytes ∧ ∃ answer,
      reportsSuccess answer = false ∧
      toolEdit host filePath oldString newString bytes = (answer, bytes)) := by
  unfold toolEdit
  cases hpath : checkPathAllowed host.repr host.resolved filePath with
  | some err =>
      exact Or.inr ⟨fun h => absurd h.path (by simp [hpath]), _,
        reportsSuccess_of_toList (by simp only [String.toList_append]; rfl), rfl⟩
  | none =>
  cases hparent : host.parent with
  | error exc =>
      exact Or.inr ⟨fun h => absurd h.parent (by simp [hparent]), _,
        reportsSuccess_of_toList (by simp only [String.toList_append]; rfl), rfl⟩
  | ok parent =>
  dsimp only
  by_cases hallowed : allowed parent = true
  swap
  · rw [if_pos hallowed]
    exact Or.inr ⟨fun h => absurd h.parent (by simp [hparent, hallowed]), _,
      reportsSuccess_of_toList (by simp only [String.toList_append]; rfl), rfl⟩
  rw [if_neg (not_not.mpr hallowed)]
  cases hreadable : host.readError with
  | some exc =>
      exact Or.inr ⟨fun h => absurd h.readable (by simp [hreadable]), _,
        reportsSuccess_of_toList (by simp only [String.toList_append]; rfl), rfl⟩
  | none =>
  dsimp only
  by_cases hfound : contains (content bytes) oldString = true
  swap
  · rw [if_pos hfound]
    exact Or.inr ⟨fun h => hfound h.found, _,
      reportsSuccess_of_toList (by simp only [String.toList_append]; rfl), rfl⟩
  rw [if_neg (not_not.mpr hfound)]
  by_cases honce : 1 < count oldString (content bytes)
  · rw [if_pos honce]
    exact Or.inr ⟨fun h => absurd h.once (Nat.not_le.mpr honce), _,
      reportsSuccess_of_toList (by simp only [String.toList_append]; rfl), rfl⟩
  rw [if_neg honce]
  cases hencode : encode (replaceFirst oldString newString (content bytes)) with
  | none =>
      refine Or.inr ⟨fun h => ?_, _,
        reportsSuccess_of_toList (by simp only [String.toList_append]; rfl), rfl⟩
      obtain ⟨newContent, hnew, -⟩ := h.fits
      simp [hencode] at hnew
  | some newContent =>
  dsimp only
  by_cases hsize : WRITE_SIZE_LIMIT < newContent.length
  · rw [if_pos hsize]
    refine Or.inr ⟨fun h => ?_, _, reportsSuccess_of_toList rfl, rfl⟩
    obtain ⟨fitting, hnew, hfits⟩ := h.fits
    rw [hencode, Option.some.injEq] at hnew
    subst hnew
    omega
  rw [if_neg hsize]
  cases hwritable : host.writeError with
  | some exc =>
      exact Or.inr ⟨fun h => absurd h.writable (by simp [hwritable]), _,
        reportsSuccess_of_toList (by simp only [String.toList_append]; rfl), rfl⟩
  | none =>
      exact Or.inl ⟨⟨hpath, ⟨parent, hparent, hallowed⟩, hreadable, hfound, Nat.not_lt.mp honce,
        ⟨newContent, hencode, Nat.not_lt.mp hsize⟩, hwritable⟩, newContent, rfl, rfl⟩

-- What is read of the file of an accepted edit, around the string that is replaced.
structure Around (oldString newString : Str) (bytes newContent : List UInt8)
    (front old new back : List Char) : Prop where
  replaced : oldString = old.map .scalar
  inserted : newString = new.map .scalar
  read : readText bytes = front ++ (old ++ back)
  written : newContent = Utf8.encode front ++ (Utf8.encode new ++ Utf8.encode back)

theorem exists_around {newContent : List UInt8}
    (hfound : contains (content bytes) oldString = true)
    (hencode : encode (replaceFirst oldString newString (content bytes)) = some newContent) :
    ∃ front old new back, Around oldString newString bytes newContent front old new back := by
  obtain ⟨i, hi⟩ := Option.isSome_iff_exists.mp hfound
  have hsplit := find_spec hi
  obtain ⟨front, middle, hread, hfront, hmiddle⟩ := List.map_eq_append_iff.mp hsplit
  obtain ⟨old, back, rfl, hold, hback⟩ := List.map_eq_append_iff.mp hmiddle
  rw [replaceFirst, hi] at hencode
  dsimp only at hencode
  rw [← hfront, ← hback] at hencode
  obtain ⟨text, htext, rfl⟩ := encode_eq_some.mp hencode
  obtain ⟨first, rest, rfl, hfirst, hrest⟩ := List.map_eq_append_iff.mp htext.symm
  obtain ⟨new, last, rfl, hnew, hlast⟩ := List.map_eq_append_iff.mp hrest
  rw [List.map_inj_right fun _ _ => CodePoint.scalar.inj] at hfirst hlast
  subst hfirst hlast
  exact ⟨first, old, new, last, hold.symm, hnew.symm, hread, by simp⟩

variable {newContent before after : List UInt8} {front old new back : List Char}

-- Bytes that are only replaced are the bytes that were read, in some order.
theorem Around.perm (h : Around oldString newString bytes newContent front old new back)
    (hbytes : bytes = before ++ (Utf8.encode old ++ after))
    (hwritten : newContent = before ++ (Utf8.encode new ++ after)) :
    (Utf8.encode (readText bytes)).Perm bytes := by
  rw [List.perm_iff_count]
  intro byte
  have hsame := congrArg (List.count byte) (h.written.symm.trans hwritten)
  rw [h.read, hbytes]
  simp only [Utf8.encode_append, List.count_append] at hsame ⊢
  omega

theorem Around.plain (h : Around oldString newString bytes newContent front old new back)
    (hbytes : bytes = before ++ (Utf8.encode old ++ after))
    (hwritten : newContent = before ++ (Utf8.encode new ++ after))
    (honly : ∀ i, OccursAt (Utf8.encode old) bytes i → i = before.length) :
    Plain oldString bytes := by
  have hread : Utf8.encode (readText bytes) = bytes :=
    encode_readText_of_perm (h.perm hbytes hwritten)
  refine ⟨readText bytes, hread, not_mem_universalNewlines _, ?_⟩
  intro i j hi hj hlt
  exfalso
  rw [h.replaced, occursAt_map scalar_injective] at hi hj
  have hfirst := honly _ (hread ▸ Utf8.occursAt_encode hi)
  have hsecond := honly _ (hread ▸ Utf8.occursAt_encode hj)
  have hj := hj.le
  have := Utf8.length_encode_take_lt hlt (show j ≤ (readText bytes).length by omega)
  omega

theorem Around.unique (h : Around oldString newString bytes newContent front old new back)
    (honce : count oldString (content bytes) ≤ 1) (hread : Utf8.encode (readText bytes) = bytes)
    (hseparate : Separate oldString (content bytes)) {i : Nat}
    (hi : OccursAt (Utf8.encode old) bytes i) : i = (Utf8.encode front).length := by
  by_cases hold : old = []
  · -- An empty string is counted once in the empty file alone.
    have hempty : readText bytes = [] := by
      rw [h.replaced, hold, List.map_nil, count, if_pos rfl, content, List.length_map] at honce
      exact List.length_eq_zero_iff.mp (by omega)
    have hfront := (List.append_eq_nil_iff.mp (h.read.symm.trans hempty)).1
    have hle := hi.le
    rw [← hread, hempty] at hle
    rw [hfront]
    exact Nat.le_zero.mp ((Nat.le_add_right i _).trans hle)
  · rw [← hread] at hi
    obtain ⟨k, hk, rfl⟩ := Utf8.occursAt_of_encode hold hi
    have hfront : OccursAt old (readText bytes) front.length := ⟨front, back, h.read, rfl⟩
    rw [← occursAt_map scalar_injective, ← h.replaced] at hk hfront
    obtain rfl := occursAt_unique honce hseparate hk hfront
    rw [h.read, List.take_left]

theorem edit_faithful_iff (host : EditHost) (filePath : String) (oldString newString : Str)
    (bytes : List UInt8) :
    Faithful oldString newString bytes (toolEdit host filePath oldString newString bytes) ↔
      (Accepted host filePath oldString newString bytes → Plain oldString bytes) := by
  rcases toolEdit_cases host filePath oldString newString bytes with
    ⟨haccepted, newContent, hencode, hedited⟩ | ⟨hrefused, answer, hanswer, hedited⟩
  · obtain ⟨front, old, new, back, haround⟩ := exists_around haccepted.found hencode
    have hold : encode oldString = some (Utf8.encode old) := by
      rw [haround.replaced, encode_map_scalar]
    have hnew : encode newString = some (Utf8.encode new) := by
      rw [haround.inserted, encode_map_scalar]
    rw [Faithful, hedited, if_pos (by simp [reportsSuccess])]
    constructor
    · rintro ⟨oldBytes, newBytes, before, after, holdBytes, hnewBytes, hbytes, honly, hwritten⟩ -
      obtain rfl := Option.some.inj (hold.symm.trans holdBytes)
      obtain rfl := Option.some.inj (hnew.symm.trans hnewBytes)
      exact haround.plain hbytes hwritten honly
    · intro hplain
      obtain ⟨text, rfl, hreturn, hseparate⟩ := hplain haccepted
      have hread := readText_encode hreturn
      refine ⟨_, _, Utf8.encode front, Utf8.encode back, hold, hnew, ?_, ?_, haround.written⟩
      · rw [← Utf8.encode_append, ← Utf8.encode_append, ← haround.read, hread]
      · intro i hi
        refine haround.unique haccepted.once (congrArg Utf8.encode hread) ?_ hi
        rwa [content, hread]
  · rw [Faithful, hedited, hanswer]
    exact ⟨fun _ haccepted => absurd haccepted hrefused, fun _ => rfl⟩

def workspaceHost : EditHost where
  repr path := "'" ++ path ++ "'"
  resolved := .ok "/workspace/group/notes.txt"
  parent := .ok "/workspace/group"
  readError := none
  encodeError := ""
  writeError := none

-- A line that ends with a carriage return, before the one that is edited.
def carriageReturn : List UInt8 := [0x61, 0x0d, 0x0a, 0x62]

theorem carriage_return_lost :
    toolEdit workspaceHost "notes.txt" [.scalar 'b'] [.scalar 'c'] carriageReturn =
        ("[OK] Edited: notes.txt", [0x61, 0x0a, 0x63]) ∧
      ¬ Faithful [.scalar 'b'] [.scalar 'c'] carriageReturn
        (toolEdit workspaceHost "notes.txt" [.scalar 'b'] [.scalar 'c'] carriageReturn) := by
  have hedited : toolEdit workspaceHost "notes.txt" [.scalar 'b'] [.scalar 'c'] carriageReturn =
      ("[OK] Edited: notes.txt", [0x61, 0x0a, 0x63]) := by decide +kernel
  refine ⟨hedited, ?_⟩
  rw [hedited, Faithful, if_pos (by decide)]
  rintro ⟨oldBytes, newBytes, before, after, hold, hnew, hbytes, -, hwritten⟩
  obtain rfl : [0x62] = oldBytes := Option.some.inj hold
  obtain rfl : [0x63] = newBytes := Option.some.inj hnew
  have hlength := congrArg List.length hbytes
  have hshorter := congrArg List.length hwritten
  simp [carriageReturn] at hlength hshorter
  omega

end Outcome

end EvoClaw.AgentTools
