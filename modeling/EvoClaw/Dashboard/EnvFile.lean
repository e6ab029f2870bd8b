import EvoClaw.LastWriter
import EvoClaw.Text.Blanks
import EvoClaw.Text.Search

-- The .env file, as host/env.py reads it and POST /api/env of the dashboard edits it.
namespace EvoClaw.Dashboard

open Text

-- config.EDITABLE_ENV_KEYS
def EDITABLE_ENV_KEYS : List (List Char) :=
  ["CLAUDE_API_KEY", "TELEGRAM_BOT_TOKEN", "WHATSAPP_TOKEN", "DISCORD_BOT_TOKEN",
    "SLACK_BOT_TOKEN", "GMAIL_CLIENT_ID", "GMAIL_CLIENT_SECRET", "GMAIL_REFRESH_TOKEN",
    "DASHBOARD_HOST", "DASHBOARD_PORT", "WEBPORTAL_PORT", "POLL_INTERVAL", "IPC_POLL_INTERVAL",
    "CONTAINER_IMAGE", "MAX_CONCURRENT_CONTAINERS", "ASSISTANT_NAME",
    "EVOLUTION_ENABLED"].map String.toList

-- [A-Z0-9_]
def isKeyChar (c : Char) : Bool :=
  let code := c.toNat
  (0x41 ≤ code ∧ code ≤ 0x5a) ∨ (0x30 ≤ code ∧ code ≤ 0x39) ∨ code = 0x5f

-- The groups of _ENV_LINE, ^\s*([A-Z0-9_]+)\s*=\s*(.*?)\s*$. No character of a key is a blank or
-- an equals sign, so that the match takes all of them.
def matchEnvLine (line : List Char) : Option (List Char × List Char) :=
  let line := line.dropWhile isSpace
  let key := line.takeWhile isKeyChar
  match (line.dropWhile isKeyChar).dropWhile isSpace with
  | '=' :: val => if key = [] then none else some (key, strip val)
  | _ => none

-- The value without its quotes, or without the comment behind it.
def unquote (val : List Char) : List Char :=
  if 2 ≤ val.length ∧ (val.head? = some '"' ∨ val.head? = some '\x27') ∧ val.getLast? = val.head? then
    (val.drop 1).dropLast
  else if val.head? = some '#' then []
  else
    match find [' ', '#'] val with
    | some i => (val.take i).rdropWhile isSpace
    | none => val

-- What read_env_file takes from a line.
def envEntry (line : List Char) : Option (List Char × List Char) :=
  let line := strip line
  if line = [] ∨ line.head? = some '#' then none
  else (matchEnvLine line).map fun entry => (entry.1, unquote entry.2)

abbrev Env := List Char → Option (List Char)

def readEnvLine (keys : List (List Char)) (result : Env) (line : List Char) : Env :=
  match envEntry line with
  | some (key, val) => if keys.contains key then Function.update result key (some val) else result
  | none => result

-- There may be no file. The newline translation of read_text makes no difference to the lines.
def linesOf (file : Option (List Char)) : List (List Char) :=
  match file with
  | some text => splitlines text
  | none => []

def readEnvFile (keys : List (List Char)) (file : Option (List Char)) : Env :=
  (linesOf file).foldl (readEnvLine keys) fun _ => none

structure EnvBody where
  key : List Char := []
  value : List Char := []

-- The value that the handler writes.
def EnvBody.cleaned (body : EnvBody) : List Char :=
  (strip body.value).filter fun c => c ≠ '\r' ∧ c ≠ '\n' ∧ c ≠ '\x00'

def assignment (key value : List Char) : List Char :=
  key ++ '=' :: '"' :: (value ++ ['"'])

-- line.strip().startswith(f"\x7bkey\x7d=")
def begins (key line : List Char) : Bool :=
  (key ++ ['=']).isPrefixOf (strip line)

def rewritten (key value line : List Char) : List Char :=
  if begins key line then assignment key value else line

def editLines (key value : List Char) (lines : List (List Char)) : List (List Char) :=
  let newLines := lines.map (rewritten key value)
  if lines.any (begins key) then newLines else newLines ++ [assignment key value]

-- POST /api/env: the text that is written, or the error that is answered instead.
def postEnv (file : Option (List Char)) (body : EnvBody) : Except String (List Char) :=
  let key := strip body.key
  if key = [] then .error "key required"
  else if ! EDITABLE_ENV_KEYS.contains key then
    .error ("Key '" ++ String.ofList key ++ "' is not editable via dashboard")
  else .ok (joinLines (editLines key body.cleaned (linesOf file)))

-- The edit sets the key and nothing else.
def Edited (file : Option (List Char)) (key value text : List Char) : Prop :=
  ∀ keys, (key ∈ keys → readEnvFile keys (some text) key = some value) ∧
    ∀ other, other ≠ key → readEnvFile keys (some text) other = readEnvFile keys file other

-- What a line sets a key to.
def setting (key line : List Char) : Option (List Char) :=
  ((envEntry line).filter fun entry => entry.1 = key).map Prod.snd

-- The writer would replace the line that decides for the reader, or that line has the value already.
def Decides (key value : List Char) (lines : List (List Char)) : Prop :=
  ∀ line ∈ (lines.filter fun line => (setting key line).isSome).getLast?,
    begins key line = true ∨ setting key line = some value

instance (key value : List Char) (lines : List (List Char)) : Decidable (Decides key value lines) :=
  inferInstanceAs (Decidable (∀ line ∈ List.getLast? _, _ ∨ _))

section Reading

variable {key other value line text : List Char} {keys lines : List (List Char)}
  {file : Option (List Char)}

theorem setting_eq_some_iff : setting key line = some value ↔ envEntry line = some (key, value) := by
  unfold setting
  constructor
  · intro h
    obtain ⟨⟨named, val⟩, hentry, rfl⟩ := Option.map_eq_some_iff.mp h
    obtain ⟨hentry, hnamed⟩ := Option.filter_eq_some_iff.mp hentry
    have hkey : named = key := of_decide_eq_true hnamed
    rw [hentry, ← hkey]
  · intro h
    rw [h, Option.filter_some, if_pos (decide_eq_true rfl)]
    rfl

theorem setting_eq_none (h : envEntry line = some (key, value)) (hother : other ≠ key) :
    setting other line = none := by
  cases hsetting : setting other line with
  | none => rfl
  | some val =>
      rw [setting_eq_some_iff, h] at hsetting
      cases hsetting
      exact absurd rfl hother

theorem readEnvLine_apply (result : Env) :
    readEnvLine keys result line key =
      if key ∈ keys then ((setting key line).map some).getD (result key) else result key := by
  unfold readEnvLine
  cases hentry : envEntry line with
  | none => simp [setting, hentry]
  | some entry =>
      obtain ⟨named, val⟩ := entry
      by_cases hnamed : named = key
      · subst hnamed
        rw [setting_eq_some_iff.mpr hentry]
        by_cases hmem : named ∈ keys <;> simp [hmem]
      · have hother : key ≠ named := fun h => hnamed h.symm
        rw [setting_eq_none hentry hother]
        by_cases hmem : named ∈ keys <;> simp [hmem, Function.update_of_ne hother]

-- Of the lines that set a key the last one has its way.
theorem readEnvFile_apply :
    readEnvFile keys file key =
      if key ∈ keys then
        LastWriter.value (fun line => (setting key line).map some) none (linesOf file)
      else none := by
  have hfold (lines : List (List Char)) (result : Env) :
      lines.foldl (readEnvLine keys) result key =
        if key ∈ keys then
          LastWriter.value (fun line => (setting key line).map some) (result key) lines
        else result key := by
    induction lines generalizing result with
    | nil => simp
    | cons line lines ih =>
        rw [List.foldl_cons, ih, readEnvLine_apply]
        split_ifs <;> rfl
  exact hfold (linesOf file) fun _ => none

theorem mem_of_mem_unquote {c : Char} (h : c ∈ unquote text) : c ∈ text := by
  unfold unquote at h
  split at h
  · exact List.mem_of_mem_drop (List.mem_of_mem_dropLast h)
  split at h
  · cases h
  split at h
  · exact List.mem_of_mem_take ((List.rdropWhile_prefix isSpace _).subset h)
  · exact h

theorem mem_of_matchEnvLine {entry : List Char × List Char} (h : matchEnvLine line = some entry)
    {c : Char} (hc : c ∈ entry.2) : c ∈ line := by
  unfold matchEnvLine at h
  dsimp only at h
  split at h
  · next val hval =>
      split at h
      · cases h
      · cases h
        have hafter : c ∈ '=' :: val := List.mem_cons_of_mem _ (mem_of_mem_strip hc)
        rw [← hval] at hafter
        exact (List.dropWhile_suffix _).subset ((List.dropWhile_suffix _).subset
          ((List.dropWhile_suffix _).subset hafter))
  · cases h

-- A value stands in one line.
theorem mem_of_setting (h : setting key line = some value) {c : Char} (hc : c ∈ value) : c ∈ line := by
  rw [setting_eq_some_iff] at h
  unfold envEntry at h
  dsimp only at h
  split at h
  · cases h
  · obtain ⟨entry, hentry, heq⟩ := Option.map_eq_some_iff.mp h
    cases heq
    exact mem_of_mem_strip (mem_of_matchEnvLine hentry (mem_of_mem_unquote hc))

theorem not_break_of_readEnvFile (h : readEnvFile keys (some text) key = some value) :
    ∀ c ∈ value, isLineBreak c = false := by
  rw [readEnvFile_apply] at h
  split at h
  · obtain ⟨-, hnone⟩ | ⟨line, hmem, hline⟩ := LastWriter.value_cases
        (fun line => (setting key line).map some) none (linesOf (some text))
    · rw [hnone] at h
      cases h
    · rw [h] at hline
      obtain ⟨v, hsetting, heq⟩ := Option.map_eq_some_iff.mp hline
      cases heq
      exact fun c hc => not_break_of_mem_splitlines hmem c (mem_of_setting hsetting hc)
  · cases h

end Reading

section Writing

variable {key other value line : List Char} {lines : List (List Char)}

-- A key that can be written down.
def IsKey (key : List Char) : Prop :=
  key ≠ [] ∧ ∀ c ∈ key, isKeyChar c = true

instance : DecidablePred IsKey := fun key =>
  decidable_of_iff ((! key.isEmpty && key.all isKeyChar) = true) (by simp [IsKey])

theorem editable_isKey : ∀ key ∈ EDITABLE_ENV_KEYS, IsKey key := by decide

theorem not_space_of_isKeyChar {c : Char} (h : isKeyChar c = true) : isSpace c = false := by
  simp only [isKeyChar, isSpace, decide_eq_true_eq, decide_eq_false_iff_not] at h ⊢
  omega

theorem ne_hash_of_isKeyChar {c : Char} (h : isKeyChar c = true) : c ≠ '#' := by
  rintro rfl
  exact absurd h (by decide)

theorem matchEnvLine_of_isKey (hkey : IsKey key) (val : List Char) :
    matchEnvLine (key ++ '=' :: val) = some (key, strip val) := by
  obtain ⟨hne, hchars⟩ := hkey
  have hblank : (key ++ '=' :: val).dropWhile isSpace = key ++ '=' :: val := by
    obtain ⟨c, rest, rfl⟩ := List.exists_cons_of_ne_nil hne
    have hc : isSpace c = false := not_space_of_isKeyChar (hchars c List.mem_cons_self)
    exact List.dropWhile_cons_of_neg (by simp [hc])
  have htake : (key ++ '=' :: val).takeWhile isKeyChar = key := by
    rw [List.takeWhile_append_of_pos hchars, List.takeWhile_cons_of_neg (by decide), List.append_nil]
  have hdrop : ((key ++ '=' :: val).dropWhile isKeyChar).dropWhile isSpace = '=' :: val := by
    rw [List.dropWhile_append_of_pos hchars, List.dropWhile_cons_of_neg (by decide),
      List.dropWhile_cons_of_neg (by decide)]
  simp only [matchEnvLine, hblank, htake, hdrop]
  exact if_neg hne

theorem envEntry_of_isKey (hkey : IsKey key) {val : List Char} (h : strip line = key ++ '=' :: val) :
    envEntry line = some (key, unquote (strip val)) := by
  have hskip : ¬ (key ++ '=' :: val = [] ∨ (key ++ '=' :: val).head? = some '#') := by
    obtain ⟨c, rest, rfl⟩ := List.exists_cons_of_ne_nil hkey.1
    have hhash : c ≠ '#' := ne_hash_of_isKeyChar (hkey.2 c List.mem_cons_self)
    simp [hhash]
  simp only [envEntry, h, matchEnvLine_of_isKey hkey, if_neg hskip]
  rfl

theorem envEntry_of_begins (hkey : IsKey key) (h : begins key line = true) :
    ∃ val, envEntry line = some (key, val) := by
  obtain ⟨rest, hrest⟩ := List.isPrefixOf_iff_prefix.mp h
  rw [List.append_assoc, List.singleton_append] at hrest
  exact ⟨_, envEntry_of_isKey hkey hrest.symm⟩

theorem unquote_quoted (value : List Char) : unquote ('"' :: (value ++ ['"'])) = value := by
  have hlast : ('"' :: (value ++ ['"'])).getLast? = some '"' := by
    rw [← List.cons_append, List.getLast?_concat]
  unfold unquote
  rw [if_pos (by simp [hlast]), List.drop_one, List.tail_cons, List.dropLast_concat]

theorem strip_assignment (hkey : IsKey key) (value : List Char) :
    strip (assignment key value) = assignment key value := by
  obtain ⟨c, rest, rfl⟩ := List.exists_cons_of_ne_nil hkey.1
  have hc : isSpace c = false := not_space_of_isKeyChar (hkey.2 c List.mem_cons_self)
  exact strip_eq_self hc (by simp [show isSpace '"' = false by decide])

theorem setting_assignment (hkey : IsKey key) (value : List Char) :
    setting key (assignment key value) = some value := by
  have hquoted : strip ('"' :: (value ++ ['"'])) = '"' :: (value ++ ['"']) :=
    strip_eq_self (by decide) (by simp [show isSpace '"' = false by decide])
  rw [setting_eq_some_iff, envEntry_of_isKey hkey (strip_assignment hkey value), hquoted,
    unquote_quoted]

theorem setting_rewritten_of_ne (hkey : IsKey key) (hother : other ≠ key) :
    setting other (rewritten key value line) = setting other line := by
  unfold rewritten
  split
  · next hbegins =>
      obtain ⟨old, hold⟩ := envEntry_of_begins hkey hbegins
      rw [setting_eq_none hold hother]
      exact setting_eq_none (setting_eq_some_iff.mp (setting_assignment hkey value)) hother
  · rfl

theorem isSome_setting_rewritten (hkey : IsKey key) :
    (setting key (rewritten key value line)).isSome = (setting key line).isSome := by
  unfold rewritten
  split
  · next hbegins =>
      obtain ⟨old, hold⟩ := envEntry_of_begins hkey hbegins
      rw [setting_eq_some_iff.mpr hold, setting_assignment hkey]
      rfl
  · rfl

end Writing

section Editing

variable {key other value line text : List Char} {keys lines : List (List Char)}
  {file : Option (List Char)} {body : EnvBody}

theorem editLines_ne_nil : editLines key value lines ≠ [] := by
  unfold editLines
  dsimp only
  split
  · next hany =>
      obtain ⟨line, hmem, -⟩ := List.any_eq_true.mp hany
      simpa using List.ne_nil_of_mem hmem
  · simp

theorem not_break_of_mem_linesOf (h : line ∈ linesOf file) : ∀ c ∈ line, isLineBreak c = false := by
  cases file with
  | none => cases h
  | some text => exact not_break_of_mem_splitlines h

theorem not_break_assignment (hkey : IsKey key) (hvalue : ∀ c ∈ value, isLineBreak c = false) :
    ∀ c ∈ assignment key value, isLineBreak c = false := by
  have hequals : isLineBreak '=' = false := by decide
  have hquote : isLineBreak '"' = false := by decide
  intro c hc
  rcases List.mem_append.mp hc with hc | hc
  · cases hbreak : isLineBreak c with
    | false => rfl
    | true => exact absurd (isSpace_of_isLineBreak hbreak) (by simp [not_space_of_isKeyChar (hkey.2 c hc)])
  rcases List.mem_cons.mp hc with rfl | hc
  · exact hequals
  rcases List.mem_cons.mp hc with rfl | hc
  · exact hquote
  rcases List.mem_append.mp hc with hc | hc
  · exact hvalue c hc
  · rw [List.mem_singleton.mp hc]
    exact hquote

theorem mem_editLines (h : line ∈ editLines key value lines) :
    line ∈ lines ∨ line = assignment key value := by
  have hmap (h : line ∈ lines.map (rewritten key value)) : line ∈ lines ∨ line = assignment key value := by
    obtain ⟨old, hold, rfl⟩ := List.mem_map.mp h
    unfold rewritten
    split
    · exact .inr rfl
    · exact .inl hold
  unfold editLines at h
  dsimp only at h
  split at h
  · exact hmap h
  · rcases List.mem_append.mp h with h | h
    · exact hmap h
    · exact .inr (List.mem_singleton.mp h)

-- The lines that the reader finds are the lines that were written.
theorem linesOf_edited (hkey : IsKey key) (hvalue : ∀ c ∈ value, isLineBreak c = false) :
    linesOf (some (joinLines (editLines key value (linesOf file)))) =
      editLines key value (linesOf file) := by
  refine splitlines_joinLines editLines_ne_nil fun line hline => ?_
  rcases mem_editLines hline with hold | rfl
  · exact not_break_of_mem_linesOf hold
  · exact not_break_assignment hkey hvalue

-- No other key is set or unset.
theorem value_editLines_of_ne (hkey : IsKey key) (hother : other ≠ key) :
    LastWriter.value (fun line => (setting other line).map some) none (editLines key value lines) =
      LastWriter.value (fun line => (setting other line).map some) none lines := by
  have hassignment : setting other (assignment key value) = none :=
    setting_eq_none (setting_eq_some_iff.mp (setting_assignment hkey value)) hother
  have hmap : (fun line => (setting other line).map some) ∘ rewritten key value =
      fun line => (setting other line).map some := by
    funext line
    exact congrArg (Option.map some) (setting_rewritten_of_ne hkey hother)
  unfold editLines
  dsimp only
  split
  · rw [LastWriter.value_map, hmap]
  · rw [LastWriter.value_concat, LastWriter.value_map, hmap, hassignment]
    rfl

theorem value_editLines (hkey : IsKey key) :
    LastWriter.value (fun line => (setting key line).map some) none (editLines key value lines) =
        some value ↔
      (lines.any (begins key) = true → Decides key value lines) := by
  unfold editLines
  dsimp only
  split
  · next hany =>
      obtain ⟨first, hfirst, hbegins⟩ := List.any_eq_true.mp hany
      obtain ⟨old, hold⟩ := envEntry_of_begins hkey hbegins
      have hsets : first ∈ lines.filter fun line => (setting key line).isSome :=
        List.mem_filter.mpr ⟨hfirst, by rw [setting_eq_some_iff.mpr hold]; rfl⟩
      have hlast := List.getLast?_eq_some_getLast (List.ne_nil_of_mem hsets)
      generalize List.getLast _ (List.ne_nil_of_mem hsets) = last at hlast
      have hwrites : (lines.filter fun line =>
          (((fun line => (setting key line).map some) ∘ rewritten key value) line).isSome).getLast? =
            some last := by
        simp only [Function.comp_apply, Option.isSome_map, isSome_setting_rewritten hkey]
        exact hlast
      have hdecides : Decides key value lines ↔
          begins key last = true ∨ setting key last = some value := by
        unfold Decides
        rw [hlast]
        simp
      rw [LastWriter.value_map, LastWriter.value_of_getLast? hwrites, hdecides, Function.comp_apply,
        rewritten]
      by_cases hlastBegins : begins key last = true
      · rw [if_pos hlastBegins, setting_assignment hkey]
        simp [hlastBegins]
      · rw [if_neg hlastBegins]
        have hset : (setting key last).isSome = true :=
          (List.mem_filter.mp (List.mem_of_getLast? hlast)).2
        obtain ⟨v, hv⟩ := Option.isSome_iff_exists.mp hset
        simp [hany, hlastBegins, hv]
  · next hany =>
      rw [LastWriter.value_concat, setting_assignment hkey]
      simp [hany]

-- The edit does what it should if and only if the value stands in one line and the line that sets
-- the key last is one that the writer replaces, or there is no line to replace.
theorem edited_iff (h : postEnv file body = .ok text) :
    Edited file (strip body.key) body.cleaned text ↔
      (∀ c ∈ body.cleaned, isLineBreak c = false) ∧
        ((linesOf file).any (begins (strip body.key)) = true →
          Decides (strip body.key) body.cleaned (linesOf file)) := by
  unfold postEnv at h
  dsimp only at h
  split at h
  · cases h
  split at h
  · cases h
  next hmem =>
  cases h
  have hkey : IsKey (strip body.key) := editable_isKey _ (by simpa using hmem)
  constructor
  · intro hedited
    have hread := (hedited [strip body.key]).1 (List.mem_singleton.mpr rfl)
    have hvalue := not_break_of_readEnvFile hread
    rw [readEnvFile_apply, if_pos (List.mem_singleton.mpr rfl), linesOf_edited hkey hvalue,
      value_editLines hkey] at hread
    exact ⟨hvalue, hread⟩
  · rintro ⟨hvalue, hdecides⟩ keys
    constructor
    · intro hkeys
      rw [readEnvFile_apply, if_pos hkeys, linesOf_edited hkey hvalue, value_editLines hkey]
      exact hdecides
    · intro other hother
      rw [readEnvFile_apply, readEnvFile_apply, linesOf_edited hkey hvalue,
        value_editLines_of_ne hkey hother]

def NAME : List Char := "ASSISTANT_NAME".toList

def quotedFile : List Char := "ASSISTANT_NAME='a b'\nPORT = 80 # http".toList

theorem edited_quoted :
    Edited (some quotedFile) NAME "Eve".toList
      "ASSISTANT_NAME=\"Eve\"\nPORT = 80 # http\n".toList := by
  have hpost : postEnv (some quotedFile) { key := NAME, value := " Eve\n".toList } =
      .ok "ASSISTANT_NAME=\"Eve\"\nPORT = 80 # http\n".toList := by decide
  exact (edited_iff hpost).mpr ⟨none_of_all (by decide), fun _ => by decide⟩

-- The writer replaces the first line, and the reader goes by the second one.
def spacedFile : List Char := "ASSISTANT_NAME=a\nASSISTANT_NAME = b\n".toList

theorem spaced_assignment_stays :
    postEnv (some spacedFile) { key := NAME, value := ['c'] } =
        .ok "ASSISTANT_NAME=\"c\"\nASSISTANT_NAME = b\n".toList ∧
      readEnvFile [NAME] (some "ASSISTANT_NAME=\"c\"\nASSISTANT_NAME = b\n".toList) NAME =
        some ['b'] ∧
      ¬ Edited (some spacedFile) NAME ['c'] "ASSISTANT_NAME=\"c\"\nASSISTANT_NAME = b\n".toList := by
  have hread : readEnvFile [NAME] (some "ASSISTANT_NAME=\"c\"\nASSISTANT_NAME = b\n".toList) NAME =
      some ['b'] := by decide
  refine ⟨by decide, hread, fun h => ?_⟩
  have hc := (h [NAME]).1 (List.mem_singleton.mpr rfl)
  rw [hread] at hc
  exact absurd hc (by decide)

end Editing

end EvoClaw.Dashboard
