import EvoClaw.ContainerRunner.Output
import Mathlib.Algebra.Order.Ring.Rat
import Mathlib.Data.List.DropRight
import Mathlib.Data.Rat.Defs

-- The hot memory of a group and its writers. None of them suspends between reading the memory
-- and storing it.
namespace EvoClaw.Dream

open ContainerRunner (byteLength)

def HOT_MEMORY_MAX_BYTES : Nat := 8 * 1024

-- The longest beginning of a text that fits, which is where the walk back to a character
-- boundary ends.
def takeBytes (room : Nat) : List Char → List Char
  | [] => []
  | c :: rest => if c.utf8Size ≤ room then c :: takeBytes (room - c.utf8Size) rest else []

def safeTruncateUtf8 (text : List Char) (max_bytes : Nat) : List Char :=
  if byteLength text ≤ max_bytes then text else takeBytes max_bytes text

-- What update_hot_memory stores.
def updateHotMemory (content : List Char) : List Char :=
  if HOT_MEMORY_MAX_BYTES < byteLength content then safeTruncateUtf8 content HOT_MEMORY_MAX_BYTES
  else content

def rstrip (text : List Char) : List Char := text.rdropWhile isSpace

def MEMORY_KEYWORDS : List (String × List String × ℚ) :=
  [("decision", ["decided", "we will", "going with", "chosen", "agreed", "conclusion"], 9 / 10),
    ("preference", ["prefer", "always use", "don't like", "favorite", "want to", "please use"],
      85 / 100),
    ("milestone", ["completed", "finished", "shipped", "deployed", "released", "done"], 88 / 100),
    ("problem", ["error", "bug", "issue", "broken", "fail", "crash", "exception", "problem"],
      8 / 10),
    ("fact", ["is a", "defined as", "means", "equals", "located at", "runs on"], 7 / 10),
    ("technical", ["function", "class", "import", "async", "api", "endpoint", "schema"],
      65 / 100)]

-- _classify_entry of warm.py; `lower` is str.lower.
def classifyEntry (lower : List Char → List Char) (text : List Char) : String × ℚ :=
  MEMORY_KEYWORDS.foldl (fun best entry =>
    if entry.2.1.any (fun keyword => Text.contains (lower text) keyword.toList) ∧
        best.2 < entry.2.2
      then (entry.1, entry.2.2) else best) ("general", 1 / 2)

def PREVIEW : Nat := 500

-- msg[:500].replace("\n", " ")
def warmPreview (message : List Char) : List Char :=
  (message.take PREVIEW).map fun c => if c = '\n' then ' ' else c

-- The writers of the hot memory of a group besides the dream, with what they read elsewhere:
-- the date or the week as they print it, and how many warm logs they find or prune.
inductive Writer
  | appendWarmLog (user_msg assistant_msg : List Char)
  | runMicroSync (recent_logs : Nat) (today : List Char)
  | runDailyWrapup (recent_logs : Nat) (today : List Char)
  | runWeeklyCompound (pruned : Nat) (week : List Char)
  | memoryPatch (patch : List Char)

-- A text that the notes of a size limit are added to, unless they are there or too long.
def addNote (note current : List Char) : Option (List Char) :=
  if Text.contains current note then none
  else if byteLength (rstrip current ++ note) ≤ HOT_MEMORY_MAX_BYTES then
    some (updateHotMemory (rstrip current ++ note))
  else none

def decimal (n : Nat) : List Char := (toString n).toList

-- What the writer stores for a memory, if it stores anything.
def Writer.stores (lower : List Char → List Char) (writer : Writer) (current : List Char) :
    Option (List Char) :=
  match writer with
  | .appendWarmLog user_msg assistant_msg =>
      let combined := warmPreview user_msg ++ ' ' :: warmPreview assistant_msg
      let (memoryType, importance) := classifyEntry lower combined
      if 85 / 100 ≤ importance then
        let bullet := "- [".toList ++ memoryType.toList.map Char.toUpper ++ "] ".toList ++
          combined.take 150 ++ ['\n']
        let new_hot := rstrip current ++ '\n' :: bullet
        if byteLength new_hot ≤ HOT_MEMORY_MAX_BYTES then some (updateHotMemory new_hot) else none
      else none
  | .runMicroSync recent_logs today =>
      if recent_logs = 0 then none
      else addNote ("\n\n[Last sync: ".toList ++ today ++ "]\n".toList) current
  | .runDailyWrapup recent_logs today =>
      if recent_logs = 0 then none
      else addNote ("\n\n[Daily wrapup: ".toList ++ today ++ ", ".toList ++ decimal recent_logs ++
        " log entries]\n".toList) current
  | .runWeeklyCompound pruned week =>
      addNote ("\n[Weekly compound: ".toList ++ week ++ ", pruned ".toList ++ decimal pruned ++
        " old entries]\n".toList) current
  | .memoryPatch patch => if patch = [] then none else some (updateHotMemory patch)

theorem byteLength_takeBytes_le (room : Nat) (text : List Char) :
    byteLength (takeBytes room text) ≤ room := by
  induction text generalizing room with
  | nil => exact Nat.zero_le _
  | cons c rest ih =>
      unfold takeBytes
      split
      · next hfits =>
          have hrest := ih (room - c.utf8Size)
          simp only [byteLength, List.map_cons, List.sum_cons] at hrest ⊢
          omega
      · exact Nat.zero_le _

-- No stored memory is larger than the limit.
theorem byteLength_updateHotMemory_le (content : List Char) :
    byteLength (updateHotMemory content) ≤ HOT_MEMORY_MAX_BYTES := by
  unfold updateHotMemory
  split
  · next hlong =>
      rw [safeTruncateUtf8, if_neg (Nat.not_le.mpr hlong)]
      exact byteLength_takeBytes_le _ _
  · next hshort => exact Nat.not_lt.mp hshort

theorem addNote_eq_some {note current content : List Char} (h : addNote note current = some content) :
    byteLength content ≤ HOT_MEMORY_MAX_BYTES := by
  unfold addNote at h
  split_ifs at h
  cases h
  exact byteLength_updateHotMemory_le _

theorem byteLength_stores_le {lower : List Char → List Char} {writer : Writer}
    {current content : List Char} (h : writer.stores lower current = some content) :
    byteLength content ≤ HOT_MEMORY_MAX_BYTES := by
  cases writer with
  | appendWarmLog user_msg assistant_msg =>
      simp only [Writer.stores] at h
      split_ifs at h
      cases h
      exact byteLength_updateHotMemory_le _
  | runMicroSync recent_logs today =>
      simp only [Writer.stores] at h
      split_ifs at h
      exact addNote_eq_some h
  | runDailyWrapup recent_logs today =>
      simp only [Writer.stores] at h
      split_ifs at h
      exact addNote_eq_some h
  | runWeeklyCompound pruned week => exact addNote_eq_some h
  | memoryPatch patch =>
      simp only [Writer.stores] at h
      split_ifs at h
      cases h
      exact byteLength_updateHotMemory_le _

end EvoClaw.Dream
