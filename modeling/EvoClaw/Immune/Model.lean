import EvoClaw.EventSystem.Runs
import EvoClaw.Json

-- The immune system of host/evolution/immune.py, and its table in host/db.py.
namespace EvoClaw.Immune

def SPAM_THRESHOLD : Nat := 10

def THREAT_BLOCK_THRESHOLD : Nat := 5

-- A row of immune_threats. Its key is the sender with the hash, and datetime('now') has whole
-- seconds.
structure Threat where
  senderJid : String
  patternHash : String
  threatType : String
  count : Nat := 1
  blocked : Bool := false
  firstSeen : Int
  lastSeen : Int
deriving DecidableEq

abbrev Table := List Threat

namespace Table

-- INSERT ... ON CONFLICT(sender_jid, pattern_hash) DO UPDATE
def upsert (table : Table) (senderJid patternHash threatType : String) (now : Int) : Table :=
  match table with
  | [] => [⟨senderJid, patternHash, threatType, 1, false, now, now⟩]
  | row :: rest =>
      if row.senderJid = senderJid ∧ row.patternHash = patternHash then
        { row with count := row.count + 1, lastSeen := now } :: rest
      else row :: upsert rest senderJid patternHash threatType now

-- SELECT SUM(count) ... WHERE sender_jid = ?
def total (table : Table) (senderJid : String) : Nat :=
  ((table.filter fun row => row.senderJid = senderJid).map Threat.count).sum

def isSenderBlocked (table : Table) (senderJid : String) : Bool :=
  table.any fun row => row.senderJid = senderJid ∧ row.blocked

def blockSender (table : Table) (senderJid : String) : Table :=
  table.map fun row => if row.senderJid = senderJid then { row with blocked := true } else row

def get (table : Table) (senderJid patternHash : String) : Option Threat :=
  table.find? fun row => row.senderJid = senderJid ∧ row.patternHash = patternHash

def getRecentThreatCount (table : Table) (senderJid patternHash : String) (hours : Nat)
    (now : Int) : Nat :=
  match table.get senderJid patternHash with
  | none => 0
  | some row => if now - 3600 * hours < row.lastSeen then row.count else 0

-- The table with the total of the sender. The sum is over the new row at least.
def recordImmuneThreat (table : Table) (senderJid patternHash threatType : String) (now : Int) :
    Table × Nat :=
  let written := table.upsert senderJid patternHash threatType now
  (written, written.total senderJid)

end Table

-- What lies outside of the module: whether a pattern is found in a stripped text, and the hash
-- of a text.
structure Config where
  matchesPattern : List Char → Bool
  hash : String → String

def Config.isInjection (config : Config) (content : String) : Bool :=
  config.matchesPattern (strip content.toList)

inductive Verdict where
  | safe
  | emptySender
  | blocked
  | injection
  | spam
deriving DecidableEq

-- What check_message returns.
def Verdict.result : Verdict → Bool × Option String
  | .safe => (true, none)
  | .emptySender => (false, some "empty_sender")
  | .blocked => (false, some "blocked")
  | .injection => (false, some "injection")
  | .spam => (false, some "spam")

def recordThreat (config : Config) (table : Table) (senderJid content threatType : String)
    (now : Int) : Table :=
  let (written, threatCount) :=
    table.recordImmuneThreat senderJid (config.hash content) threatType now
  if THREAT_BLOCK_THRESHOLD ≤ threatCount then written.blockSender senderJid else written

def trackMessage (table : Table) (senderJid contentHash : String) (now : Int) : Table :=
  (table.recordImmuneThreat senderJid contentHash "seen" now).1

def isSpam (table : Table) (senderJid contentHash : String) (now : Int) : Bool :=
  SPAM_THRESHOLD ≤ table.getRecentThreatCount senderJid contentHash 1 now

def checkMessage (config : Config) (table : Table) (content senderJid : String) (now : Int) :
    Table × Verdict :=
  if senderJid = "" then (table, .emptySender)
  else if table.isSenderBlocked senderJid then (table, .blocked)
  else if config.isInjection content then
    (recordThreat config table senderJid content "injection" now, .injection)
  else
    let tracked := trackMessage table senderJid (config.hash content) now
    if isSpam tracked senderJid (config.hash content) now then
      (recordThreat config tracked senderJid content "spam" now, .spam)
    else (tracked, .safe)

structure Call where
  content : String
  senderJid : String
  now : Int
deriving DecidableEq

-- A call with its answer, and whether its sender was blocked before.
structure Entry extends Call where
  wasBlocked : Bool
  verdict : Verdict
deriving DecidableEq

-- The calls so far, the last one first, are only a record.
structure State where
  table : Table := []
  log : List Entry := []

def step (config : Config) (state : State) (call : Call) : Option State :=
  let (table, verdict) := checkMessage config state.table call.content call.senderJid call.now
  some
    { table := table
      log := { call with
        wasBlocked := state.table.isSenderBlocked call.senderJid
        verdict := verdict } :: state.log }

namespace Table

variable {table : Table} {sender other hash hash' kind : String} {now : Int}

def countAt (table : Table) (senderJid patternHash : String) : Nat :=
  match table.get senderJid patternHash with
  | none => 0
  | some row => row.count

theorem total_cons (row : Threat) : total (row :: table) sender =
    (if row.senderJid = sender then row.count else 0) + total table sender := by
  simp only [total, List.filter_cons]
  split <;> simp_all

theorem total_upsert : (table.upsert sender hash kind now).total other =
    table.total other + if other = sender then 1 else 0 := by
  induction table with
  | nil =>
      simp only [upsert, total_cons, eq_comm (a := sender)]
      simp [total]
  | cons row table ih =>
      simp only [upsert]
      split
      · rename_i hkey
        simp only [total_cons, hkey.1, eq_comm (a := sender)]
        split <;> omega
      · rw [total_cons, total_cons, ih]
        omega

theorem get_upsert_self : ∃ row, (table.upsert sender hash kind now).get sender hash = some row ∧
    row.count = table.countAt sender hash + 1 ∧ row.lastSeen = now := by
  induction table with
  | nil => exact ⟨⟨sender, hash, kind, 1, false, now, now⟩, by simp [upsert, get], rfl, rfl⟩
  | cons row table ih =>
      by_cases hkey : row.senderJid = sender ∧ row.patternHash = hash
      · exact ⟨{ row with count := row.count + 1, lastSeen := now }, by simp [upsert, get, hkey],
          by simp [countAt, get, hkey], rfl⟩
      · obtain ⟨found, hget, hcount, hseen⟩ := ih
        refine ⟨found, ?_, ?_, hseen⟩
        · simpa [upsert, get, hkey] using hget
        · simpa [countAt, get, hkey] using hcount

theorem countAt_upsert_self :
    (table.upsert sender hash kind now).countAt sender hash = table.countAt sender hash + 1 := by
  obtain ⟨row, hget, hcount, -⟩ := 
    @get_upsert_self table sender hash kind now
  rw [← hcount, countAt, hget]

theorem get_upsert_of_ne (h : ¬ (other = sender ∧ hash' = hash)) :
    (table.upsert sender hash kind now).get other hash' = table.get other hash' := by
  induction table with
  | nil =>
      have hne : ¬ (sender = other ∧ hash = hash') := fun heq => h ⟨heq.1.symm, heq.2.symm⟩
      simp [upsert, get, hne]
  | cons row table ih =>
      simp only [upsert]
      split
      · rename_i hkey
        have hne : ¬ (row.senderJid = other ∧ row.patternHash = hash') := fun heq =>
          h ⟨heq.1.symm.trans hkey.1, heq.2.symm.trans hkey.2⟩
        simp [get, hne]
      · simp only [get] at ih ⊢
        rw [List.find?_cons, List.find?_cons, ih]

theorem countAt_upsert_of_ne (h : ¬ (other = sender ∧ hash' = hash)) :
    (table.upsert sender hash kind now).countAt other hash' = table.countAt other hash' := by
  simp only [countAt, get_upsert_of_ne h]

-- What was just recorded is within the hour.
theorem getRecentThreatCount_upsert {hours : Nat} (h : 0 < hours) :
    (table.upsert sender hash kind now).getRecentThreatCount sender hash hours now =
      table.countAt sender hash + 1 := by
  obtain ⟨row, hget, hcount, hseen⟩ := 
    @get_upsert_self table sender hash kind now
  simp only [getRecentThreatCount, hget, hseen, hcount]
  rw [if_pos (by omega)]

theorem isSenderBlocked_upsert : (table.upsert sender hash kind now).isSenderBlocked other =
    table.isSenderBlocked other := by
  induction table with
  | nil => simp [upsert, isSenderBlocked]
  | cons row table ih =>
      simp only [upsert]
      split
      · rfl
      · simp only [isSenderBlocked, List.any_cons] at ih ⊢
        rw [ih]

theorem total_blockSender : (table.blockSender sender).total other = table.total other := by
  induction table with
  | nil => rfl
  | cons row table ih =>
      have hcons : blockSender (row :: table) sender =
          (if row.senderJid = sender then { row with blocked := true } else row) ::
            blockSender table sender := rfl
      rw [hcons, total_cons, total_cons, ih]
      split <;> rfl

theorem countAt_blockSender :
    (table.blockSender sender).countAt other hash = table.countAt other hash := by
  have hget : (table.blockSender sender).get other hash = (table.get other hash).map fun row =>
      if row.senderJid = sender then { row with blocked := true } else row := by
    rw [get, blockSender, List.find?_map, get]
    congr 2
    funext row
    simp only [Function.comp_apply]
    split <;> rfl
  rw [countAt, hget, countAt]
  cases table.get other hash with
  | none => rfl
  | some row =>
      simp only [Option.map_some]
      split <;> rfl

theorem isSenderBlocked_blockSender_of_ne (h : other ≠ sender) :
    (table.blockSender sender).isSenderBlocked other = table.isSenderBlocked other := by
  induction table with
  | nil => rfl
  | cons row table ih =>
      simp only [isSenderBlocked, blockSender, List.map_cons, List.any_cons] at ih ⊢
      rw [ih]
      split
      · rename_i hrow
        simp [hrow, Ne.symm h]
      · rfl

theorem isSenderBlocked_blockSender_self (h : 0 < table.total sender) :
    (table.blockSender sender).isSenderBlocked sender = true := by
  induction table with
  | nil => cases h
  | cons row table ih =>
      by_cases hrow : row.senderJid = sender
      · simp [isSenderBlocked, blockSender, hrow]
      · rw [total_cons, if_neg hrow, Nat.zero_add] at h
        have hrest := ih h
        simp only [isSenderBlocked, blockSender, List.map_cons, List.any_cons] at hrest ⊢
        rw [hrest, Bool.or_true]

theorem countAt_le_total : table.countAt sender hash ≤ table.total sender := by
  induction table with
  | nil => exact Nat.zero_le _
  | cons row table ih =>
      rw [total_cons]
      by_cases hkey : row.senderJid = sender ∧ row.patternHash = hash
      · simp [countAt, get, hkey]
      · have hskip : countAt (row :: table) sender hash = countAt table sender hash := by
          simp [countAt, get, hkey]
        omega

end Table

end EvoClaw.Immune
