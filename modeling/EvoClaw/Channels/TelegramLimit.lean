import EvoClaw.Channels.SendMessage
import EvoClaw.Text.Chunks

-- What route_outbound has Telegram handed, and the length that Telegram allows.
namespace EvoClaw.Channels.Telegram

open Text Router

-- Telegram's hard limit, in UTF-16 code units.
def HARD_LIMIT : Nat := 4096

-- A character outside of the basic plane.
def astral (c : Char) : Bool := 0x10000 ≤ c.toNat

def utf16Length (text : List Char) : Nat :=
  (text.map fun c => if astral c then 2 else 1).sum

def Fits (message : List Char) : Prop :=
  message ≠ [] ∧ utf16Length message ≤ HARD_LIMIT

-- The texts that the loop of send_message calls bot.send_message with, whatever comes of it.
def handPieces (first : Nat → Answer) : Nat → List (List Char) → List (List Char)
  | _, [] => []
  | i, piece :: rest =>
      match first i with
      | .ok => piece :: handPieces first (i + 1) rest
      | .retryAfter => piece :: piece :: handPieces first (i + 1) rest
      | .forbidden => [piece]
      | .transient => piece :: piece :: handPieces first (i + 1) rest
      | .raised => piece :: handPieces first (i + 1) rest

-- send_message, with the texts that are handed over in the place of those that are accepted.
def handing (world : World) (jid : String) : Send := fun n text =>
  { accepted :=
      if world.app n ∧ (chatId jid).isSome then handPieces (world.first n) 0 (pieces text) else []
    raised := false }

def handed (world : World) (jid : String) (text : List Char) : List (List Char) :=
  (routeOutbound (handing world jid) text).accepted

-- What is left of a reply where a message begins, and the message.
abbrev MessageBegins (text rest : List Char) : Prop :=
  Begins '\n' TELEGRAM_MAX_LEN 0 text rest

def messageAt (rest : List Char) : List Char :=
  stretch isSpace '\n' TELEGRAM_MAX_LEN 0 rest

variable {text chunk message rest : List Char} {world : World} {jid : String}

section Handing

theorem utf16Length_eq (text : List Char) : utf16Length text = text.length + text.countP astral := by
  induction text with
  | nil => rfl
  | cons c text ih =>
      unfold utf16Length at ih ⊢
      rw [List.map_cons, List.sum_cons, ih, List.length_cons, List.countP_cons]
      cases astral c <;> simp <;> omega

theorem pieces_of_short (h : text.length ≤ _TELEGRAM_MAX_LEN) :
    pieces text = if text = [] then [] else [text] := by
  unfold pieces splitPieces
  cases text with
  | nil => rfl
  | cons c text =>
      rw [List.length_cons, chunksFrom, if_neg (List.cons_ne_nil c text), if_pos h,
        if_neg (List.cons_ne_nil c text)]
      rfl

theorem mem_handPieces_singleton (first : Nat → Answer) :
    message ∈ handPieces first 0 [chunk] ↔ message = chunk := by
  unfold handPieces
  cases first 0 <;> simp [handPieces]

theorem length_le_of_mem_splitMessage (h : chunk ∈ splitMessage text) :
    chunk.length ≤ TELEGRAM_MAX_LEN := by
  unfold splitMessage at h
  split at h
  · rwa [List.mem_singleton.mp h]
  · exact length_le_of_mem_chunksFrom (List.mem_filter.mp h).1

theorem mem_handing {n : Nat} (hlength : chunk.length ≤ _TELEGRAM_MAX_LEN) :
    message ∈ (handing world jid n chunk).accepted ↔
      message = chunk ∧ (chatId jid).isSome = true ∧ message ≠ [] ∧ world.app n = true := by
  have haccepted : (handing world jid n chunk).accepted =
      if world.app n ∧ (chatId jid).isSome then
        handPieces (world.first n) 0 (if chunk = [] then [] else [chunk])
      else [] := by
    rw [← pieces_of_short hlength]
    rfl
  rw [haccepted]
  by_cases hready : world.app n = true ∧ (chatId jid).isSome = true
  · rw [if_pos hready]
    by_cases hchunk : chunk = []
    · rw [if_pos hchunk]
      constructor
      · intro h
        cases h
      · rintro ⟨rfl, -, hne, -⟩
        exact absurd hchunk hne
    · rw [if_neg hchunk, mem_handPieces_singleton]
      constructor
      · rintro rfl
        exact ⟨rfl, hready.2, hchunk, hready.1⟩
      · exact fun h => h.1
  · rw [if_neg hready]
    constructor
    · intro h
      cases h
    · rintro ⟨-, hjid, -, happ⟩
      exact absurd ⟨happ, hjid⟩ hready

-- The router has cut the text already, so that a chunk is a message.
theorem mem_handed : message ∈ handed world jid text ↔
    (chatId jid).isSome = true ∧ message ≠ [] ∧
      ∃ n, (message, n) ∈ (splitMessage (formatOutbound text)).zipIdx ∧ world.app n = true := by
  have hlength {chunk : List Char} {n : Nat}
      (h : (chunk, n) ∈ (splitMessage (formatOutbound text)).zipIdx) :
      chunk.length ≤ _TELEGRAM_MAX_LEN :=
    length_le_of_mem_splitMessage (List.fst_mem_of_mem_zipIdx h)
  unfold handed routeOutbound
  rw [routeChunks_of_silent fun _ _ => rfl, List.mem_flatMap]
  constructor
  · rintro ⟨⟨chunk, n⟩, hentry, hmem⟩
    obtain ⟨rfl, hjid, hne, happ⟩ := (mem_handing (hlength hentry)).mp hmem
    exact ⟨hjid, hne, n, hentry, happ⟩
  · rintro ⟨hjid, hne, n, hentry, happ⟩
    exact ⟨(message, n), hentry, (mem_handing (hlength hentry)).mpr ⟨rfl, hjid, hne, happ⟩⟩

theorem messageAt_of_short (h : rest.length ≤ TELEGRAM_MAX_LEN) : messageAt rest = rest :=
  if_pos h

theorem mem_splitMessage_iff (hne : chunk ≠ []) : chunk ∈ splitMessage text ↔
    ∃ rest, MessageBegins text rest ∧ chunk = messageAt rest := by
  unfold splitMessage messageAt
  split
  · next hshort =>
      rw [List.mem_singleton]
      constructor
      · rintro rfl
        exact ⟨chunk, .first, (if_pos hshort).symm⟩
      · rintro ⟨rest, hbegins, rfl⟩
        rcases begins_iff.mp hbegins with rfl | ⟨hlong, -⟩
        · exact if_pos hshort
        · omega
  · rw [List.mem_filter, mem_chunksFrom_iff (by decide) (Nat.le_refl _)]
    constructor
    · rintro ⟨⟨rest, hbegins, -, hchunk⟩, -⟩
      exact ⟨rest, hbegins, hchunk⟩
    · rintro ⟨rest, hbegins, rfl⟩
      refine ⟨⟨rest, hbegins, ?_, rfl⟩, decide_eq_true hne⟩
      rintro rfl
      exact hne (List.prefix_nil.mp (stretch_isPrefix []))

end Handing

section Limit

-- The message that begins here leaves room for the second units of its characters.
def HasRoom (rest : List Char) : Prop :=
  (messageAt rest).length + (messageAt rest).countP astral ≤ HARD_LIMIT

theorem fits_of_room (hroom : ∀ rest, MessageBegins (formatOutbound text) rest → HasRoom rest)
    (h : message ∈ handed world jid text) : Fits message := by
  obtain ⟨-, hne, n, hentry, -⟩ := mem_handed.mp h
  obtain ⟨rest, hbegins, rfl⟩ := (mem_splitMessage_iff hne).mp (List.fst_mem_of_mem_zipIdx hentry)
  refine ⟨hne, ?_⟩
  rw [utf16Length_eq]
  exact hroom rest hbegins

def willing : World where
  app := fun _ => true
  first := fun _ _ => .ok
  again := fun _ _ => .ok

-- Every message of the reply is handed over.
theorem messageAt_mem_handed (hjid : (chatId jid).isSome = true)
    (hbegins : MessageBegins (formatOutbound text) rest) (hne : messageAt rest ≠ []) :
    messageAt rest ∈ handed willing jid text := by
  have hmem := (mem_splitMessage_iff hne).mpr ⟨rest, hbegins, rfl⟩
  rw [← List.zipIdx_map_fst 0 (splitMessage (formatOutbound text))] at hmem
  obtain ⟨⟨chunk, n⟩, hentry, heq⟩ := List.mem_map.mp hmem
  cases heq
  exact mem_handed.mpr ⟨hjid, hne, n, hentry, rfl⟩

theorem room_of_fits (hjid : (chatId jid).isSome = true)
    (hfits : ∀ message ∈ handed willing jid text, Fits message)
    (hbegins : MessageBegins (formatOutbound text) rest) : HasRoom rest := by
  unfold HasRoom
  by_cases hne : messageAt rest = []
  · rw [hne]
    exact Nat.zero_le _
  · have hfit := (hfits _ (messageAt_mem_handed hjid hbegins hne)).2
    rwa [utf16Length_eq] at hfit

-- Whatever Telegram answers, what it is handed is not empty and fits, if and only if the chat has no
-- id, or every message of the reply has room for its characters outside of the basic plane.
theorem handed_fits_iff (jid : String) (text : List Char) :
    (∀ world, ∀ message ∈ handed world jid text, Fits message) ↔
      ((chatId jid).isSome = true →
        ∀ rest, MessageBegins (formatOutbound text) rest → HasRoom rest) := by
  constructor
  · intro hfits hjid rest hbegins
    exact room_of_fits hjid (hfits willing) hbegins
  · intro hroom world message hmem
    exact fits_of_room (hroom (mem_handed.mp hmem).1) hmem

-- It is enough that no stretch of the reply that a message could be made of is too long.
theorem fits_of_windows
    (hwindows : ∀ window, window <:+: formatOutbound text → window.length ≤ TELEGRAM_MAX_LEN →
      utf16Length window ≤ HARD_LIMIT)
    (h : message ∈ handed world jid text) : Fits message := by
  refine fits_of_room (fun rest hbegins => ?_) h
  unfold HasRoom
  rw [← utf16Length_eq]
  exact hwindows _ ((stretch_isPrefix rest).isInfix.trans hbegins.suffix.isInfix)
    (length_stretch_le rest)

-- The margin is for 96 characters outside of the basic plane.
theorem fits_of_few_astral (hfew : (formatOutbound text).countP astral ≤ 96)
    (h : message ∈ handed world jid text) : Fits message := by
  refine fits_of_windows (fun window hinfix hlength => ?_) h
  have hcount : window.countP astral ≤ (formatOutbound text).countP astral :=
    hinfix.sublist.countP_le
  rw [utf16Length_eq]
  unfold TELEGRAM_MAX_LEN at hlength
  unfold HARD_LIMIT
  omega

end Limit

section Emoji

def grin : Char := Char.ofNat 0x1f600

theorem removeInternal_of_notMem (h : '<' ∉ text) : removeInternal 0 text = text := by
  have hopening : internalOpening = '<' :: "internal>".toList := rfl
  induction text with
  | nil => rfl
  | cons c text ih =>
      have hno : ¬ internalOpening <+: c :: text := by
        intro hbegins
        rw [hopening, List.cons_prefix_cons] at hbegins
        exact h (hbegins.1 ▸ List.mem_cons_self)
      rw [removeInternal, if_neg hno, ih fun hmem => h (List.mem_cons_of_mem c hmem)]

theorem formatOutbound_replicate (n : Nat) :
    formatOutbound (List.replicate n grin) = List.replicate n grin := by
  have hspace : isSpace grin = false := by decide
  have hbracket : '<' ∉ List.replicate n grin := by
    intro hmem
    exact absurd (List.eq_of_mem_replicate hmem) (by decide)
  rw [formatOutbound, stripInternalTags, removeInternal_of_notMem hbracket]
  simp [strip, hspace]

-- 2049 characters of two units are handed over in one piece.
theorem grins_too_long :
    List.replicate 2049 grin ∈ handed willing "tg:1" (List.replicate 2049 grin) ∧
      utf16Length (List.replicate 2049 grin) = 4098 ∧ ¬ Fits (List.replicate 2049 grin) := by
  have hjid : (chatId "tg:1").isSome = true := by decide
  have hastral : astral grin = true := by decide
  have hshort : (List.replicate 2049 grin).length ≤ TELEGRAM_MAX_LEN := by
    rw [List.length_replicate]
    decide
  have hmessage := messageAt_of_short hshort
  have hbegins : MessageBegins (formatOutbound (List.replicate 2049 grin))
      (List.replicate 2049 grin) := by
    rw [formatOutbound_replicate]
    exact .first
  have hlength : utf16Length (List.replicate 2049 grin) = 4098 := by
    rw [utf16Length_eq, List.length_replicate, List.countP_replicate, if_pos hastral]
  have hne : messageAt (List.replicate 2049 grin) ≠ [] := by
    rw [hmessage]
    exact List.ne_nil_of_length_pos (by rw [List.length_replicate]; decide)
  have hmem := messageAt_mem_handed hjid hbegins hne
  rw [hmessage] at hmem
  refine ⟨hmem, hlength, fun hfits => ?_⟩
  have hle := hfits.2
  rw [hlength] at hle
  exact absurd hle (by decide)

end Emoji

end EvoClaw.Channels.Telegram
