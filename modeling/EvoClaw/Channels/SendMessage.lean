import EvoClaw.Router.Outbound

-- send_message of the three channels: what the platform answers decides what is accepted, and
-- nothing is raised.
namespace EvoClaw.Channels

open Text Router

-- What becomes of a piece: it is accepted, it is logged and the next one is sent, or the
-- method returns.
inductive Fate
  | accepted
  | dropped
  | aborted
deriving DecidableEq

-- The loop over the pieces of a text; `i` counts them.
def sendPieces (fate : Nat → Fate) : Nat → List (List Char) → List (List Char)
  | _, [] => []
  | i, piece :: rest =>
      match fate i with
      | .accepted => piece :: sendPieces fate (i + 1) rest
      | .dropped => sendPieces fate (i + 1) rest
      | .aborted => []

-- The loop that Telegram and WhatsApp split a text with.
def splitPieces (maxLen : Nat) (text : List Char) : List (List Char) :=
  (chunksFrom isSpace '\n' maxLen 1 text.length text).filter (· ≠ [])

-- A send_message is ready when it comes to its pieces at all.
structure Platform where
  ready : Nat → Bool
  fate : Nat → Nat → Fate

def sendMessage (platform : Platform) (pieces : List Char → List (List Char)) : Send :=
  fun n text =>
    { accepted := if platform.ready n then sendPieces (platform.fate n) 0 (pieces text) else []
      raised := false }

namespace Telegram

def _TELEGRAM_MAX_LEN : Nat := 4000

-- The exceptions as the except clauses sort them.
inductive Answer
  | ok
  | retryAfter
  | forbidden
  -- TimedOut or NetworkError, of which BadRequest is a subclass
  | transient
  | raised
deriving DecidableEq

-- For each send_message whether the application is there, and for each piece what bot.send_message
-- does at first and when it is called again.
structure World where
  app : Nat → Bool
  first : Nat → Nat → Answer
  again : Nat → Nat → Answer

-- jid.replace("tg:", ""): the next `skip` characters belong to a match.
def removePrefix : Nat → List Char → List Char
  | _, [] => []
  | skip + 1, _ :: rest => removePrefix skip rest
  | 0, c :: rest =>
      if "tg:".toList <+: c :: rest then removePrefix 2 rest else c :: removePrefix 0 rest

def chatId (jid : String) : Option Int := intOfText (String.ofList (removePrefix 0 jid.toList))

def fate (first again : Answer) : Fate :=
  match first with
  | .ok => .accepted
  | .retryAfter => if again = .ok then .accepted else .dropped
  | .forbidden => .aborted
  | .transient => if again = .ok then .accepted else .dropped
  | .raised => .dropped

def pieces (text : List Char) : List (List Char) := splitPieces _TELEGRAM_MAX_LEN text

def send (world : World) (jid : String) : Send :=
  sendMessage
    { ready := fun n => world.app n && (chatId jid).isSome
      fate := fun n i => fate (world.first n i) (world.again n i) }
    pieces

end Telegram

namespace WhatsApp

def _WA_MAX_LEN : Nat := 4096

-- An HTTP response, or an exception of the request. `readable` is false where reading the
-- body of the response or its Retry-After raises.
inductive Answer
  | response (status : Nat) (readable : Bool)
  | raised
deriving DecidableEq

structure World where
  session : Nat → Bool
  first : Nat → Nat → Answer
  again : Nat → Nat → Answer

def Answer.ok : Answer → Bool
  | .response status _ => status = 200 ∨ status = 201
  | .raised => false

def fate (first again : Answer) : Fate :=
  match first with
  | .response status readable =>
      if status = 429 then if readable ∧ again.ok then .accepted else .dropped
      else if status = 401 ∨ status = 403 then if readable then .aborted else .dropped
      else if status = 502 ∨ status = 503 ∨ status = 504 then
        if readable ∧ again.ok then .accepted else .dropped
      else if status = 200 ∨ status = 201 then .accepted
      else .dropped
  | .raised => .dropped

def pieces (text : List Char) : List (List Char) := splitPieces _WA_MAX_LEN text

-- len(jid.split(":")) < 3
def validJid (jid : String) : Bool := 3 ≤ (jid.toList.splitOn ':').length

def send (world : World) (jid : String) : Send :=
  sendMessage
    { ready := fun n => world.session n && validJid jid
      fate := fun n i => fate (world.first n i) (world.again n i) }
    pieces

end WhatsApp

namespace Discord

def _DISCORD_LIMIT : Nat := 2000

-- timedOut ends the wait of the host for the Discord loop, raised what the loop does for the
-- text.
inductive Answer
  | ok
  | forbidden
  | httpException (status : Nat)
  | raised
  | timedOut
deriving DecidableEq

-- is_connected, the state of the loop, and whether _get_channel finds the channel of the jid.
structure World where
  connected : Nat → Bool
  running : Nat → Bool
  channel : Nat → Bool
  answer : Nat → Nat → Answer

def fate (answer : Answer) : Fate :=
  match answer with
  | .ok => .accepted
  | .forbidden => .aborted
  | .httpException status => if status = 401 then .aborted else .dropped
  | .raised => .aborted
  | .timedOut => .aborted

-- [text[i:i + 2000] for i in range(0, len(text), 2000)]. The fuel is one for each character.
def slices : Nat → List Char → List (List Char)
  | 0, _ => []
  | fuel + 1, text =>
      if text = [] then []
      else text.take _DISCORD_LIMIT :: slices fuel (text.drop _DISCORD_LIMIT)

def pieces (text : List Char) : List (List Char) := slices text.length text

def send (world : World) : Send :=
  sendMessage
    { ready := fun n => world.connected n && world.running n && world.channel n
      fate := fun n i => fate (world.answer n i) }
    pieces

end Discord

end EvoClaw.Channels
