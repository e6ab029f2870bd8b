import Mathlib.Algebra.Order.Ring.Rat
import Mathlib.Data.Rat.Defs
import Mathlib.Logic.Function.Basic

namespace EvoClaw.WebPortal

inductive Role
  | user
  | assistant
deriving DecidableEq

-- `serial` counts the messages of the session in the order in which they are appended: two
-- messages may have the same role, text and stamp.
structure Message where
  serial : Nat
  role : Role
  text : String
  ts : ℚ
deriving DecidableEq

structure Session where
  messages : List Message
  lastSeen : ℚ
deriving DecidableEq

def _SESSION_TTL_SECONDS : ℚ := 3600
def _MAX_SESSION_MESSAGES : Nat := 200
def _MAX_TEXT_SIZE : Nat := 32 * 1024

-- Where the thread of a request stands. A poll belongs to the client from the moment it is sent
-- to the moment its response is handled.
inductive Thread
  | idle
  -- _api_send has read the clock
  | sending (text : String) (ts : ℚ)
  -- the client has sent a poll
  | asked (since : ℚ)
  -- _api_poll has answered it
  | answered (messages : List Message)
deriving DecidableEq

-- One session, its client and the threads that serve it. `serial` is the number of messages
-- that were appended, lastTs and `received` are the client's.
structure Portal (ι : Type*) where
  now : ℚ
  session : Option Session
  serial : Nat
  threads : ι → Thread
  lastTs : ℚ
  received : List Message

variable {ι : Type*} [DecidableEq ι]

inductive Event (ι : Type*)
  | tick (seconds : ℚ)
  -- _api_send up to ts = time.time()
  | readClock (t : ι) (text : String)
  -- the rest of it, under the lock
  | append (t : ι)
  | deliver_reply (text : String)
  | ask (t : ι)
  | serve (t : ι)
  | receive (t : ι)
  -- _expire_sessions, called by another session's request
  | expire

def Portal.set (portal : Portal ι) (t : ι) (thread : Thread) : Portal ι :=
  { portal with threads := Function.update portal.threads t thread }

-- if len(msgs) >= _MAX_SESSION_MESSAGES: msgs.pop(0)
def evict (messages : List Message) : List Message :=
  if _MAX_SESSION_MESSAGES ≤ messages.length then messages.tail else messages

def Portal.append (portal : Portal ι) (role : Role) (text : String) (ts : ℚ) : Portal ι :=
  match portal.session with
  | none => portal
  | some session =>
      { portal with
        session := some { session with
          messages := evict session.messages ++ [{ serial := portal.serial, role, text, ts }] }
        serial := portal.serial + 1 }

-- msgs = [m for m in messages if m["ts"] > since]
def Session.newer (session : Session) (since : ℚ) : List Message :=
  session.messages.filter fun message => since < message.ts

-- if (m.ts > lastTs) lastTs = m.ts
def advance (lastTs : ℚ) (messages : List Message) : ℚ :=
  messages.foldl (fun last message => if last < message.ts then message.ts else last) lastTs

def step (portal : Portal ι) : Event ι → Option (Portal ι)
  | .tick seconds => if 0 ≤ seconds then some { portal with now := portal.now + seconds } else none
  | .readClock t text =>
      match portal.threads t, portal.session with
      | .idle, some _ =>
          if text ≠ "" ∧ text.length ≤ _MAX_TEXT_SIZE then
            some (portal.set t (.sending text portal.now))
          else none
      | _, _ => none
  | .append t =>
      match portal.threads t with
      | .sending text ts => some ((portal.append .user text ts).set t .idle)
      | _ => none
  | .deliver_reply text => some (portal.append .assistant text portal.now)
  | .ask t =>
      match portal.threads t with
      | .idle => some (portal.set t (.asked portal.lastTs))
      | _ => none
  | .serve t =>
      match portal.threads t with
      | .asked since =>
          match portal.session with
          | none => some (portal.set t (.answered []))
          | some session =>
              some ({ portal with session := some { session with lastSeen := portal.now } }.set t
                (.answered (session.newer since)))
      | _ => none
  | .receive t =>
      match portal.threads t with
      | .answered messages =>
          some ({ portal with
            lastTs := advance portal.lastTs messages
            received := portal.received ++ messages }.set t .idle)
      | _ => none
  | .expire =>
      match portal.session with
      | some session =>
          if _SESSION_TTL_SECONDS < portal.now - session.lastSeen then
            some { portal with session := none }
          else none
      | none => none

-- _api_new_session and startSession
def Portal.init (now : ℚ) : Portal ι where
  now := now
  session := some { messages := [], lastSeen := now }
  serial := 0
  threads := fun _ => .idle
  lastTs := 0
  received := []

end EvoClaw.WebPortal
