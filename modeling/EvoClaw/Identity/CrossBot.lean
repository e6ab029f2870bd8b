import EvoClaw.JsonText.PyValue
import EvoClaw.Numeric.Double

-- The cross-bot messages of host/identity/cross_bot_protocol.py.
namespace EvoClaw.Identity

open JsonText

def protocolVersion : String := "crossbot/1.0"

def msgHello : String := "hello"
def msgAck : String := "ack"
def msgMemoryShare : String := "memory_share"
def msgTaskDelegate : String := "task_delegate"
def msgStatus : String := "status"
def msgPing : String := "ping"
def msgPong : String := "pong"

def allowedMsgTypes : List String :=
  [msgHello, msgAck, msgMemoryShare, msgTaskDelegate, msgStatus, msgPing, msgPong]

-- The timestamp is the value of a finite double.
structure CrossBotMessage where
  fromBotId : String
  type : String
  payload : Payload := []
  toBotId : Option String := none
  msgId : String
  timestamp : ℚ
  protocol : String := protocolVersion
  signature : Option String := none

-- What lies outside of the module: the digest of a text under a secret, as hex digits, and the
-- text of a float.
structure Crypto where
  hmac : String → List Char → String
  floatText : BitVec 64 → List Char

namespace CrossBotMessage

-- int(self.timestamp * 1000), none where the product is infinite.
def timestampMs (message : CrossBotMessage) : Option Int :=
  (Numeric.toDouble (message.timestamp * 1000)).map Numeric.towardZero

def payloadText (crypto : Crypto) (message : CrossBotMessage) : List Char :=
  dumps crypto.floatText (sortKeys (.obj message.payload))

def signingBody (crypto : Crypto) (message : CrossBotMessage) : Option (List Char) :=
  message.timestampMs.map fun tsMs =>
    message.msgId.toList ++ ':' :: (message.fromBotId.toList ++ ':' ::
      (intText tsMs ++ ':' :: message.payloadText crypto))

def sign (crypto : Crypto) (secret : String) (message : CrossBotMessage) :
    Option CrossBotMessage :=
  (message.signingBody crypto).map fun body =>
    { message with signature := some (crypto.hmac secret body) }

-- hmac.compare_digest raises on a text that is not ASCII.
def compareDigest (a b : String) : Option Bool :=
  if a.toList.all (·.toNat < 128) ∧ b.toList.all (·.toNat < 128) then some (a = b) else none

-- None where an exception is raised.
def verify (crypto : Crypto) (secret : String) (message : CrossBotMessage) : Option Bool :=
  match message.signature with
  | none => some false
  | some signature =>
      if signature = "" then some false
      else (message.signingBody crypto).bind fun body =>
        compareDigest signature (crypto.hmac secret body)

end CrossBotMessage

structure CrossBotProtocol where
  myBotId : String
  secret : Option String := none
  handlers : List String := []

-- What `handle` does with a message after it has told the registry of its sender.
inductive Handling
  | handler (type : String)
  | reply (message : CrossBotMessage)
  | nothing

inductive Handled
  | dropped
  | raised
  | accepted (lastSeen : String) (handling : Handling)

namespace CrossBotProtocol

-- The clock and the new id of a reply.
variable (crypto : Crypto) (now : ℚ) (ts : Json) (freshId : String)

def makeAck (self : CrossBotProtocol) (original : CrossBotMessage) : CrossBotMessage where
  fromBotId := self.myBotId
  toBotId := some original.fromBotId
  type := msgAck
  payload := [("ack_msg_id", .str original.msgId),
    ("nonce", Payload.get original.payload "nonce" .null)]
  msgId := freshId
  timestamp := now

def makePong (self : CrossBotProtocol) (original : CrossBotMessage) : CrossBotMessage where
  fromBotId := self.myBotId
  toBotId := some original.fromBotId
  type := msgPong
  payload := [("ts", ts)]
  msgId := freshId
  timestamp := now

def dispatch (self : CrossBotProtocol) (message : CrossBotMessage) : Handling :=
  if message.type ∈ self.handlers then .handler message.type
  else if message.type = msgPing then .reply (self.makePong now ts freshId message)
  else if message.type = msgHello then .reply (self.makeAck now freshId message)
  else .nothing

-- `handle`, once the text has been parsed.
def handle (self : CrossBotProtocol) (message : CrossBotMessage) : Handled :=
  if ¬ "crossbot/".toList.isPrefixOf message.protocol.toList then .dropped
  else if message.type ∉ allowedMsgTypes then .dropped
  else match self.secret with
    | none => .accepted message.fromBotId (self.dispatch now ts freshId message)
    | some secret =>
        if secret = "" then .accepted message.fromBotId (self.dispatch now ts freshId message)
        else match message.verify crypto secret with
          | none => .raised
          | some false => .dropped
          | some true => .accepted message.fromBotId (self.dispatch now ts freshId message)

end CrossBotProtocol

-- The two messages say the same. Dictionaries are equal up to the order of their keys.
structure SameMessage (m m' : CrossBotMessage) : Prop where
  type : m.type = m'.type
  fromBotId : m.fromBotId = m'.fromBotId
  toBotId : m.toBotId = m'.toBotId
  msgId : m.msgId = m'.msgId
  timestampMs : m.timestampMs = m'.timestampMs
  protocol : m.protocol = m'.protocol
  payload : sortKeys (.obj m.payload) = sortKeys (.obj m'.payload)

section Body

variable {crypto : Crypto} {floatOf : List Char → BitVec 64} {m m' : CrossBotMessage}

-- Equal digests under one secret are those of equal texts.
def Crypto.Ideal (crypto : Crypto) : Prop :=
  ∀ secret body body', crypto.hmac secret body = crypto.hmac secret body' → body = body'

theorem eq_of_count_eq {a b r s : List Char} (h : a ++ ':' :: r = b ++ ':' :: s)
    (hcount : a.count ':' = b.count ':') : a = b ∧ r = s := by
  induction a generalizing b with
  | nil =>
      cases b with
      | nil => exact ⟨rfl, (List.cons.inj h).2⟩
      | cons d b =>
          obtain ⟨rfl, -⟩ := List.cons.inj h
          simp at hcount
  | cons c a ih =>
      cases b with
      | nil =>
          obtain ⟨rfl, -⟩ := List.cons.inj h
          simp at hcount
      | cons d b =>
          obtain ⟨rfl, hrest⟩ := List.cons.inj h
          obtain ⟨rfl, hrs⟩ := ih hrest (by simpa [List.count_cons] using hcount)
          exact ⟨rfl, hrs⟩

theorem intText_head (n : Int) : intText n ≠ [] ∧
    ∀ c, (intText n).head? = some c → c ≠ ' ' ∧ c ≠ '{' := by
  obtain ⟨c, rest, htext, hc⟩ := toDigits_cons n.natAbs
  have hdigit : c ≠ ' ' ∧ c ≠ '{' := by
    constructor <;> rintro rfl <;> cases hc
  unfold intText
  split_ifs
  · refine ⟨nofun, fun d hd => ?_⟩
    obtain rfl := Option.some.inj hd
    decide
  · rw [htext]
    refine ⟨nofun, fun d hd => ?_⟩
    obtain rfl := Option.some.inj hd
    exact hdigit

-- The texts of two payloads.
structure Objects (text text' : List Char) : Prop where
  spot : spot .outside text = some .outside
  spot' : JsonText.spot .outside text' = some .outside
  head : text.head? = some '{'

-- A sender that went on into the fields behind it would leave an object text that ends with a
-- number, a colon and another object.
theorem sender_not_longer {text text' extra : List Char} {ms ms' : Int}
    (h : Objects text text') :
    ':' :: (intText ms ++ ':' :: text) ≠
      ':' :: extra ++ ':' :: (intText ms' ++ ':' :: text') := by
  intro heq
  obtain ⟨hne, hhead⟩ := intText_head ms'
  have hfree : ':' ∉ intText ms := fun hmem => (intText_plain ms ':' hmem).2 rfl
  have hrest := (List.cons.inj heq).2
  rcases List.append_eq_append_iff.mp hrest with ⟨a, rfl, ha⟩ | ⟨a, ha, hb⟩
  · cases a with
    | nil =>
        have htext := (List.cons.inj ha).2
        have hc := h.head
        rw [htext, List.head?_append_of_ne_nil _ hne] at hc
        exact (hhead _ hc).2 rfl
    | cons c a =>
        obtain ⟨rfl, htext⟩ := List.cons.inj ha
        exact spot_no_field h.spot h.spot' (intText_plain ms') (fun c hc => (hhead c hc).1) hne htext
  · cases a with
    | nil =>
        have htext := (List.cons.inj hb).2
        have hc := h.head
        rw [← htext, List.head?_append_of_ne_nil _ hne] at hc
        exact (hhead _ hc).2 rfl
    | cons c a =>
        obtain ⟨rfl, -⟩ := List.cons.inj hb
        exact hfree (ha ▸ by simp)

theorem sender_inj {sender sender' text text' : List Char} {ms ms' : Int}
    (h : Objects text text') (h' : Objects text' text)
    (heq : sender ++ ':' :: (intText ms ++ ':' :: text) =
      sender' ++ ':' :: (intText ms' ++ ':' :: text')) :
    sender = sender' ∧ intText ms = intText ms' ∧ text = text' := by
  have hfree (n : Int) : ':' ∉ intText n := fun hmem => (intText_plain n ':' hmem).2 rfl
  have hsender : sender = sender' ∧
      intText ms ++ ':' :: text = intText ms' ++ ':' :: text' := by
    rcases List.append_eq_append_iff.mp heq with ⟨a, rfl, ha⟩ | ⟨a, rfl, ha⟩
    · cases a with
      | nil => exact ⟨by simp, (List.cons.inj ha).2⟩
      | cons c a =>
          obtain ⟨rfl, -⟩ := List.cons.inj ha
          exact absurd ha (sender_not_longer h)
    · cases a with
      | nil => exact ⟨by simp, ((List.cons.inj ha).2).symm⟩
      | cons c a =>
          obtain ⟨rfl, -⟩ := List.cons.inj ha
          exact absurd ha (sender_not_longer h')
  obtain ⟨hms, htext⟩ := append_separator_inj (hfree ms) (hfree ms') hsender.2
  exact ⟨hsender.1, hms, htext⟩

theorem objects_payloadText (hfloat : ∀ bits, ':' ∉ crypto.floatText bits)
    (hm : Readable crypto.floatText floatOf (.obj m.payload))
    (hm' : Readable crypto.floatText floatOf (.obj m'.payload)) :
    Objects (m.payloadText crypto) (m'.payloadText crypto) :=
  ⟨spot_dumps _ hfloat (readable_sortKeys hm), spot_dumps _ hfloat (readable_sortKeys hm'),
    dumps_obj_head _⟩

theorem signed_of_verify {secret : String} (h : m.verify crypto secret = some true) :
    ∃ ms, m.timestampMs = some ms ∧ m.signature = some (crypto.hmac secret
      (m.msgId.toList ++ ':' :: (m.fromBotId.toList ++ ':' ::
        (intText ms ++ ':' :: m.payloadText crypto)))) := by
  unfold CrossBotMessage.verify at h
  split at h
  · cases h
  · rename_i signature hsignature
    split at h
    · cases h
    · obtain ⟨body, hbody, hcompare⟩ := Option.bind_eq_some_iff.mp h
      obtain ⟨ms, hms, rfl⟩ := Option.map_eq_some_iff.mp hbody
      refine ⟨ms, hms, ?_⟩
      unfold CrossBotMessage.compareDigest at hcompare
      split at hcompare
      · rw [hsignature, of_decide_eq_true (Option.some.inj hcompare)]
      · cases hcompare

-- Two messages that pass with one signature are the same exactly when they agree in what the
-- signature leaves out, and no colon has moved between the message's id and its sender.
theorem sameMessage_iff (hideal : crypto.Ideal) (hfloat : ∀ bits, ':' ∉ crypto.floatText bits)
    (hm : Readable crypto.floatText floatOf (.obj m.payload))
    (hm' : Readable crypto.floatText floatOf (.obj m'.payload)) {secret : String}
    (hverify : m.verify crypto secret = some true)
    (hverify' : m'.verify crypto secret = some true) (hsignature : m.signature = m'.signature) :
    SameMessage m m' ↔ m.type = m'.type ∧ m.toBotId = m'.toBotId ∧ m.protocol = m'.protocol ∧
      m.msgId.toList.count ':' = m'.msgId.toList.count ':' := by
  refine ⟨fun h => ⟨h.type, h.toBotId, h.protocol, by rw [h.msgId]⟩, ?_⟩
  rintro ⟨htype, hto, hprotocol, hcount⟩
  obtain ⟨ms, hms, hsigned⟩ := signed_of_verify hverify
  obtain ⟨ms', hms', hsigned'⟩ := signed_of_verify hverify'
  have hbody := hideal secret _ _
    (Option.some.inj (hsigned.symm.trans (hsignature.trans hsigned')))
  obtain ⟨hid, hrest⟩ := eq_of_count_eq hbody hcount
  obtain ⟨hfrom, htime, hpayload⟩ := sender_inj (objects_payloadText hfloat hm hm')
    (objects_payloadText hfloat hm' hm) hrest
  exact
    { type := htype
      fromBotId := String.toList_inj.mp hfrom
      toBotId := hto
      msgId := String.toList_inj.mp hid
      timestampMs := by rw [hms, hms', intText_inj htime]
      protocol := hprotocol
      payload := sortKeys_eq_of_dumps_eq hm hm' hpayload }

end Body

section Examples

-- A digest that keeps the whole text.
def plainCrypto : Crypto where
  hmac := fun secret body => secret ++ String.ofList body
  floatText := fun _ => ['0', '.', '0']

theorem plainCrypto_ideal : plainCrypto.Ideal := by
  intro secret body body' h
  have hlist := congrArg String.toList h
  simpa [plainCrypto] using hlist

def shared : CrossBotMessage where
  fromBotId := "scout"
  toBotId := some "archive"
  type := msgMemoryShare
  payload := [("task", .str "delete old logs")]
  msgId := "7f3a"
  timestamp := 1700000000
  signature := some "s7f3a:scout:1700000000000:\x7b\"task\": \"delete old logs\"\x7d"

def delegated : CrossBotMessage :=
  { shared with toBotId := some "deployer", type := msgTaskDelegate }

-- A shared memory, sent on to another bot as a task.
theorem delegated_accepted :
    plainCrypto.Ideal ∧ shared.signature = delegated.signature ∧
      shared.verify plainCrypto "s" = some true ∧ delegated.verify plainCrypto "s" = some true ∧
      (CrossBotProtocol.mk "deployer" (some "s") [msgTaskDelegate]).handle plainCrypto 0 .null ""
        delegated = .accepted "scout" (.handler msgTaskDelegate) ∧
      shared.type ≠ delegated.type ∧ shared.toBotId ≠ delegated.toBotId := by
  have hshared : shared.verify plainCrypto "s" = some true := by decide +kernel
  have hdelegated : delegated.verify plainCrypto "s" = some true := by decide +kernel
  refine ⟨plainCrypto_ideal, rfl, hshared, hdelegated, ?_, by decide, by decide⟩
  have hprotocol : "crossbot/".toList.isPrefixOf delegated.protocol.toList = true := by decide
  have htype : delegated.type ∈ allowedMsgTypes := by decide
  simp only [CrossBotProtocol.handle, hprotocol, htype, hdelegated]
  rfl

theorem shared_same_iff : SameMessage shared delegated ↔
    shared.type = delegated.type ∧ shared.toBotId = delegated.toBotId ∧
      shared.protocol = delegated.protocol ∧
      shared.msgId.toList.count ':' = delegated.msgId.toList.count ':' := by
  have hreadable : Readable plainCrypto.floatText (fun _ => 0) (.obj shared.payload) :=
    ⟨by decide, trivial, trivial⟩
  have hcolonless : ∀ bits, ':' ∉ plainCrypto.floatText bits :=
    fun _ => (by decide : ':' ∉ ['0', '.', '0'])
  have hverify : shared.verify plainCrypto "s" = some true := by decide +kernel
  have hverify' : delegated.verify plainCrypto "s" = some true := by decide +kernel
  exact sameMessage_iff plainCrypto_ideal hcolonless hreadable hreadable hverify hverify' rfl

end Examples

end EvoClaw.Identity
