import EvoClaw.Identity.CrossBot
import EvoClaw.JsonText.PyValue
import Mathlib.Tactic.Linarith

-- CrossBotMessage with a payload as Python builds it, and its way over the wire.
namespace EvoClaw.Identity.Wire

open JsonText

-- The digest of a text under a secret, and the texts of floats.
structure Runtime where
  hmac : String → List Char → BitVec 256
  floatText : BitVec 64 → List Char
  floatOf : List Char → BitVec 64

-- The value of a finite float.
def Timestamp : Type := { x : ℚ // |x| < 2 ^ 1024 }

structure CrossBotMessage where
  fromBotId : String
  type : String
  payload : List (Key × PyValue) := []
  toBotId : Option String := none
  msgId : String
  timestamp : Timestamp
  protocol : String := protocolVersion
  signature : Option String := none

-- hexdigest()
def hexdigest (digest : BitVec 256) : String :=
  String.ofList ((List.range 64).map fun place => hexDigit (digest.toNat / 16 ^ (63 - place)))

def bodyText (msgId fromBotId : String) (tsMs : Int) (payloadText : List Char) : List Char :=
  msgId.toList ++ ':' :: (fromBotId.toList ++ ':' :: (intText tsMs ++ ':' :: payloadText))

def optional : Option String → Json
  | none => .null
  | some text => .str text

namespace CrossBotMessage

variable (runtime : Runtime) (secret : String) (message : CrossBotMessage)

-- int(self.timestamp * 1000)
def timestampMs : Int := Numeric.towardZero (message.timestamp.val * 1000)

-- None where json.dumps raises.
def signingBody : Option (List Char) :=
  (encodeSorted (.dict message.payload)).map fun payload =>
    bodyText message.msgId message.fromBotId message.timestampMs (dumps runtime.floatText payload)

def sign : Option CrossBotMessage :=
  (message.signingBody runtime).map fun body =>
    { message with signature := some (hexdigest (runtime.hmac secret body)) }

def verify : Option Bool :=
  match message.signature with
  | none => some false
  | some signature =>
      if signature = "" then some false
      else (message.signingBody runtime).bind fun body =>
        Identity.CrossBotMessage.compareDigest signature (hexdigest (runtime.hmac secret body))

def envelope : Json :=
  .obj
    [("protocol", .str message.protocol), ("from_bot_id", .str message.fromBotId),
      ("to_bot_id", optional message.toBotId), ("msg_id", .str message.msgId),
      ("timestamp_ms", .int message.timestampMs), ("type", .str message.type),
      ("payload", encode (.dict message.payload)), ("signature", optional message.signature)]

def toJson : List Char := dumps runtime.floatText message.envelope

end CrossBotMessage

-- The value of a double, none for infinities and NaN.
def floatValue (bits : BitVec 64) : Option ℚ :=
  let exponent : Nat := bits.toNat / 2 ^ 52 % 2 ^ 11
  let fraction : Nat := bits.toNat % 2 ^ 52
  let magnitude : ℚ :=
    if exponent = 0 then fraction * 2 ^ (-1074 : Int)
    else (fraction + 2 ^ 52) * 2 ^ ((exponent : Int) - 1075)
  if exponent = 2 ^ 11 - 1 then none
  else some (if bits.msb then -magnitude else magnitude)

-- Only fields of the types that the class declares are followed.
def number : Json → Option ℚ
  | .int value => some value
  | .bool value => some (if value then 1 else 0)
  | .float bits => floatValue bits
  | _ => none

def asTimestamp (x : ℚ) : Option Timestamp :=
  if h : |x| < 2 ^ 1024 then some ⟨x, h⟩ else none

def text : Json → Option String
  | .str text => some text
  | _ => none

def optionalText : Json → Option (Option String)
  | .null => some none
  | .str text => some (some text)
  | _ => none

def dictionary : Json → Option (List (Key × PyValue))
  | .obj fields => some (ofJsonFields fields)
  | _ => none

-- The new-style milliseconds, or the old float, or the clock.
def timestampOf (now : Timestamp) (d : Payload) : Option Timestamp :=
  match d.lookup "timestamp_ms" with
  | some ms => (number ms).bind fun ms => asTimestamp (ms / 1000)
  | none =>
      match d.lookup "timestamp" with
      | some timestamp => (number timestamp).bind asTimestamp
      | none => some now

-- None where an exception is raised. `now` and `freshId` are the clock and a new uuid.
def fromJson (runtime : Runtime) (now : Timestamp) (freshId : String) (data : List Char) :
    Option CrossBotMessage :=
  match loads runtime.floatOf data with
  | some (.obj d) => do
      let timestamp ← timestampOf now d
      let fromBotId ← (d.lookup "from_bot_id").bind text
      let toBotId ← optionalText (Payload.get d "to_bot_id" .null)
      let msgId ← text (Payload.get d "msg_id" (.str freshId))
      let type ← (d.lookup "type").bind text
      let payload ← dictionary (Payload.get d "payload" (.obj []))
      let protocol ← text (Payload.get d "protocol" (.str protocolVersion))
      let signature ← optionalText (Payload.get d "signature" .null)
      return { fromBotId, type, payload, toBotId, msgId, timestamp, protocol, signature }
  | _ => none

-- from_json(sign(m, secret).to_json()) verifies under the same secret.
def Survives (runtime : Runtime) (now : Timestamp) (freshId secret : String)
    (message : CrossBotMessage) : Prop :=
  ∃ signed received, message.sign runtime secret = some signed ∧
    fromJson runtime now freshId (signed.toJson runtime) = some received ∧
    received.verify runtime secret = some true

section Timestamps

theorem towardZero_abs_le (x : ℚ) : |(Numeric.towardZero x : ℚ)| ≤ |x| := by
  unfold Numeric.towardZero
  split
  · rename_i hneg
    have hceil : (⌈x⌉ : ℚ) ≤ 0 := by exact_mod_cast Int.ceil_le.mpr (by simpa using hneg.le)
    rw [abs_of_nonpos hceil, abs_of_neg hneg]
    exact neg_le_neg (Int.le_ceil x)
  · rename_i hpos
    have hx : 0 ≤ x := not_lt.mp hpos
    have hfloor : (0 : ℚ) ≤ ⌊x⌋ := by exact_mod_cast Int.floor_nonneg.mpr hx
    rw [abs_of_nonneg hfloor, abs_of_nonneg hx]
    exact Int.floor_le x

theorem towardZero_intCast (n : Int) : Numeric.towardZero n = n := by
  unfold Numeric.towardZero
  split
  · exact Int.ceil_intCast n
  · exact Int.floor_intCast n

variable {message : CrossBotMessage}

theorem abs_timestampMs_le (message : CrossBotMessage) :
    |(message.timestampMs : ℚ)| ≤ |message.timestamp.val| * 1000 := by
  have h := towardZero_abs_le (message.timestamp.val * 1000)
  rwa [abs_mul, abs_of_pos (show (0 : ℚ) < 1000 by norm_num)] at h

theorem abs_timestampMs_lt (message : CrossBotMessage) :
    |(message.timestampMs : ℚ)| < 2 ^ 1024 * 1000 :=
  (abs_timestampMs_le message).trans_lt
    (mul_lt_mul_of_pos_right message.timestamp.property (by norm_num))

theorem two_pow_mul_le {k limit : Nat} (h : k + 10 ≤ limit) : 2 ^ k * 1000 ≤ 10 ^ limit := by
  have hpow : 2 ^ k * 1000 ≤ 10 ^ (k + 10) := by
    rw [Nat.pow_add]
    exact Nat.mul_le_mul (Nat.pow_le_pow_left (by decide) k) (by decide)
  exact hpow.trans (Nat.pow_le_pow_right (by decide) h)

-- The milliseconds of a float have few digits.
theorem timestampMs_digits :
    (Nat.toDigits 10 message.timestampMs.natAbs).length ≤ maxStrDigits := by
  have hlt : (message.timestampMs.natAbs : ℚ) < 2 ^ 1024 * 1000 := by
    rw [Nat.cast_natAbs, Int.cast_abs]
    exact abs_timestampMs_lt message
  have hnat : message.timestampMs.natAbs < 2 ^ 1024 * 1000 := by exact_mod_cast hlt
  rw [Nat.length_toDigits_le_iff (by decide) (by decide)]
  exact hnat.trans_le (two_pow_mul_le (by decide))

-- The milliseconds are read back as a time with the same milliseconds.
theorem asTimestamp_ms (message : CrossBotMessage) :
    ∃ back, asTimestamp (message.timestampMs / 1000) = some back ∧
      back.val = message.timestampMs / 1000 := by
  have hlt : |(message.timestampMs : ℚ) / 1000| < 2 ^ 1024 := by
    rw [abs_div, abs_of_pos (show (0 : ℚ) < 1000 by norm_num), div_lt_iff₀ (by norm_num)]
    exact abs_timestampMs_lt message
  exact ⟨⟨_, hlt⟩, dif_pos hlt, rfl⟩

end Timestamps

section Digests

theorem hexDigit_ascii (n : Nat) : (hexDigit n).toNat < 128 := by
  have hall : ∀ d < 16, (Nat.digitChar d).toNat < 128 := by decide
  exact hall (n % 16) (Nat.mod_lt n (by decide))

theorem hexdigest_ascii (digest : BitVec 256) :
    (hexdigest digest).toList.all (·.toNat < 128) = true := by
  simp [hexdigest, hexDigit_ascii]

theorem hexdigest_ne_empty (digest : BitVec 256) : hexdigest digest ≠ "" := by
  intro h
  have hlength := congrArg (·.toList.length) h
  simp [hexdigest] at hlength

theorem hexdigest_zero_ne_one : hexdigest 0 ≠ hexdigest 1 := by
  decide

theorem compareDigest_hexdigest (digest other : BitVec 256) :
    Identity.CrossBotMessage.compareDigest (hexdigest digest) (hexdigest other) =
      some (decide (hexdigest digest = hexdigest other)) :=
  if_pos ⟨hexdigest_ascii digest, hexdigest_ascii other⟩

theorem verify_hexdigest {runtime : Runtime} {secret : String} {message : CrossBotMessage}
    {digest : BitVec 256} (h : message.signature = some (hexdigest digest)) :
    message.verify runtime secret = (message.signingBody runtime).map fun body =>
      decide (hexdigest digest = hexdigest (runtime.hmac secret body)) := by
  unfold CrossBotMessage.verify
  rw [h]
  dsimp only
  rw [if_neg (hexdigest_ne_empty digest)]
  simp only [compareDigest_hexdigest, Option.map_eq_bind, Function.comp_def]

end Digests

section Transfer

variable {runtime : Runtime} {message : CrossBotMessage}

theorem readable_envelope
    (h : Readable runtime.floatText runtime.floatOf (encode (.dict message.payload))) :
    Readable runtime.floatText runtime.floatOf message.envelope := by
  have hoptional (text : Option String) :
      Readable runtime.floatText runtime.floatOf (optional text) := by
    cases text <;> trivial
  have hkeys : ["protocol", "from_bot_id", "to_bot_id", "msg_id", "timestamp_ms", "type", "payload",
      "signature"].Nodup := by decide
  exact ⟨hkeys, trivial, trivial, hoptional _, trivial, timestampMs_digits, trivial, h,
    hoptional _, trivial⟩

-- What the receiver makes of a message: the texts, the milliseconds, and a payload that was read.
theorem fromJson_toJson (now : Timestamp) (freshId : String)
    (h : Readable runtime.floatText runtime.floatOf (encode (.dict message.payload))) :
    ∃ back : Timestamp, back.val = message.timestampMs / 1000 ∧
      fromJson runtime now freshId (message.toJson runtime) =
        some { message with
          timestamp := back
          payload := ofJsonFields (encodeFields message.payload) } := by
  obtain ⟨back, hback, hval⟩ := asTimestamp_ms message
  refine ⟨back, hval, ?_⟩
  rw [fromJson, CrossBotMessage.toJson, loads_dumps (readable_envelope h)]
  have htime : timestampOf now
      [("protocol", .str message.protocol), ("from_bot_id", .str message.fromBotId),
        ("to_bot_id", optional message.toBotId), ("msg_id", .str message.msgId),
        ("timestamp_ms", .int message.timestampMs), ("type", .str message.type),
        ("payload", encode (.dict message.payload)),
        ("signature", optional message.signature)] = some back := hback
  have hoptional (text : Option String) : optionalText (optional text) = some text := by
    cases text <;> rfl
  dsimp only [CrossBotMessage.envelope]
  rw [htime]
  change (do
    let toBotId ← optionalText (optional message.toBotId)
    let signature ← optionalText (optional message.signature)
    some { message with
      toBotId, signature
      timestamp := back
      payload := ofJsonFields (encodeFields message.payload) }) = _
  rw [hoptional, hoptional]
  rfl

-- The body that a receiver checks the signature against.
def CrossBotMessage.readBody (runtime : Runtime) (message : CrossBotMessage) : List Char :=
  bodyText message.msgId message.fromBotId message.timestampMs
    (dumps runtime.floatText (sortKeys (encode (.dict message.payload))))

theorem signingBody_read {received : CrossBotMessage}
    (hid : received.msgId = message.msgId) (hfrom : received.fromBotId = message.fromBotId)
    (htime : received.timestamp.val = message.timestampMs / 1000)
    (hpayload : received.payload = ofJsonFields (encodeFields message.payload)) :
    received.signingBody runtime = some (message.readBody runtime) := by
  have hms : received.timestampMs = message.timestampMs := by
    rw [CrossBotMessage.timestampMs, htime, div_mul_cancel₀ _ (by norm_num), towardZero_intCast]
  have hsorted : encodeSorted (.dict received.payload) =
      some (sortKeys (encode (.dict message.payload))) := by
    rw [hpayload]
    exact encodeSorted_ofJson (encode (.dict message.payload))
  rw [CrossBotMessage.signingBody, hsorted, hms, hid, hfrom]
  rfl

-- The receiver has the sender's signature, and checks it against that body.
theorem received_of_toJson (message : CrossBotMessage) (now : Timestamp) (freshId : String)
    (h : Readable runtime.floatText runtime.floatOf (encode (.dict message.payload))) :
    ∃ received, fromJson runtime now freshId (message.toJson runtime) = some received ∧
      received.signature = message.signature ∧
      received.signingBody runtime = some (message.readBody runtime) := by
  obtain ⟨back, hback, hread⟩ := fromJson_toJson now freshId h
  exact ⟨_, hread, rfl, signingBody_read rfl rfl hback rfl⟩

-- It accepts when the body and the sender's have one digest.
theorem survives_iff_digest (now : Timestamp) (freshId secret : String)
    (h : Accepted runtime.floatText runtime.floatOf (.dict message.payload)) :
    Survives runtime now freshId secret message ↔ ∃ body ∈ message.signingBody runtime,
      hexdigest (runtime.hmac secret body) =
        hexdigest (runtime.hmac secret (message.readBody runtime)) := by
  cases hsorted : encodeSorted (.dict message.payload) with
  | none =>
      simp [Survives, CrossBotMessage.sign, CrossBotMessage.signingBody, hsorted]
  | some sorted =>
      obtain ⟨body, hbody⟩ : ∃ body, message.signingBody runtime = some body := by
        rw [CrossBotMessage.signingBody, hsorted]
        exact ⟨_, rfl⟩
      have hsign : message.sign runtime secret =
          some { message with signature := some (hexdigest (runtime.hmac secret body)) } := by
        rw [CrossBotMessage.sign, hbody]
        rfl
      obtain ⟨received, hread, hsignature, hreadBody⟩ := received_of_toJson
        { message with signature := some (hexdigest (runtime.hmac secret body)) } now freshId
        (readable_encode h hsorted).1
      have hverify : received.verify runtime secret = some (decide
          (hexdigest (runtime.hmac secret body) =
            hexdigest (runtime.hmac secret (message.readBody runtime)))) := by
        rw [verify_hexdigest hsignature, hreadBody]
        rfl
      constructor
      · rintro ⟨signed, other, hsigned, hother, haccept⟩
        obtain rfl := Option.some.inj (hsign.symm.trans hsigned)
        obtain rfl := Option.some.inj (hread.symm.trans hother)
        rw [hverify] at haccept
        exact ⟨body, hbody, of_decide_eq_true (Option.some.inj haccept)⟩
      · rintro ⟨other, hother, hdigest⟩
        obtain rfl := Option.some.inj (hbody.symm.trans hother)
        exact ⟨_, received, hsign, hread, by rw [hverify, decide_eq_true hdigest]⟩

theorem signingBody_eq_iff
    (h : Accepted runtime.floatText runtime.floatOf (.dict message.payload)) :
    message.signingBody runtime = some (message.readBody runtime) ↔
      TextOrdered (.dict message.payload) := by
  rw [← dumps_sorted_iff h]
  simp only [CrossBotMessage.signingBody, CrossBotMessage.readBody, Option.map_eq_some_iff]
  refine exists_congr fun sorted => and_congr_right fun _ => ⟨fun hbody => ?_, fun htext => ?_⟩
  · simpa [bodyText] using hbody
  · rw [htext]

-- A digest that tells one body from every other one.
def telling (expected : List Char) : String → List Char → BitVec 256 :=
  fun _ body => if body = expected then 1 else 0

theorem signingBody_of_survives {now : Timestamp} {freshId secret : String}
    (h : Accepted runtime.floatText runtime.floatOf (.dict message.payload))
    (hall : ∀ hmac, Survives { runtime with hmac } now freshId secret message) :
    message.signingBody runtime = some (message.readBody runtime) := by
  have hsurvives := hall (telling (message.readBody runtime))
  obtain ⟨body, hbody, hdigest⟩ := (survives_iff_digest now freshId secret (by exact h)).mp hsurvives
  have hsame : body = message.readBody runtime := by
    by_contra hother
    have hone : telling (message.readBody runtime) secret (message.readBody runtime) = 1 :=
      if_pos rfl
    have hzero : telling (message.readBody runtime) secret body = 0 := if_neg hother
    have hdigests : hexdigest (telling (message.readBody runtime) secret body) =
        hexdigest (telling (message.readBody runtime) secret (message.readBody runtime)) := hdigest
    rw [hzero, hone] at hdigests
    exact hexdigest_zero_ne_one hdigests
  rw [← hsame]
  exact hbody

end Transfer

-- Whatever the digest is: a message is accepted exactly when every dictionary of its payload
-- has keys of one kind, in the order of their texts.
theorem survives_iff {floatText : BitVec 64 → List Char} {floatOf : List Char → BitVec 64}
    {message : CrossBotMessage} (h : Accepted floatText floatOf (.dict message.payload))
    (now : Timestamp) (freshId secret : String) :
    (∀ hmac, Survives { hmac, floatText, floatOf } now freshId secret message) ↔
      TextOrdered (.dict message.payload) := by
  constructor
  · intro hall
    let runtime : Runtime := { hmac := fun _ _ => 0, floatText, floatOf }
    have hbody : message.signingBody runtime = some (message.readBody runtime) :=
      signingBody_of_survives h hall
    exact (signingBody_eq_iff h).mp hbody
  · intro hordered hmac
    let runtime : Runtime := { hmac, floatText, floatOf }
    have hbody : message.signingBody runtime = some (message.readBody runtime) :=
      (signingBody_eq_iff h).mpr hordered
    exact (survives_iff_digest now freshId secret h).mpr ⟨_, hbody, rfl⟩

section Examples

def epoch : Timestamp :=
  ⟨0, by norm_num⟩

-- A shared memory whose value has int keys.
def scores (last : Int) : CrossBotMessage where
  fromBotId := "scout"
  type := msgMemoryShare
  payload := [(.str "key", .str "scores"),
    (.str "value", .dict [(.int 2, .str "b"), (.int last, .str "j")]), (.str "scope", .str "shared")]
  msgId := "7f3a"
  timestamp := epoch

def zeroText : BitVec 64 → List Char := fun _ => ['0', '.', '0']

theorem accepted_scores {last : Int} (hkeys : [Key.int 2, Key.int last].Nodup)
    (hlast : (Key.int last).Accepted) :
    Accepted zeroText (fun _ => 0) (.dict (scores last).payload) := by
  have hnames : [Key.str "key", Key.str "value", Key.str "scope"].Nodup := by decide
  have htwo : (Key.int 2).Accepted := by decide
  refine ⟨hnames, by simp [scores, Key.Accepted], trivial, ⟨hkeys, ?_, trivial, trivial, trivial⟩,
    trivial, trivial⟩
  simp [htwo, hlast]

theorem survives_iff_scores : TextOrdered (.dict (scores 3).payload) ∧
    ∀ hmac, Survives { hmac, floatText := zeroText, floatOf := fun _ => 0 } epoch "" "s"
      (scores 3) := by
  have hordered : TextOrdered (.dict (scores 3).payload) :=
    ⟨by decide, trivial, ⟨by decide, trivial, trivial, trivial⟩, trivial, trivial⟩
  exact ⟨hordered, (survives_iff (accepted_scores (by decide) (by decide)) _ _ _).mpr hordered⟩

-- 2 comes before 10, and "10" before "2".
theorem scores_rejected : ¬ ∀ hmac,
    Survives { hmac, floatText := zeroText, floatOf := fun _ => 0 } epoch "" "s"
      (scores 10) := by
  intro hall
  let runtime : Runtime := { hmac := fun _ _ => 0, floatText := zeroText, floatOf := fun _ => 0 }
  have haccepted : Accepted runtime.floatText runtime.floatOf (.dict (scores 10).payload) :=
    accepted_scores (by decide) (by decide)
  have hordered := (signingBody_eq_iff haccepted).mp (signingBody_of_survives haccepted hall)
  have hkeys : OrderedKeys [.int 2, .int 10] := hordered.2.2.1.1
  exact absurd hkeys (by decide)

end Examples

end EvoClaw.Identity.Wire
