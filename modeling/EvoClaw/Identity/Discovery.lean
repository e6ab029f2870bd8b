import EvoClaw.Identity.Handshakes
import EvoClaw.Identity.Wire
import EvoClaw.SlidingWindow

-- The trust store of host/channels/crossbot_discovery.py.
namespace EvoClaw.Identity.Discovery

open EventSystem JsonText
open Wire (Runtime Timestamp fromJson)

def ALLOWED_HELLO_TYPES : List String := ["hello", "ack"]

def TRUSTED_SET_MAX : Nat := 1000

def HANDSHAKE_RATE_LIMIT : Nat := 5

def HANDSHAKE_RATE_WINDOW : ℚ := 300

def beginning : List Char := "crossbot/1.0 ".toList

-- The attributes of CrossBotProtocol that the handshake reads. The registry changes.
structure Protocol where
  myBotId : String
  secret : Option String := none
deriving DecidableEq

def isRateLimited (now : ℚ) (timestamps : Timestamps) (authorId : String) : Bool × Timestamps :=
  let (limited, active) := SlidingWindow.attempt HANDSHAKE_RATE_LIMIT HANDSHAKE_RATE_WINDOW now
    (timestamps.get authorId)
  (limited, timestamps.set authorId active)

-- The keys of a dictionary in the order of their insertion.
def addTrusted (trusted : List String) (authorId : String) : List String :=
  if authorId ∈ trusted then trusted
  else (if TRUSTED_SET_MAX ≤ trusted.length then trusted.tail else trusted) ++ [authorId]

section Judging

variable (runtime : Runtime) (protocol : Protocol) (registry : Option BotRegistry)

-- Guard 1. None where verify raises.
def signatureOk (message : Wire.CrossBotMessage) : Option Bool :=
  match protocol.secret with
  | none => some true
  | some secret => if secret = "" then some true else message.verify runtime secret

-- Guard 2
def registryOk (message : Wire.CrossBotMessage) : Bool :=
  match registry with
  | none => true
  | some registry => (registry.lookup message.fromBotId).isSome

inductive Verdict where
  | failed
  | ignored
  | badSignature
  | unregistered
  | ownId
  | hello (message : Wire.CrossBotMessage)
  | ack (message : Wire.CrossBotMessage)

-- The body of the try block of handle_bot_message up to its first await.
def judge (now : Timestamp) (freshId : String) (payload : List Char) : Verdict :=
  match fromJson runtime now freshId payload with
  | none => .failed
  | some message =>
      if message.type ∉ ALLOWED_HELLO_TYPES then .ignored
      else match signatureOk runtime protocol message with
        | none => .failed
        | some false => .badSignature
        | some true =>
            if registryOk registry message = false then .unregistered
            else if message.fromBotId = protocol.myBotId then .ownId
            else if message.type = "hello" then .hello message
            else .ack message

-- What a message has to pass before its author is trusted.
structure Passes (message : Wire.CrossBotMessage) : Prop where
  type : message.type ∈ ALLOWED_HELLO_TYPES
  signature : signatureOk runtime protocol message = some true
  registry : registryOk registry message = true
  other : message.fromBotId ≠ protocol.myBotId

end Judging

-- A handle_bot_message that awaits the sending of its ack.
structure Sending where
  id : Nat
  authorId : String
  message : Wire.CrossBotMessage

structure State where
  trusted : List String := []
  timestamps : Timestamps := []
  registry : Option BotRegistry := none
  sending : List Sending := []
  nextId : Nat := 0
  clock : ℚ := 0

inductive Event where
  | receive (authorId : String) (content : List Char) (now : Timestamp) (freshId : String)
  | ackSent (id : Nat)
  | ackFailed (id : Nat)
  | registryChanges (registry : Option BotRegistry)
  | tick (elapsed : ℚ)

namespace State

variable (runtime : Runtime) (protocol : Protocol)

def withoutSending (state : State) (id : Nat) : State :=
  { state with sending := state.sending.filter (·.id ≠ id) }

def sending? (state : State) (id : Nat) : Option Sending :=
  state.sending.find? fun sending => sending.id = id

def handle (state : State) (authorId : String) : Verdict → State
  | .hello message =>
      { state with
        sending := state.sending ++ [⟨state.nextId, authorId, message⟩]
        nextId := state.nextId + 1 }
  | .ack _ => { state with trusted := addTrusted state.trusted authorId }
  | _ => state

def receive (state : State) (authorId : String) (content : List Char) (now : Timestamp)
    (freshId : String) : State :=
  if beginning.isPrefixOf content then
    let (limited, timestamps) := isRateLimited state.clock state.timestamps authorId
    let state := { state with timestamps }
    if limited then state
    else state.handle authorId
      (judge runtime protocol state.registry now freshId (content.drop beginning.length))
  else state

def step (state : State) : Event → Option State
  | .receive authorId content now freshId =>
      some (state.receive runtime protocol authorId content now freshId)
  | .ackSent id => (state.sending? id).map fun sending =>
      { state.withoutSending id with trusted := addTrusted state.trusted sending.authorId }
  | .ackFailed id => (state.sending? id).map fun _ => state.withoutSending id
  | .registryChanges registry => some { state with registry }
  | .tick elapsed => if 0 ≤ elapsed then some { state with clock := state.clock + elapsed } else none

end State

-- A message that passed, with the registry at that time.
structure Evidence where
  authorId : String
  message : Wire.CrossBotMessage
  registry : Option BotRegistry

-- The store beside what has happened to it: the handshake messages that were not dropped for
-- their rate, those that passed, the hellos whose ack has been sent, and who was added.
structure Ledger where
  state : State := {}
  examined : List (String × ℚ) := []
  passed : List Evidence := []
  answered : List (String × Wire.CrossBotMessage) := []
  added : List String := []

namespace Ledger

variable (runtime : Runtime) (protocol : Protocol)

def add (added trusted : List String) (authorId : String) : List String :=
  if authorId ∈ trusted then added else added ++ [authorId]

def note (ledger : Ledger) (authorId : String) : Verdict → Ledger
  | .hello message =>
      { ledger with passed := ledger.passed ++ [⟨authorId, message, ledger.state.registry⟩] }
  | .ack message =>
      { ledger with
        passed := ledger.passed ++ [⟨authorId, message, ledger.state.registry⟩]
        added := add ledger.added ledger.state.trusted authorId }
  | _ => ledger

def record (ledger : Ledger) : Event → Ledger
  | .receive authorId content now freshId =>
      if beginning.isPrefixOf content then
        if (isRateLimited ledger.state.clock ledger.state.timestamps authorId).1 then ledger
        else
          { ledger with
            examined := ledger.examined ++ [(authorId, ledger.state.clock)] }.note authorId
              (judge runtime protocol ledger.state.registry now freshId
                (content.drop beginning.length))
      else ledger
  | .ackSent id =>
      match ledger.state.sending? id with
      | some sending =>
          { ledger with
            answered := ledger.answered ++ [(sending.authorId, sending.message)]
            added := add ledger.added ledger.state.trusted sending.authorId }
      | none => ledger
  | _ => ledger

def step (ledger : Ledger) (event : Event) : Option Ledger :=
  (ledger.state.step runtime protocol event).map fun next =>
    { ledger.record runtime protocol event with state := next }

end Ledger

-- The times at which messages of the author were examined.
def examinedAt (examined : List (String × ℚ)) (authorId : String) : List ℚ :=
  (examined.filter fun entry => entry.1 = authorId).map Prod.snd

-- The author sent a message that passed, and got an answer if it was a hello.
def Earned (runtime : Runtime) (protocol : Protocol) (ledger : Ledger) (authorId : String) : Prop :=
  ∃ evidence ∈ ledger.passed, evidence.authorId = authorId ∧
    Passes runtime protocol evidence.registry evidence.message ∧
    (evidence.message.type = "hello" → (authorId, evidence.message) ∈ ledger.answered)

structure Safe (runtime : Runtime) (protocol : Protocol) (ledger : Ledger) : Prop where
  earned : ∀ authorId ∈ ledger.state.trusted, Earned runtime protocol ledger authorId
  -- whoever was added last is trusted, as many as fit
  newest : ledger.state.trusted <:+ ledger.added
  most : ledger.state.trusted.length = min ledger.added.length TRUSTED_SET_MAX
  -- no five minutes see more than five messages of an author
  limited : ∀ authorId (inside : ℚ → Bool),
    (∀ s t, inside s = true → inside t = true → t - s < HANDSHAKE_RATE_WINDOW) →
    (examinedAt ledger.examined authorId).countP inside ≤ HANDSHAKE_RATE_LIMIT

section Adding

variable {trusted added : List String} {authorId other : String}

theorem mem_addTrusted (h : other ∈ addTrusted trusted authorId) :
    other = authorId ∨ other ∈ trusted := by
  unfold addTrusted at h
  split at h
  · exact .inr h
  · rcases List.mem_append.mp h with h | h
    · split at h
      · exact .inr (List.mem_of_mem_tail h)
      · exact .inr h
    · exact .inl (List.mem_singleton.mp h)

theorem addTrusted_newest (h : trusted <:+ added) :
    addTrusted trusted authorId <:+ Ledger.add added trusted authorId := by
  unfold addTrusted Ledger.add
  split
  · exact h
  · have hkept : (if TRUSTED_SET_MAX ≤ trusted.length then trusted.tail else trusted) <:+ added := by
      split
      · exact (List.tail_suffix trusted).trans h
      · exact h
    obtain ⟨front, rfl⟩ := hkept
    exact ⟨front, by rw [List.append_assoc]⟩

-- The eviction makes room for one.
theorem addTrusted_most (h : trusted.length = min added.length TRUSTED_SET_MAX) :
    (addTrusted trusted authorId).length =
      min (Ledger.add added trusted authorId).length TRUSTED_SET_MAX := by
  unfold addTrusted Ledger.add
  split
  · exact h
  · by_cases hfull : TRUSTED_SET_MAX ≤ trusted.length
    · rw [if_pos hfull, List.length_append, List.length_append, List.length_singleton,
        List.length_tail]
      simp only [TRUSTED_SET_MAX] at h hfull ⊢
      omega
    · rw [if_neg hfull, List.length_append, List.length_append, List.length_singleton]
      simp only [TRUSTED_SET_MAX] at h hfull ⊢
      omega

end Adding

section Judgement

variable {runtime : Runtime} {protocol : Protocol} {registry : Option BotRegistry} {now : Timestamp}
  {freshId : String} {payload : List Char} {message : Wire.CrossBotMessage}

variable (runtime protocol registry now freshId payload) in
theorem judge_cases : (∃ message, judge runtime protocol registry now freshId payload =
      .hello message ∧ Passes runtime protocol registry message) ∨
    (∃ message, judge runtime protocol registry now freshId payload = .ack message ∧
      Passes runtime protocol registry message ∧ message.type ≠ "hello") ∨
    ∀ (state : State) (ledger : Ledger) (authorId : String),
      state.handle authorId (judge runtime protocol registry now freshId payload) = state ∧
      ledger.note authorId (judge runtime protocol registry now freshId payload) = ledger := by
  cases hread : fromJson runtime now freshId payload with
  | none =>
      have hjudge : judge runtime protocol registry now freshId payload = .failed := by
        simp [judge, hread]
      exact .inr (.inr fun _ _ _ => by rw [hjudge]; exact ⟨rfl, rfl⟩)
  | some message =>
      by_cases htype : message.type ∈ ALLOWED_HELLO_TYPES
      · by_cases hsignature : signatureOk runtime protocol message = some true
        · by_cases hregistry : registryOk registry message = true
          · by_cases hown : message.fromBotId = protocol.myBotId
            · have hjudge : judge runtime protocol registry now freshId payload = .ownId := by
                simp [judge, hread, htype, hsignature, hregistry, hown]
              exact .inr (.inr fun _ _ _ => by rw [hjudge]; exact ⟨rfl, rfl⟩)
            · have hpasses : Passes runtime protocol registry message :=
                ⟨htype, hsignature, hregistry, hown⟩
              by_cases hhello : message.type = "hello"
              · exact .inl ⟨message, by simp [judge, hread, hsignature, hregistry, hown, hhello,
                  ALLOWED_HELLO_TYPES], hpasses⟩
              · exact .inr (.inl ⟨message, by simp [judge, hread, htype, hsignature, hregistry, hown,
                  hhello], hpasses, hhello⟩)
          · have hjudge : judge runtime protocol registry now freshId payload = .unregistered := by
              simp [judge, hread, htype, hsignature, hregistry]
            exact .inr (.inr fun _ _ _ => by rw [hjudge]; exact ⟨rfl, rfl⟩)
        · have hjudge : judge runtime protocol registry now freshId payload = .failed ∨
              judge runtime protocol registry now freshId payload = .badSignature := by
            cases hraised : signatureOk runtime protocol message with
            | none => simp [judge, hread, htype, hraised]
            | some valid =>
                cases valid with
                | false => simp [judge, hread, htype, hraised]
                | true => exact absurd hraised hsignature
          rcases hjudge with hjudge | hjudge <;>
            exact .inr (.inr fun _ _ _ => by rw [hjudge]; exact ⟨rfl, rfl⟩)
      · have hjudge : judge runtime protocol registry now freshId payload = .ignored := by
          simp [judge, hread, htype]
        exact .inr (.inr fun _ _ _ => by rw [hjudge]; exact ⟨rfl, rfl⟩)

end Judgement

section Limiting

variable {examined : List (String × ℚ)} {timestamps : Timestamps} {authorId other : String} {clock : ℚ}

theorem examinedAt_append : examinedAt (examined ++ [(authorId, clock)]) other =
    examinedAt examined other ++ if other = authorId then [clock] else [] := by
  unfold examinedAt
  rw [List.filter_append, List.map_append]
  by_cases h : other = authorId
  · simp [h]
  · simp [h, Ne.symm h]

-- What the limiter knows of every author.
def Limited (examined : List (String × ℚ)) (timestamps : Timestamps) (clock : ℚ) : Prop :=
  ∀ authorId, SlidingWindow.Sparse HANDSHAKE_RATE_LIMIT HANDSHAKE_RATE_WINDOW clock
    (examinedAt examined authorId) (timestamps.get authorId)

theorem Limited.request (h : Limited examined timestamps clock) :
    Limited
      (examined ++ if (isRateLimited clock timestamps authorId).1 then [] else [(authorId, clock)])
      (isRateLimited clock timestamps authorId).2 clock := by
  intro other
  have hsparse := (h authorId).attempt
  by_cases hother : other = authorId
  · subst hother
    have hget : (isRateLimited clock timestamps other).2.get other =
        (SlidingWindow.attempt HANDSHAKE_RATE_LIMIT HANDSHAKE_RATE_WINDOW clock
          (timestamps.get other)).2 := get_set_self
    have hlimited : (isRateLimited clock timestamps other).1 =
        (SlidingWindow.attempt HANDSHAKE_RATE_LIMIT HANDSHAKE_RATE_WINDOW clock
          (timestamps.get other)).1 := rfl
    rw [hget, hlimited]
    split at hsparse
    · next hyes => simpa [hyes] using hsparse
    · next hno => simpa [hno, examinedAt_append] using hsparse
  · have hget : (isRateLimited clock timestamps authorId).2.get other = timestamps.get other :=
      get_set_of_ne hother
    rw [hget]
    split
    · rw [List.append_nil]
      exact h other
    · rw [examinedAt_append, if_neg hother, List.append_nil]
      exact h other

end Limiting

-- What every step keeps.
structure Kept (runtime : Runtime) (protocol : Protocol) (ledger : Ledger) : Prop where
  passes : ∀ evidence ∈ ledger.passed, Passes runtime protocol evidence.registry evidence.message
  sending : ∀ sending ∈ ledger.state.sending, ∃ evidence ∈ ledger.passed,
    evidence.authorId = sending.authorId ∧ evidence.message = sending.message
  trusted : ∀ authorId ∈ ledger.state.trusted, ∃ evidence ∈ ledger.passed,
    evidence.authorId = authorId ∧
      (evidence.message.type = "hello" → (authorId, evidence.message) ∈ ledger.answered)
  newest : ledger.state.trusted <:+ ledger.added
  most : ledger.state.trusted.length = min ledger.added.length TRUSTED_SET_MAX
  limited : Limited ledger.examined ledger.state.timestamps ledger.state.clock

namespace Kept

variable {runtime : Runtime} {protocol : Protocol} {ledger after : Ledger} {event : Event}

theorem empty (registry : Option BotRegistry) :
    Kept runtime protocol { state := { registry := registry } } where
  passes := by simp
  sending := by simp
  trusted := by simp
  newest := List.suffix_rfl
  most := rfl
  limited _ := SlidingWindow.sparse_nil _ _ _

theorem safe (h : Kept runtime protocol ledger) : Safe runtime protocol ledger where
  earned authorId hmem := by
    obtain ⟨evidence, hpassed, hauthor, hhello⟩ := h.trusted authorId hmem
    exact ⟨evidence, hpassed, hauthor, h.passes evidence hpassed, hhello⟩
  newest := h.newest
  most := h.most
  limited authorId inside hinside := (h.limited authorId).few inside hinside

theorem request (h : Kept runtime protocol ledger) (authorId : String) :
    Kept runtime protocol { ledger with
      state := { ledger.state with
        timestamps := (isRateLimited ledger.state.clock ledger.state.timestamps authorId).2 }
      examined := ledger.examined ++
        if (isRateLimited ledger.state.clock ledger.state.timestamps authorId).1 then []
        else [(authorId, ledger.state.clock)] } :=
  { h with limited := h.limited.request }

-- The verdict on a message of the author.
theorem note (h : Kept runtime protocol ledger) (authorId : String) (now : Timestamp)
    (freshId : String) (payload : List Char) :
    Kept runtime protocol
      { ledger.note authorId
          (judge runtime protocol ledger.state.registry now freshId payload) with
        state := ledger.state.handle authorId
          (judge runtime protocol ledger.state.registry now freshId payload) } := by
  rcases judge_cases runtime protocol ledger.state.registry now freshId payload with
    ⟨message, hjudge, hpasses⟩ | ⟨message, hjudge, hpasses, hack⟩ | hsame
  · rw [hjudge]
    refine { h with passes := ?_, sending := ?_, trusted := ?_ }
    · intro evidence hmem
      rcases List.mem_append.mp hmem with hmem | hmem
      · exact h.passes evidence hmem
      · rw [List.mem_singleton.mp hmem]
        exact hpasses
    · intro sending hmem
      rcases List.mem_append.mp hmem with hmem | hmem
      · obtain ⟨evidence, hpassed, hrest⟩ := h.sending sending hmem
        exact ⟨evidence, List.mem_append_left _ hpassed, hrest⟩
      · rw [List.mem_singleton.mp hmem]
        exact ⟨_, List.mem_append_right _ List.mem_cons_self, rfl, rfl⟩
    · intro other hmem
      obtain ⟨evidence, hpassed, hrest⟩ := h.trusted other hmem
      exact ⟨evidence, List.mem_append_left _ hpassed, hrest⟩
  · rw [hjudge]
    refine { h with
      passes := ?_
      sending := ?_
      trusted := ?_
      newest := addTrusted_newest h.newest
      most := addTrusted_most h.most }
    · intro evidence hmem
      rcases List.mem_append.mp hmem with hmem | hmem
      · exact h.passes evidence hmem
      · rw [List.mem_singleton.mp hmem]
        exact hpasses
    · intro sending hmem
      obtain ⟨evidence, hpassed, hrest⟩ := h.sending sending hmem
      exact ⟨evidence, List.mem_append_left _ hpassed, hrest⟩
    · intro other hmem
      rcases mem_addTrusted hmem with rfl | hmem
      · exact ⟨_, List.mem_append_right _ List.mem_cons_self, rfl, fun hhello =>
          absurd hhello hack⟩
      · obtain ⟨evidence, hpassed, hrest⟩ := h.trusted other hmem
        exact ⟨evidence, List.mem_append_left _ hpassed, hrest⟩
  · obtain ⟨hstate, hledger⟩ := hsame ledger.state ledger authorId
    rw [hstate, hledger]
    exact h

theorem withoutSending (h : Kept runtime protocol ledger) (id : Nat) :
    Kept runtime protocol { ledger with state := ledger.state.withoutSending id } :=
  { h with sending := fun sending hmem => h.sending sending (List.mem_of_mem_filter hmem) }

theorem answered (h : Kept runtime protocol ledger) {sending : Sending}
    (hmem : sending ∈ ledger.state.sending) :
    Kept runtime protocol { ledger with
      state := { ledger.state with trusted := addTrusted ledger.state.trusted sending.authorId }
      answered := ledger.answered ++ [(sending.authorId, sending.message)]
      added := Ledger.add ledger.added ledger.state.trusted sending.authorId } := by
  refine { h with
    trusted := ?_
    newest := addTrusted_newest h.newest
    most := addTrusted_most h.most }
  intro other hother
  rcases mem_addTrusted hother with rfl | hother
  · obtain ⟨evidence, hpassed, hauthor, hmessage⟩ := h.sending sending hmem
    refine ⟨evidence, hpassed, hauthor, fun _ => ?_⟩
    rw [hmessage]
    exact List.mem_append_right _ List.mem_cons_self
  · obtain ⟨evidence, hpassed, hauthor, hhello⟩ := h.trusted other hother
    exact ⟨evidence, hpassed, hauthor, fun htype => List.mem_append_left _ (hhello htype)⟩

theorem step (h : Kept runtime protocol ledger)
    (hstep : ledger.step runtime protocol event = some after) : Kept runtime protocol after := by
  obtain ⟨next, hnext, rfl⟩ := Option.map_eq_some_iff.mp hstep
  cases event with
  | receive authorId content now freshId =>
      cases hnext
      simp only [Ledger.record, State.receive]
      split
      · have hrequest := h.request authorId
        by_cases hlimited : (isRateLimited ledger.state.clock ledger.state.timestamps authorId).1 =
            true
        · simp only [hlimited, if_true, List.append_nil] at hrequest ⊢
          exact hrequest
        · simp only [hlimited] at hrequest ⊢
          have hnote := hrequest.note authorId now freshId (content.drop beginning.length)
          revert hnote
          cases judge runtime protocol ledger.state.registry now freshId
            (content.drop beginning.length) <;> exact id
      · exact h
  | ackSent id =>
      obtain ⟨sending, hfind, rfl⟩ := Option.map_eq_some_iff.mp hnext
      simp only [Ledger.record, hfind]
      exact (h.answered (Keyed.find?_spec hfind).1).withoutSending id
  | ackFailed id =>
      obtain ⟨sending, hfind, rfl⟩ := Option.map_eq_some_iff.mp hnext
      exact h.withoutSending id
  | registryChanges registry =>
      cases hnext
      exact { h with }
  | tick elapsed =>
      simp only [State.step] at hnext
      split at hnext
      · next helapsed =>
          cases hnext
          exact { h with limited := fun authorId =>
            (h.limited authorId).later (le_add_of_nonneg_right helapsed) }
      · cases hnext

end Kept

-- Whatever is received in whichever order, trust is earned, and it is kept by those who earned
-- theirs last.
theorem trust_is_earned (runtime : Runtime) (protocol : Protocol) (registry : Option BotRegistry)
    (events : List Event) :
    Always (Ledger.step runtime protocol) (Safe runtime protocol)
      { state := { registry := registry } } events := by
  have hguard : Along (Ledger.step runtime protocol) (fun _ _ => True)
      { state := { registry := registry } } events := along_of_forall (fun _ _ => trivial) _ _
  exact hguard.always (Kept runtime protocol) (fun _ _ _ h _ hstep => h.step hstep)
    (fun _ h => h.safe) (.empty registry)

section Unsigned

variable {runtime : Runtime} {protocol : Protocol} {secret : String} {message : Wire.CrossBotMessage}

namespace Protocol

-- make_hello and make_ack, with their time and their new id.
variable (peer : Protocol) (timestamp : Timestamp) (msgId : String)

def makeHello : Wire.CrossBotMessage where
  fromBotId := peer.myBotId
  type := msgHello
  payload := [(.str "nonce", .null), (.str "version", .str protocolVersion)]
  msgId := msgId
  timestamp := timestamp

def makeAck (original : Wire.CrossBotMessage) : Wire.CrossBotMessage where
  fromBotId := peer.myBotId
  toBotId := some original.fromBotId
  type := msgAck
  payload := [(.str "ack_msg_id", .str original.msgId),
    (.str "nonce", (original.payload.lookup (.str "nonce")).getD .null)]
  msgId := msgId
  timestamp := timestamp

end Protocol

-- The contents that on_channel_connect and handle_bot_message send.
inductive Sent (runtime : Runtime) : List Char → Prop
  | hello (peer : Protocol) (timestamp : Timestamp) (msgId : String) :
      Sent runtime (beginning ++ (peer.makeHello timestamp msgId).toJson runtime)
  | ack (peer : Protocol) (timestamp : Timestamp) (msgId : String)
      (original : Wire.CrossBotMessage)
      (hreadable : Readable runtime.floatText runtime.floatOf
        (encode (.dict (peer.makeAck timestamp msgId original).payload))) :
      Sent runtime (beginning ++ (peer.makeAck timestamp msgId original).toJson runtime)

-- A handshake comes from a peer that runs this code. Other messages are free.
def FromPeers (runtime : Runtime) : Event → Prop
  | .receive _ content _ _ => beginning.isPrefixOf content = true → Sent runtime content
  | _ => True

theorem Sent.unsigned {content : List Char} (h : Sent runtime content) :
    ∃ message : Wire.CrossBotMessage, message.signature = none ∧
      Readable runtime.floatText runtime.floatOf (encode (.dict message.payload)) ∧
      content.drop beginning.length = message.toJson runtime := by
  cases h with
  | hello peer timestamp msgId =>
      refine ⟨peer.makeHello timestamp msgId, rfl, ?_, List.drop_left' rfl⟩
      exact ⟨show ["nonce", "version"].Nodup by decide, trivial, trivial, trivial⟩
  | ack peer timestamp msgId original hreadable =>
      exact ⟨peer.makeAck timestamp msgId original, rfl, hreadable, List.drop_left' rfl⟩

-- Guard 1 rejects it, where the type did not end it before.
theorem judge_unsigned (hsecret : protocol.secret = some secret) (hset : secret ≠ "")
    (hunsigned : message.signature = none)
    (hreadable : Readable runtime.floatText runtime.floatOf (encode (.dict message.payload)))
    (registry : Option BotRegistry) (now : Timestamp) (freshId : String) :
    judge runtime protocol registry now freshId (message.toJson runtime) = .ignored ∨
      judge runtime protocol registry now freshId (message.toJson runtime) = .badSignature := by
  obtain ⟨received, hread, hsignature, -⟩ :=
    Wire.received_of_toJson message now freshId hreadable
  have hrejected : signatureOk runtime protocol received = some false := by
    rw [signatureOk, hsecret]
    simp only [if_neg hset, Wire.CrossBotMessage.verify, hsignature, hunsigned]
  by_cases htype : received.type ∈ ALLOWED_HELLO_TYPES
  · exact .inr (by simp [judge, hread, htype, hrejected])
  · exact .inl (by simp [judge, hread, htype])

-- Neither a trusted author nor an answer on its way.
def Untrusting (state : State) : Prop :=
  state.trusted = [] ∧ state.sending = []

theorem untrusting_step (hsecret : protocol.secret = some secret) (hset : secret ≠ "")
    {state next : State} {event : Event} (h : Untrusting state) (hevent : FromPeers runtime event)
    (hstep : state.step runtime protocol event = some next) : Untrusting next := by
  cases event with
  | receive authorId content now freshId =>
      cases hstep
      unfold State.receive
      split
      · next hprefix =>
          obtain ⟨message, hunsigned, hreadable, hcontent⟩ := (hevent hprefix).unsigned
          dsimp only
          split
          · exact h
          · rw [hcontent]
            rcases judge_unsigned hsecret hset hunsigned hreadable state.registry now freshId with
              hjudge | hjudge <;>
            · rw [hjudge]
              exact h
      · exact h
  | ackSent id =>
      obtain ⟨sending, hfind, -⟩ := Option.map_eq_some_iff.mp hstep
      have hmem := (Keyed.find?_spec hfind).1
      rw [h.2] at hmem
      cases hmem
  | ackFailed id =>
      obtain ⟨sending, hfind, -⟩ := Option.map_eq_some_iff.mp hstep
      have hmem := (Keyed.find?_spec hfind).1
      rw [h.2] at hmem
      cases hmem
  | registryChanges registry =>
      cases hstep
      exact h
  | tick elapsed =>
      simp only [State.step] at hstep
      split at hstep
      · cases hstep
        exact h
      · cases hstep

-- Nobody signs a hello or an ack, so that with a secret no handshake between peers succeeds.
theorem secret_trusts_nobody (runtime : Runtime) (protocol : Protocol) (secret : String)
    (registry : Option BotRegistry) (events : List Event) (hsecret : protocol.secret = some secret)
    (hset : secret ≠ "") (hpeers : ∀ event ∈ events, FromPeers runtime event) :
    Always (State.step runtime protocol) (fun state => state.trusted = [])
      { registry := registry } events := by
  have hguard : Along (State.step runtime protocol) (fun _ event => FromPeers runtime event)
      { registry := registry } events :=
    along_of_mem (fun event hevent _ => hpeers event hevent) _
  exact hguard.always Untrusting
    (fun _ _ _ h hevent hstep => untrusting_step hsecret hset h hevent hstep)
    (fun _ h => h.1) ⟨rfl, rfl⟩

-- A greeting of the scout under the shared secret.
theorem scout_not_trusted :
    let runtime : Runtime :=
      { hmac := fun _ _ => 0, floatText := Wire.zeroText, floatOf := fun _ => 0 }
    Always (State.step runtime { myBotId := "evo", secret := some "s" })
      (fun state => state.trusted = []) {}
      [.receive "7" (beginning ++ (({ myBotId := "scout", secret := some "s" } :
        Protocol).makeHello Wire.epoch "7f3a").toJson runtime) Wire.epoch "0"] := by
  refine secret_trusts_nobody _ _ "s" none _ rfl (by decide) ?_
  intro event hevent
  rw [List.mem_singleton.mp hevent]
  exact fun _ => .hello _ _ _

end Unsigned

end EvoClaw.Identity.Discovery
