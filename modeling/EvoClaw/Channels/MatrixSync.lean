import EvoClaw.EventSystem.Runs
import EvoClaw.Json
import EvoClaw.Numeric.Double

-- MatrixChannel.sync and start_listening, with a server that keeps a log of events.
namespace EvoClaw.Channels

open EventSystem

section Parsing

-- A number of milliseconds over 1000: a double for an integer, and else the float to divide.
inductive Seconds where
  | real (value : ℚ)
  | quotient (bits : BitVec 64)

-- value / 1000, none where it raises: a TypeError, or an OverflowError for an int.
def seconds : Json → Option Seconds
  | .int value => (Numeric.toDouble (value / 1000)).map .real
  | .bool value => (Numeric.toDouble ((if value then 1 else 0) / 1000)).map .real
  | .float bits => some (.quotient bits)
  | .null | .str _ | .arr _ | .obj _ => none

structure MatrixMessage where
  roomId : String
  sender : Json
  body : String
  eventId : Json
  msgType : Json
  timestamp : Seconds
  formattedBody : Json

def undecryptable : List Char := "[Unable to decrypt".toList

-- The body of the loop over a timeline: what it appends to the messages, or an error.
def parseContent (roomId : String) (event content : Payload) :
    Except String (Option MatrixMessage) :=
  if (content.get "msgtype" .null).truthy = false then .ok none
  else if content.get "msgtype" (.str "m.text") = .str "m.bad.encrypted" then .ok none
  else
    match content.get "body" (.str "") with
    | .str body =>
        if undecryptable <+: body.toList then .ok none
        else
          match seconds (event.get "origin_server_ts" (.int 0)) with
          | none => .error "TypeError"
          | some timestamp => .ok (some
              { roomId
                sender := event.get "sender" (.str "")
                body
                eventId := event.get "event_id" (.str "")
                msgType := content.get "msgtype" (.str "m.text")
                timestamp
                formattedBody := content.get "formatted_body" .null })
    | _ => .error "AttributeError"

def parseFields (userId roomId : String) (event : Payload) :
    Except String (Option MatrixMessage) :=
  if event.get "type" .null ≠ .str "m.room.message" then .ok none
  else if event.get "sender" .null = .str userId then .ok none
  else
    match event.get "content" (.obj []) with
    | .obj content => parseContent roomId event content
    | content => if content.truthy then .error "AttributeError" else .ok none

def parseEvent (userId roomId : String) : Json → Except String (Option MatrixMessage)
  | .obj event => parseFields userId roomId event
  | _ => .error "AttributeError"

-- The messages up to the first event that raises, and whether none does.
def parseEvents (userId : String) : List (String × Json) → List MatrixMessage × Bool
  | [] => ([], true)
  | (roomId, event) :: rest =>
      match parseEvent userId roomId event with
      | .error _ => ([], false)
      | .ok none => parseEvents userId rest
      | .ok (some message) =>
          (message :: (parseEvents userId rest).1, (parseEvents userId rest).2)

end Parsing

section Listening

structure MatrixSettings where
  userId : String
  handlers : Nat

-- The events of the server's log come after the token with which the channel starts, and the
-- sync token is a position in it. `calls` is the history of the calls of the handlers.
structure Matrix where
  log : List (String × Json) := []
  syncToken : Nat := 0
  calls : List (Nat × MatrixMessage) := []

-- A sync gets the rooms in an order of the server's, or it fails before there is a response.
inductive MatrixEvent where
  | append (roomId : String) (event : Json)
  | failed
  | sync (rooms : List String)

def Matrix.pending (matrix : Matrix) : List (String × Json) :=
  matrix.log.drop matrix.syncToken

-- The timelines of the rooms, one after the other.
def Matrix.timelines (matrix : Matrix) (rooms : List String) : List (String × Json) :=
  rooms.flatMap fun room => matrix.pending.filter fun entry => entry.1 = room

-- Each handler is called with each message. What a handler raises is logged.
def dispatch (handlers : Nat) (messages : List MatrixMessage) : List (Nat × MatrixMessage) :=
  messages.flatMap fun message => (List.range handlers).map fun handler => (handler, message)

def Matrix.receive (settings : MatrixSettings) (matrix : Matrix) (rooms : List String) : Matrix :=
  let (messages, parsed) := parseEvents settings.userId (matrix.timelines rooms)
  { matrix with
    syncToken := if parsed then matrix.log.length else matrix.syncToken
    calls := matrix.calls ++ dispatch settings.handlers messages }

def Matrix.step (settings : MatrixSettings) (matrix : Matrix) : MatrixEvent → Option Matrix
  | .append roomId event => some { matrix with log := matrix.log ++ [(roomId, event)] }
  | .failed => some matrix
  | .sync rooms =>
      if rooms.Nodup ∧ ∀ entry ∈ matrix.pending, entry.1 ∈ rooms then
        some (matrix.receive settings rooms)
      else none

end Listening

section Property

-- What an event is by itself.
def messageOf (userId : String) (entry : String × Json) : Option MatrixMessage :=
  match parseEvent userId entry.1 entry.2 with
  | .ok message => message
  | .error _ => none

-- The messages of a room, by their events alone.
def messagesIn (userId roomId : String) (log : List (String × Json)) : List MatrixMessage :=
  (log.filter fun entry => entry.1 = roomId).filterMap (messageOf userId)

def Matrix.callsOf (matrix : Matrix) (handler : Nat) (roomId : String) : List MatrixMessage :=
  (matrix.calls.filter fun made => made.1 = handler ∧ made.2.roomId = roomId).map Prod.snd

-- Every handler has got the messages of every room in order, each of them once, up to some point.
def Matrix.InOrder (settings : MatrixSettings) (matrix : Matrix) : Prop :=
  ∀ handler < settings.handlers, ∀ roomId,
    matrix.callsOf handler roomId <+: messagesIn settings.userId roomId matrix.log

-- A sync that gets a response leaves none behind.
def CatchesUp (settings : MatrixSettings) (matrix : Matrix) : MatrixEvent → Prop
  | .append _ _ | .failed => True
  | .sync rooms => ∀ next, matrix.step settings (.sync rooms) = some next →
      ∀ handler < settings.handlers, ∀ roomId,
        next.callsOf handler roomId = messagesIn settings.userId roomId next.log

structure DispatchesOnce (settings : MatrixSettings) (events : List MatrixEvent) : Prop where
  in_order : Always (Matrix.step settings) (Matrix.InOrder settings) {} events
  catches_up : Along (Matrix.step settings) (CatchesUp settings) {} events

-- Nothing in the content makes the loop raise.
def ReadableContent (event content : Payload) : Prop :=
  (content.get "msgtype" .null).truthy = true →
    content.get "msgtype" (.str "m.text") ≠ .str "m.bad.encrypted" →
      ∃ body, content.get "body" (.str "") = .str body ∧ (¬ undecryptable <+: body.toList →
        (seconds (event.get "origin_server_ts" (.int 0))).isSome = true)

def ReadableFields (userId : String) (event : Payload) : Prop :=
  event.get "type" .null = .str "m.room.message" → event.get "sender" .null ≠ .str userId →
    match event.get "content" (.obj []) with
    | .obj content => ReadableContent event content
    | content => content.truthy = false

def Readable (userId : String) : Json → Prop
  | .obj event => ReadableFields userId event
  | _ => False

def ReadsAll (settings : MatrixSettings) (matrix : Matrix) : MatrixEvent → Prop
  | .append _ _ | .failed => True
  | .sync _ => ∀ entry ∈ matrix.pending, Readable settings.userId entry.2

end Property

section Reading

variable {userId roomId : String} {event : Json} {entries : List (String × Json)}

theorem parseContent_ok {event content : Payload} (h : ReadableContent event content) :
    ∃ message, parseContent roomId event content = .ok message := by
  unfold parseContent
  by_cases hmsgtype : (content.get "msgtype" .null).truthy = true
  · rw [if_neg (by simp [hmsgtype])]
    split
    · exact ⟨none, rfl⟩
    · next hbad =>
        obtain ⟨body, hbody, hseconds⟩ := h hmsgtype hbad
        rw [hbody]
        simp only
        split
        · exact ⟨none, rfl⟩
        · next hplain =>
            obtain ⟨timestamp, htimestamp⟩ := Option.isSome_iff_exists.mp (hseconds hplain)
            rw [htimestamp]
            exact ⟨_, rfl⟩
  · rw [if_pos (by simpa using hmsgtype)]
    exact ⟨none, rfl⟩

theorem parseEvent_ok (h : Readable userId event) :
    ∃ message, parseEvent userId roomId event = .ok message := by
  cases event with
  | obj event =>
      simp only [parseEvent, parseFields]
      split
      · exact ⟨none, rfl⟩
      · next htype =>
          split
          · exact ⟨none, rfl⟩
          · next hsender =>
              have hcontent := h (not_not.mp htype) hsender
              revert hcontent
              cases Payload.get event "content" (.obj []) with
              | obj content => exact parseContent_ok
              | null | bool _ | int _ | float _ | str _ | arr _ =>
                  intro hfalsy
                  simp only at hfalsy ⊢
                  rw [hfalsy]
                  exact ⟨none, rfl⟩
  | null | bool _ | int _ | float _ | str _ | arr _ => exact h.elim

theorem parseEvents_readable (h : ∀ entry ∈ entries, Readable userId entry.2) :
    parseEvents userId entries = (entries.filterMap (messageOf userId), true) := by
  induction entries with
  | nil => rfl
  | cons entry rest ih =>
      obtain ⟨roomId, event⟩ := entry
      have hrest := ih fun other hother => h other (List.mem_cons_of_mem _ hother)
      obtain ⟨message, hmessage⟩ : ∃ message, parseEvent userId roomId event = .ok message :=
        parseEvent_ok (h (roomId, event) List.mem_cons_self)
      rw [parseEvents, hmessage, List.filterMap_cons]
      have hhead : messageOf userId (roomId, event) = message := by
        rw [messageOf, hmessage]
      rw [hhead]
      cases message with
      | none => exact hrest
      | some message =>
          simp only
          rw [hrest]

theorem roomId_of_parseContent {event content : Payload} {message : MatrixMessage}
    (h : parseContent roomId event content = .ok (some message)) : message.roomId = roomId := by
  unfold parseContent at h
  split at h
  · cases h
  · split at h
    · cases h
    · split at h
      · split at h
        · cases h
        · split at h
          · cases h
          · cases h
            rfl
      · cases h

theorem roomId_of_messageOf {entry : String × Json} {message : MatrixMessage}
    (h : messageOf userId entry = some message) : message.roomId = entry.1 := by
  obtain ⟨roomId, event⟩ := entry
  have hparse : parseEvent userId roomId event = .ok (some message) := by
    rw [messageOf] at h
    split at h
    · next other hother =>
        rw [hother, h]
    · cases h
  cases event with
  | obj event =>
      simp only [parseEvent, parseFields] at hparse
      split at hparse
      · cases hparse
      · split at hparse
        · cases hparse
        · split at hparse
          · exact roomId_of_parseContent hparse
          · split at hparse <;> cases hparse
  | null | bool _ | int _ | float _ | str _ | arr _ => cases hparse

end Reading

section Dispatching

variable {settings : MatrixSettings} {matrix next : Matrix} {event : MatrixEvent}
  {userId roomId : String} {log entries : List (String × Json)} {rooms : List String}
  {handler handlers : Nat}

theorem messagesIn_append (first second : List (String × Json)) :
    messagesIn userId roomId (first ++ second) =
      messagesIn userId roomId first ++ messagesIn userId roomId second := by
  rw [messagesIn, List.filter_append, List.filterMap_append]
  rfl

theorem filter_messagesIn (room : String) :
    (messagesIn userId roomId log).filter (fun message => message.roomId = room) =
      if roomId = room then messagesIn userId roomId log else [] := by
  have hroom : ∀ message ∈ messagesIn userId roomId log, message.roomId = roomId := by
    intro message hmessage
    obtain ⟨entry, hentry, hparsed⟩ := List.mem_filterMap.mp hmessage
    rw [roomId_of_messageOf hparsed]
    exact of_decide_eq_true (List.mem_filter.mp hentry).2
  split
  · next heq =>
      rw [List.filter_eq_self]
      intro message hmessage
      exact decide_eq_true ((hroom message hmessage).trans heq)
  · next hne =>
      rw [List.filter_eq_nil_iff]
      intro message hmessage heq
      exact hne ((hroom message hmessage).symm.trans (of_decide_eq_true heq))

theorem messagesIn_of_notMem (h : ∀ entry ∈ log, entry.1 ≠ roomId) :
    messagesIn userId roomId log = [] := by
  have hnone : log.filter (fun entry => entry.1 = roomId) = [] := by
    rw [List.filter_eq_nil_iff]
    intro entry hentry heq
    exact h entry hentry (of_decide_eq_true heq)
  rw [messagesIn, hnone]
  rfl

-- In each room, the timelines have the pending events in their order.
theorem filter_timelines (hrooms : rooms.Nodup) (hall : ∀ entry ∈ log, entry.1 ∈ rooms)
    (roomId : String) :
    ((rooms.flatMap fun room => log.filter fun entry => entry.1 = room).filterMap
      (messageOf userId)).filter (fun message => message.roomId = roomId) =
        messagesIn userId roomId log := by
  have hrest : ∀ rooms : List String, rooms.Nodup →
      ((rooms.flatMap fun room => log.filter fun entry => entry.1 = room).filterMap
        (messageOf userId)).filter (fun message => message.roomId = roomId) =
          if roomId ∈ rooms then messagesIn userId roomId log else [] := by
    intro rooms hrooms
    induction rooms with
    | nil => rfl
    | cons room rooms ih =>
        rw [List.nodup_cons] at hrooms
        have hroom : ((log.filter fun entry => entry.1 = room).filterMap
            (messageOf userId)).filter (fun message => message.roomId = roomId) =
              if room = roomId then messagesIn userId room log else [] := filter_messagesIn roomId
        rw [List.flatMap_cons, List.filterMap_append, List.filter_append, ih hrooms.2, hroom]
        by_cases heq : room = roomId
        · subst heq
          simp [hrooms.1, messagesIn]
        · simp [heq, Ne.symm heq]
  rw [hrest rooms hrooms]
  split
  · rfl
  · next hnotin =>
      refine (messagesIn_of_notMem fun entry hentry heq => hnotin ?_).symm
      rw [← heq]
      exact hall entry hentry

-- Each handler gets the messages that are dispatched, in order.
theorem callsOf_dispatch (hhandler : handler < handlers) (messages : List MatrixMessage) :
    ((dispatch handlers messages).filter fun made =>
      made.1 = handler ∧ made.2.roomId = roomId).map Prod.snd =
        messages.filter fun message => message.roomId = roomId := by
  have honce : (List.range handlers).filter (fun other => other = handler) = [handler] := by
    rw [List.filter_eq, List.nodup_range.count, if_pos (List.mem_range.mpr hhandler)]
    rfl
  induction messages with
  | nil => rfl
  | cons message messages ih =>
      have hfirst : (((List.range handlers).map fun other => (other, message)).filter fun made =>
          made.1 = handler ∧ made.2.roomId = roomId).map Prod.snd =
            [message].filter fun message => message.roomId = roomId := by
        rw [List.filter_map, List.map_map]
        by_cases hroom : message.roomId = roomId
        · simp [Function.comp_def, hroom, honce]
        · simp [Function.comp_def, hroom]
      rw [dispatch, List.flatMap_cons, List.filter_append, List.map_append, hfirst]
      rw [dispatch] at ih
      rw [ih, ← List.filter_append, List.singleton_append]

-- All messages before the token have been dispatched, and none behind it.
def Matrix.UpToToken (settings : MatrixSettings) (matrix : Matrix) : Prop :=
  matrix.syncToken ≤ matrix.log.length ∧ ∀ handler < settings.handlers, ∀ roomId,
    matrix.callsOf handler roomId =
      messagesIn settings.userId roomId (matrix.log.take matrix.syncToken)

theorem Matrix.UpToToken.inOrder (h : matrix.UpToToken settings) : matrix.InOrder settings := by
  intro handler hhandler roomId
  rw [h.2 handler hhandler roomId]
  refine ⟨messagesIn settings.userId roomId (matrix.log.drop matrix.syncToken), ?_⟩
  rw [← messagesIn_append, List.take_append_drop]

theorem receive_readable (hreads : ∀ entry ∈ matrix.pending, Readable settings.userId entry.2) :
    matrix.receive settings rooms =
      { matrix with
        syncToken := matrix.log.length
        calls := matrix.calls ++ dispatch settings.handlers
          ((matrix.timelines rooms).filterMap (messageOf settings.userId)) } := by
  have htimelines : ∀ entry ∈ matrix.timelines rooms, Readable settings.userId entry.2 := by
    intro entry hentry
    obtain ⟨room, -, hroom⟩ := List.mem_flatMap.mp hentry
    exact hreads entry (List.mem_filter.mp hroom).1
  rw [Matrix.receive, parseEvents_readable htimelines]
  rfl

theorem callsOf_receive (h : matrix.UpToToken settings) (hrooms : rooms.Nodup)
    (hall : ∀ entry ∈ matrix.pending, entry.1 ∈ rooms)
    (hreads : ∀ entry ∈ matrix.pending, Readable settings.userId entry.2)
    (hhandler : handler < settings.handlers) (roomId : String) :
    (matrix.receive settings rooms).callsOf handler roomId =
      messagesIn settings.userId roomId matrix.log := by
  have hnew : ((dispatch settings.handlers ((matrix.timelines rooms).filterMap
      (messageOf settings.userId))).filter fun made =>
        made.1 = handler ∧ made.2.roomId = roomId).map Prod.snd =
      ((matrix.timelines rooms).filterMap (messageOf settings.userId)).filter
        fun message => message.roomId = roomId := callsOf_dispatch hhandler _
  have hold := h.2 handler hhandler roomId
  rw [Matrix.callsOf] at hold
  rw [receive_readable hreads, Matrix.callsOf, List.filter_append, List.map_append, hnew, hold,
    Matrix.timelines, filter_timelines hrooms hall, ← messagesIn_append, Matrix.pending,
    List.take_append_drop]

theorem upToToken_step (h : matrix.UpToToken settings) (hguard : ReadsAll settings matrix event)
    (hstep : matrix.step settings event = some next) : next.UpToToken settings := by
  cases event with
  | append roomId event =>
      cases hstep
      refine ⟨?_, fun handler hhandler room => ?_⟩
      · rw [List.length_append]
        exact Nat.le_add_right_of_le h.1
      · rw [List.take_append_of_le_length h.1]
        exact h.2 handler hhandler room
  | failed =>
      cases hstep
      exact h
  | sync rooms =>
      simp only [Matrix.step] at hstep
      split at hstep
      · next hserved =>
          cases hstep
          refine ⟨?_, fun handler hhandler room => ?_⟩
          · rw [receive_readable hguard]
          · rw [callsOf_receive h hserved.1 hserved.2 hguard hhandler, receive_readable hguard,
              List.take_length]
      · cases hstep

theorem catchesUp_of_readsAll (h : matrix.UpToToken settings)
    (hguard : ReadsAll settings matrix event) : CatchesUp settings matrix event := by
  cases event with
  | append roomId event => trivial
  | failed => trivial
  | sync rooms =>
      intro next hstep handler hhandler roomId
      simp only [Matrix.step] at hstep
      split at hstep
      · next hserved =>
          cases hstep
          rw [callsOf_receive h hserved.1 hserved.2 hguard hhandler, receive_readable hguard]
      · cases hstep

end Dispatching

section WellFormed

-- A text message of another user, as the protocol has it.
structure WellFormed (userId : String) (event content : Payload) (body : String) : Prop where
  type_eq : event.get "type" .null = .str "m.room.message"
  other_sender : ∃ sender, event.get "sender" .null = .str sender ∧ sender ≠ userId
  content_eq : event.get "content" (.obj []) = .obj content
  msgtype_eq : ∃ msgtype, content.lookup "msgtype" = some (.str msgtype) ∧ msgtype ≠ "" ∧
    msgtype ≠ "m.bad.encrypted"
  body_eq : content.get "body" (.str "") = .str body
  decrypted : ¬ undecryptable <+: body.toList
  timestamp : (seconds (event.get "origin_server_ts" (.int 0))).isSome = true

-- Each of them is a message by itself.
theorem messageOf_of_wellFormed {userId roomId body : String} {event content : Payload}
    (h : WellFormed userId event content body) :
    ∃ message, messageOf userId (roomId, .obj event) = some message ∧ message.body = body := by
  obtain ⟨sender, hsender, hne⟩ := h.other_sender
  obtain ⟨msgtype, hmsgtype, hnonempty, hgood⟩ := h.msgtype_eq
  obtain ⟨timestamp, htimestamp⟩ := Option.isSome_iff_exists.mp h.timestamp
  have hget : ∀ default, content.get "msgtype" default = .str msgtype := fun default => by
    rw [Payload.get, hmsgtype]
    rfl
  have hparse : ∃ message, parseContent roomId event content = .ok (some message) ∧
      message.body = body := by
    rw [parseContent, hget, hget, if_neg (by simpa [Json.truthy] using hnonempty),
      if_neg (by simpa using hgood), h.body_eq]
    simp only
    rw [if_neg h.decrypted, htimestamp]
    exact ⟨_, rfl, rfl⟩
  obtain ⟨message, hmessage, hbody⟩ := hparse
  refine ⟨message, ?_, hbody⟩
  rw [messageOf, parseEvent, parseFields, if_neg (by simp [h.type_eq]),
    if_neg (by simpa [hsender] using hne), h.content_eq]
  simp only
  rw [hmessage]

end WellFormed

-- While all events that the server returns can be read, each message is dispatched once.
theorem matrix_dispatches_once (settings : MatrixSettings) (events : List MatrixEvent)
    (hguard : Along (Matrix.step settings) (ReadsAll settings) {} events) :
    DispatchesOnce settings events := by
  have hstart : Matrix.UpToToken settings {} := ⟨Nat.le_refl 0, fun _ _ _ => rfl⟩
  have hstep := fun matrix event next (h : Matrix.UpToToken settings matrix)
    (hreads : ReadsAll settings matrix event)
    (hstep : matrix.step settings event = some next) => upToToken_step h hreads hstep
  exact ⟨hguard.always _ hstep (fun _ h => h.inOrder) hstart,
    hguard.along _ hstep (fun _ _ h hreads => catchesUp_of_readsAll h hreads) hstart⟩

section OddEvent

def textEvent : Json :=
  .obj [("type", .str "m.room.message"), ("sender", .str "@ann:example.org"),
    ("event_id", .str "$1"), ("origin_server_ts", .int 1000),
    ("content", .obj [("msgtype", .str "m.text"), ("body", .str "hello")])]

def bodylessEvent : Json :=
  .obj [("type", .str "m.room.message"), ("sender", .str "@eve:example.org"),
    ("event_id", .str "$2"), ("origin_server_ts", .int 2000),
    ("content", .obj [("msgtype", .str "m.text"), ("body", .null)])]

def oneHandler : MatrixSettings := { userId := "@bot:example.org", handlers := 1 }

theorem matrix_dispatches_text : DispatchesOnce oneHandler
    [.append "!room" textEvent, .failed, .sync ["!room"]] := by
  refine matrix_dispatches_once oneHandler _ ⟨trivial, trivial, fun entry hentry => ?_, trivial⟩
  rw [List.mem_singleton.mp hentry]
  exact fun _ _ _ _ => ⟨"hello", rfl, fun _ => by decide +kernel⟩

-- A null body behind it makes every sync dispatch the text again.
theorem matrix_repeats_text : ¬ DispatchesOnce oneHandler
    [.append "!room" textEvent, .append "!room" bodylessEvent, .sync ["!room"],
      .sync ["!room"]] := by
  intro h
  have hlengths : (run (Matrix.step oneHandler) {} [.append "!room" textEvent,
      .append "!room" bodylessEvent, .sync ["!room"], .sync ["!room"]]).map (fun final =>
        ((final.callsOf 0 "!room").length,
          (messagesIn oneHandler.userId "!room" final.log).length)) = some (2, 1) := by
    decide +kernel
  obtain ⟨final, hrun, hfinal⟩ := Option.map_eq_some_iff.mp hlengths
  obtain ⟨htwice, honce⟩ := Prod.mk.inj hfinal
  have hprefix := h.in_order.reached hrun 0 (by decide) "!room"
  have hlength := hprefix.length_le
  omega

end OddEvent

end EvoClaw.Channels
