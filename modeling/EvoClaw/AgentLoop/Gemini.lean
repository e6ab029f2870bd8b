import EvoClaw.AgentLoop.Enforcer
import EvoClaw.EventSystem.Runs

namespace EvoClaw.AgentLoop.Gemini

inductive Part where
  | text (text : String)
  | image (path : String)
  | functionCall (name args : String)
  | functionResponse (name result : String)
deriving DecidableEq

-- `isTask` marks the message that carries user_message. The code has no such mark.
structure Content where
  role : String
  parts : List Part
  isTask : Bool := false

namespace Content

def user (text : String) : Content := { role := "user", parts := [.text text] }

-- A user message with nothing but function responses.
def isResponse (msg : Content) : Bool :=
  msg.role = "user" ∧ msg.parts ≠ [] ∧ msg.parts.all fun
    | .functionResponse _ _ => true
    | _ => false

end Content

-- The content of an entry of conversation_history: a text, a list (the text of an item that is a
-- dictionary, str() of another one), or any other value as its truth value and str().
inductive InjectedContent where
  | text (text : String)
  | items (texts : List String)
  | other (truthy : Bool) (text : String)

structure Injected where
  role : String
  content : InjectedContent

structure Env extends Patterns where
  maxIter : Nat
  assistantName : String
  -- the files of the workspace that can be read
  isReadable : String → Bool
  completionPhrase : String → Bool

def imageStart : List Char := "[圖片附件:".toList

-- A match of _parse_message_with_image at the front of a text: the path and what follows.
def matchImage (text : List Char) : Option (List Char × List Char) :=
  if imageStart.isPrefixOf text then
    let behind := text.drop imageStart.length
    let path := behind.takeWhile (· ≠ ']')
    match behind.dropWhile (· ≠ ']') with
    | ']' :: rest => if path = [] then none else some (strip path, rest)
    | _ => none
  else none

-- pattern.search, for the path of the first match.
def firstImage : List Char → Option (List Char)
  | [] => none
  | c :: rest => ((matchImage (c :: rest)).map Prod.fst).or (firstImage rest)

-- pattern.sub with an empty text. The fuel is the length of the text.
def withoutImages : Nat → List Char → List Char
  | 0, text => text
  | _, [] => []
  | fuel + 1, c :: rest =>
      match matchImage (c :: rest) with
      | some (_, behind) => withoutImages fuel behind
      | none => c :: withoutImages fuel rest

def parseMessageWithImage (isReadable : String → Bool) (message : String) : List Part :=
  let text := message.toList
  match firstImage text with
  | none => if text = [] then [] else [.text message]
  | some path =>
      let cleanText := strip (withoutImages text.length text)
      (if isReadable (String.ofList path) then [.image (String.ofList path)] else []) ++
        if cleanText = [] then [] else [.text (String.ofList cleanText)]

-- What a turn gets from the outside: the finish reason and the parts of the candidate, and what
-- its tools do, in their order.
structure Reply where
  stopReason : String
  parts : List Part
  outcome : Nat → Outcome

structure State extends Counters where
  history : List Content
  turn : Nat := 0
  noToolTurns : Nat := 0
  completionSendCount : Nat := 0
  -- a request has been sent
  awaiting : Bool := false

-- The function calls of a response: name and arguments.
def functionCalls (parts : List Part) : List (String × String) :=
  parts.filterMap fun
    | .functionCall name args => some (name, args)
    | _ => none

-- SAFETY, RECITATION and MAX_TOKENS end the loop.
def isTerminal (stopReason : String) : Bool :=
  let lower := stopReason.toLower
  contains lower "safety" ∨ contains lower "recitation" ∨ contains lower "max_tokens" ∨
    strip stopReason.toList = ['2']

-- The trim at the end of a turn.
def trimToCount (history : List Content) : List Content :=
  if MAX_HISTORY_MESSAGES < history.length then
    let tailStart := history.length - (MAX_HISTORY_MESSAGES - 2)
    history.take 2 ++ (history.drop tailStart).dropWhile Content.isResponse
  else history

section Texts

def fakeStatusWarning : String :=
  "【系統警告】你剛才的回覆包含假狀態指示（例如 ✅ Done 或 *(正在執行...)* ），但本輪整輪沒有呼叫任何實質工具。" ++
    "請立刻使用 Bash tool 或其他工具實際執行所需命令，不要只是描述或假裝完成。"

def fakeProgressWarning : String :=
  "【系統警告】你已連續多輪只呼叫 send_message，沒有呼叫任何實質工具（Bash、Read、Write、run_agent 等）。" ++
    "立刻停止假報告。你的下一步必須是：呼叫 Bash tool 執行指令、Read 讀取檔案、或 mcp__evoclaw__run_agent 委派任務。"

def milestoneText : Milestone → String
  | .fakeProgress => fakeProgressWarning
  | .silent turns => silentReminder turns

end Texts

section Loop

variable (env : Env)

def fewShot : List Content :=
  [.user "你是誰？你是什麼AI？你是Google的嗎？",
    { role := "model"
      parts := [.text ("我是 " ++ env.assistantName ++ "，你的個人 AI 助理！有什麼需要幫忙的嗎？")] }]

def injectedText : InjectedContent → String
  | .text text => String.ofList (strip text.toList)
  | .items texts => String.ofList (strip (" ".intercalate texts).toList)
  | .other truthy text => if truthy then String.ofList (strip text.toList) else ""

def inject (msg : Injected) : List Content :=
  let text := injectedText msg.content
  let parts := if text = "" then [] else parseMessageWithImage env.isReadable text
  if parts = [] then []
  else [{ role := if msg.role = "assistant" then "model" else "user", parts := parts }]

def start (userMessage : String) (conversationHistory : List Injected) : State where
  history :=
    let userParts := parseMessageWithImage env.isReadable userMessage
    fewShot env ++ conversationHistory.flatMap (inject env) ++
      if userParts = [] then [] else [{ role := "user", parts := userParts, isTask := true }]

def nextTurn (state : State) : State :=
  { state with turn := state.turn + 1, awaiting := false }

def responseText (parts : List Part) : String :=
  "".intercalate <| parts.filterMap fun
    | .text text => some text
    | _ => none

-- A turn without function calls. None is the end of the loop.
def textTurn (state : State) (reply : Reply) : Option State :=
  let state := { state with noToolTurns := state.noToolTurns + 1 }
  let finalResponse := responseText reply.parts
  let goesOn := state.turn + 1 < env.maxIter
  if env.fakeStatus finalResponse ∧ state.substantiveActionCount = 0 ∧ goesOn then
    some (nextTurn { state with history := state.history ++ [.user fakeStatusWarning] })
  else if isUnverifiedActionClaim env.toPatterns finalResponse state.substantiveActionCount ∧
      goesOn then
    some (nextTurn { state with history := state.history ++ [.user semanticWarning] })
  else none

-- The counters, the completion confirmations that were sent, and the responses.
def runTools (counters : Counters) (sent : Nat) (outcome : Nat → Outcome) :
    List (String × String) → Counters × Nat × List Part
  | [] => (counters, sent, [])
  | (name, args) :: rest =>
      let result := truncateResult (outcome 0).text
      let counters := counters.countFailure env.toPatterns name args result
      let counters := { counters with
        memoryWritten := counters.memoryWritten ∨ writesMemory name args }
      let sent := if name = SEND_MESSAGE ∧ env.completionPhrase args then sent + 1 else sent
      let (counters, sent, parts) := runTools counters sent (fun i => outcome (i + 1)) rest
      (counters, sent, .functionResponse name result :: parts)

-- The retry warning goes into the last message when that is a milestone.
def withWarning (warning : String) (milestone : Option Milestone) : List Content :=
  match milestone with
  | none => if warning ≠ "" then [.user warning] else []
  | some m =>
      let text := milestoneText m
      if warning ≠ "" then
        [{ role := "user", parts := [.text text, .text ("\n\n" ++ warning)] }]
      else [.user text]

-- The counters after a tool turn, its completion confirmations, and the messages that it adds.
def turnMessages (state : State) (reply : Reply) : Counters × Nat × List Content :=
  let calls := functionCalls reply.parts
  let (counters, sent, responses) :=
    runTools env state.toCounters state.completionSendCount reply.outcome calls
  let (counters, milestone) := counters.milestone (calls.map Prod.fst) state.turn env.maxIter
  let messages := { role := "user", parts := responses } :: withWarning counters.retryWarning milestone
  let (counters, reminders) :=
    { counters with retryWarning := "" }.penultimate state.turn env.maxIter
  (counters, sent, messages ++ reminders.map Content.user)

def toolTurn (state : State) (reply : Reply) : Option State :=
  let (counters, sent, added) := turnMessages env state reply
  let state := { state with
    toCounters := counters
    noToolTurns := 0
    completionSendCount := sent
    history := trimToCount (state.history ++ added) }
  if 2 ≤ sent then none else some (nextTurn state)

-- The rest of a turn. None is the end of the loop.
def respond (state : State) (reply : Reply) : Option State :=
  if isTerminal reply.stopReason ∨ reply.parts = [] then none
  else
    let state := { state with
      history := state.history ++ [{ role := "model", parts := reply.parts }] }
    if functionCalls reply.parts = [] then textTurn env state reply
    else toolTurn env state reply

inductive Event where
  | request
  | reply (reply : Reply)

def step (state : State) : Event → Option State
  | .request =>
      if state.awaiting = false ∧ state.turn < env.maxIter then
        some { state with awaiting := true }
      else none
  | .reply reply => if state.awaiting then respond env state reply else none

end Loop

end EvoClaw.AgentLoop.Gemini
