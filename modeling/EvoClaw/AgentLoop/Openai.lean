import EvoClaw.AgentLoop.Enforcer
import EvoClaw.EventSystem.Runs
import EvoClaw.JsonText.Syntax
import EvoClaw.Text.Lines

namespace EvoClaw.AgentLoop.Openai

def HISTORY_BYTE_BUDGET : Nat := 64 * 1024

structure ToolCall where
  id : String
  name : String
  arguments : String
deriving DecidableEq

-- `isTask` marks the message that carries user_message. The code has no such mark.
structure Message where
  role : String
  content : Json
  toolCalls : List ToolCall := []
  toolCallId : Option String := none
  isTask : Bool := false

def ToolCall.toJson (call : ToolCall) : Json :=
  .obj [("id", .str call.id), ("type", .str "function"),
    ("function", .obj [("name", .str call.name), ("arguments", .str call.arguments)])]

namespace Message

def toJson (msg : Message) : Json :=
  .obj ([("role", .str msg.role)] ++
    (match msg.toolCallId with
      | none => []
      | some id => [("tool_call_id", .str id)]) ++
    [("content", msg.content)] ++
    if msg.toolCalls = [] then []
    else [("tool_calls", .arr (msg.toolCalls.map ToolCall.toJson))])

def isTool (msg : Message) : Bool :=
  msg.role = "tool"

def user (text : String) : Message := { role := "user", content := .str text }

def assistant (content : Option String) (calls : List ToolCall) : Message :=
  { role := "assistant", content := .str (content.getD ""), toolCalls := calls }

def result (id text : String) : Message :=
  { role := "tool", content := .str text, toolCallId := some id }

end Message

-- An entry of conversation_history.
structure Injected where
  role : String
  content : Json

def Injected.ofText (msg : TextMessage) : Injected := ⟨msg.role, .str msg.text⟩

def Injected.isEmpty (msg : Injected) : Bool :=
  match msg.content with
  | .null => true
  | .str text => strip text.toList = []
  | .arr items => items.isEmpty
  | _ => false

structure Env extends Patterns where
  maxIter : Nat
  isQwen : Bool
  floatText : BitVec 64 → List Char
  extendedFake : String → Bool
  -- the stripped code blocks of a text
  codeBlocks : String → List String
  gitLogLine : String → Bool
  bareFile : String → Bool
  -- str() of the arguments, or the error when they cannot be repaired
  parseArgs : String → Except String String

-- What a turn gets from the outside: the response, and what its tools do, in their order. The
-- ids of the tool calls of a response are distinct.
structure Reply where
  content : Option String
  toolCalls : List ToolCall
  finishReason : String
  outcome : Nat → Outcome
  distinct : (toolCalls.map ToolCall.id).Nodup

structure State extends Counters where
  history : List Message
  turn : Nat := 0
  noToolTurns : Nat := 0
  -- a request has been sent
  awaiting : Bool := false

section Trims

variable (floatText : BitVec 64 → List Char)

def byteSize (msg : Message) : Nat :=
  JsonText.Utf8.byteCount floatText msg.toJson

def totalSize (msgs : List Message) : Nat :=
  JsonText.Utf8.byteCount floatText (.arr (msgs.map Message.toJson))

-- The messages, last one first, that fit into what remains of the budget.
def fitting (remaining : Int) : List Message → List Message
  | [] => []
  | msg :: earlier =>
      if remaining < byteSize floatText msg + 1 then []
      else msg :: fitting (remaining - (byteSize floatText msg + 1)) earlier

-- _trim_history_to_byte_budget
def trimToByteBudget (budget : Nat) (history : List Message) : List Message :=
  if totalSize floatText history ≤ budget then history
  else
    let remaining : Int := budget - totalSize floatText (history.take 1)
    let keptTail := (fitting floatText remaining history.tail.reverse).reverse
    history.take 1 ++ keptTail.dropWhile Message.isTool

-- The trim at the end of a turn.
def trimToCount (history : List Message) : List Message :=
  if MAX_HISTORY_MESSAGES < history.length then
    let tailStart := history.length - (MAX_HISTORY_MESSAGES - 1)
    history.take 1 ++ (history.drop tailStart).dropWhile Message.isTool
  else history

end Trims

section Texts

def qwenForce : String :=
  "【緊急】你已連續多輪未呼叫工具。現在必須立刻選擇並執行一個工具：\n" ++
    "A) Bash: 執行指令\nB) Read: 讀取檔案\nC) mcp__evoclaw__send_message: 發送訊息給用戶\n" ++
    "禁止產出任何文字說明，直接呼叫工具。"

def fakeStatusWarning : String :=
  "【系統警告】你剛才的回覆包含假狀態行（例如 *(正在執行...)* ），但本輪整輪沒有呼叫任何實質工具。" ++
    "下一輪系統將強制要求你必須呼叫工具，請立刻使用 Bash tool 或其他工具執行所需命令。"

def fakeProgressWarning : String :=
  "【系統警告】你已連續多輪只呼叫 send_message，沒有呼叫任何實質工具（Bash、Read、Write、run_agent 等）。" ++
    "這代表你在發送虛構的進度報告而不是真正執行任務。" ++
    "立刻停止假報告。你的下一步必須是：呼叫 Bash tool 執行指令、Read 讀取檔案、或 mcp__evoclaw__run_agent 委派任務。" ++
    "如果不知道怎麼繼續，使用 mcp__evoclaw__run_agent 把任務委派給子代理。"

def milestoneText : Milestone → String
  | .fakeProgress => fakeProgressWarning
  | .silent turns => silentReminder turns

def executedText (outputs : List String) : String :=
  "[系統自動執行了 " ++ toString outputs.length ++ " 個指令]\n" ++ "\n\n".intercalate outputs ++
    "\n\n請根據以上輸出，繼續任務並回報最終結果。"

def gitLogSkipped : String :=
  "✗ Skipped: this looks like git log output, not a valid bash command. " ++
    "Use `git log --oneline` explicitly if you need commit history."

def bareFileSkipped (command : String) : String :=
  "✗ Skipped: '" ++ command ++ "' is a filename, not a bash command.\n" ++
    "Use the Read tool to read it, or Write/Edit tool to write it."

end Texts

section Loop

variable (env : Env)

def start (systemInstruction userMessage : String) (conversationHistory : List Injected) : State where
  history :=
    [{ role := "system", content := .str systemInstruction }] ++
    (conversationHistory.filter fun msg => !msg.isEmpty).map
      (fun msg => { role := msg.role, content := msg.content }) ++
    [{ Message.user userMessage with isTask := true }]

-- A Qwen model that avoids tools is told to use one.
def forceTool (state : State) : State :=
  if 2 ≤ state.noToolTurns ∧ env.isQwen then
    { state with history := state.history ++ [.user qwenForce], noToolTurns := 0 }
  else state

-- The head of the loop, up to the request.
def request (state : State) : State :=
  let state := forceTool env state
  { state with
    history := trimToByteBudget env.floatText HISTORY_BYTE_BUDGET state.history
    awaiting := true }

def nextTurn (state : State) : State :=
  { state with turn := state.turn + 1, awaiting := false }

-- One code block that the model wrote as text. None is an exception of the tool.
def runBlock (outcome : Outcome) (command : String) : Option String :=
  let lines := (Text.splitlines command.toList).filter fun line => strip line ≠ []
  if 2 ≤ lines.length ∧ (lines.take 4).all fun line => env.gitLogLine (String.ofList line) then
    some gitLogSkipped
  else if lines.length = 1 ∧ env.bareFile command then some (bareFileSkipped command)
  else
    match outcome with
    | .returned text => some text
    | .raised _ => none

def runBlocks (outcome : Nat → Outcome) : List String → Option (List String)
  | [] => some []
  | command :: rest => do
      let res ← runBlock env (outcome 0) command
      let outputs ← runBlocks (fun i => outcome (i + 1)) rest
      some (("$ " ++ String.ofList (command.toList.take 200) ++ "\n" ++ res) :: outputs)

-- A turn without tool calls. None is the end of the loop.
def textTurn (state : State) (reply : Reply) : Option State :=
  let state := { state with noToolTurns := state.noToolTurns + 1 }
  let content := reply.content.getD ""
  let runnable := (env.codeBlocks content).filter (· ≠ "")
  let goesOn := state.turn + 1 < env.maxIter
  if 3 ≤ state.noToolTurns then none
  else if runnable ≠ [] ∧ goesOn then do
    let outputs ← runBlocks env reply.outcome runnable
    some (nextTurn { state with
      noToolTurns := 0
      history := state.history ++ [.user (executedText outputs)] })
  else if (env.fakeStatus content ∨ env.extendedFake content) ∧
      state.substantiveActionCount = 0 ∧ goesOn then
    some (nextTurn { state with history := state.history ++ [.user fakeStatusWarning] })
  else if isUnverifiedActionClaim env.toPatterns content state.substantiveActionCount ∧ goesOn then
    some (nextTurn { state with history := state.history ++ [.user semanticWarning] })
  else none

-- One tool call: its message, and the failures counted.
def runTool (counters : Counters) (call : ToolCall) (outcome : Outcome) : Counters × Message :=
  match env.parseArgs call.arguments with
  | .error error =>
      (counters, .result call.id ("Error: Failed to parse tool arguments: " ++ error))
  | .ok args =>
      let result := truncateResult outcome.text
      (counters.countFailure env.toPatterns call.name args result, .result call.id result)

def runTools (counters : Counters) (outcome : Nat → Outcome) :
    List ToolCall → Counters × List Message
  | [] => (counters, [])
  | call :: rest =>
      let (counters, msg) := runTool env counters call (outcome 0)
      let (counters, msgs) := runTools counters (fun i => outcome (i + 1)) rest
      (counters, msg :: msgs)

-- The counters and the deferred messages of a turn, before its tools run.
def enforce (state : State) (calls : List ToolCall) : Counters × List Message :=
  let (counters, milestone) :=
    state.toCounters.milestone (calls.map ToolCall.name) state.turn env.maxIter
  let counters := { counters with
    memoryWritten := counters.memoryWritten ∨
      calls.any fun call => writesMemory call.name call.arguments }
  let (counters, reminders) := counters.penultimate state.turn env.maxIter
  (counters, (milestone.toList.map milestoneText ++ reminders).map Message.user)

-- The counters after a tool turn, and the messages that it adds.
def turnMessages (state : State) (reply : Reply) : Counters × List Message :=
  let (counters, deferred) := enforce env state reply.toolCalls
  let (counters, results) := runTools env counters reply.outcome reply.toolCalls
  let warning := if counters.retryWarning ≠ "" then [.user counters.retryWarning] else []
  ({ counters with retryWarning := "" }, results ++ deferred ++ warning)

def toolTurn (state : State) (reply : Reply) : State :=
  let (counters, added) := turnMessages env state reply
  nextTurn { state with
    toCounters := counters
    noToolTurns := 0
    history := trimToCount (state.history ++ added) }

-- The rest of a turn. None is the end of the loop.
def respond (state : State) (reply : Reply) : Option State :=
  let state := { state with
    history := state.history ++ [.assistant reply.content reply.toolCalls] }
  if reply.finishReason = "length" then none
  else if reply.toolCalls = [] then textTurn env state reply
  else some (toolTurn env state reply)

inductive Event where
  | request
  | reply (reply : Reply)

def step (state : State) : Event → Option State
  | .request =>
      if state.awaiting = false ∧ state.turn < env.maxIter then some (request env state) else none
  | .reply reply => if state.awaiting then respond env state reply else none

end Loop

end EvoClaw.AgentLoop.Openai
