import EvoClaw.AgentLoop.Enforcer
import EvoClaw.EventSystem.Runs

namespace EvoClaw.AgentLoop.Claude

-- The content blocks of the messages. `other` are blocks that the loop does not look into.
inductive Block where
  | text (text : Option String)
  | toolUse (id name input : String)
  | toolResult (id content : String)
  | other (json : Json)

inductive Content where
  | text (text : String)
  | blocks (blocks : List Block)
  | other (json : Json)

-- `isTask` marks the message that carries user_message. The code has no such mark.
structure Message where
  role : String
  content : Content
  isTask : Bool := false

namespace Message

def user (text : String) : Message := { role := "user", content := .text text }

def assistant (content : List Block) : Message := { role := "assistant", content := .blocks content }

def results (blocks : List Block) : Message := { role := "user", content := .blocks blocks }

-- The content is a list that begins with a tool_result.
def isResult (msg : Message) : Bool :=
  match msg.content with
  | .blocks (.toolResult _ _ :: _) => true
  | _ => false

end Message

-- The tool_use blocks: id, name and input.
def toolUses (content : List Block) : List (String × String × String) :=
  content.filterMap fun
    | .toolUse id name input => some (id, name, input)
    | _ => none

-- An entry of conversation_history.
structure Injected where
  role : String
  content : Content

def Injected.ofText (msg : TextMessage) : Injected := ⟨msg.role, .text msg.text⟩

def Injected.isEmpty (msg : Injected) : Bool :=
  match msg.content with
  | .text text => strip text.toList = []
  | .blocks blocks => blocks.isEmpty
  | .other json => json matches .null

structure Env extends Patterns where
  maxIter : Nat

-- What a turn gets from the outside. The ids of the tool_use blocks of a response are distinct,
-- and a response that ends the turn has none.
structure Reply where
  content : List Block
  stopReason : String
  outcome : Nat → Outcome
  uses_only : ∀ id text, .toolResult id text ∉ content
  distinct : ((toolUses content).map Prod.fst).Nodup
  end_turn : stopReason = "end_turn" → toolUses content = []

structure State extends Counters where
  messages : List Message
  turn : Nat := 0
  -- a request has been sent
  awaiting : Bool := false

-- " ".join of the texts
def responseText (content : List Block) : String :=
  " ".intercalate <| content.filterMap fun
    | .text text => text
    | _ => none

-- The trim at the end of a turn.
def trimToCount (messages : List Message) : List Message :=
  if MAX_HISTORY_MESSAGES < messages.length then
    let tailStart := messages.length - (MAX_HISTORY_MESSAGES - 1)
    messages.take 1 ++ (messages.drop tailStart).dropWhile Message.isResult
  else messages

section Texts

def fakeStatusWarning : String :=
  "【系統警告】你剛才的回覆包含假狀態指示（例如 ✅ Done 或 *(正在執行...)* ），但本輪整輪沒有呼叫任何實質工具。" ++
    "請立刻使用 Bash tool 或其他工具實際執行所需命令，不要只是描述或假裝完成。"

def fakeProgressWarning : String :=
  "【系統警告】你已連續多輪只呼叫 send_message，沒有呼叫任何實質工具（Bash、Read、Write、run_agent 等）。" ++
    "立刻停止假報告。你的下一步必須是：呼叫 Bash tool 執行指令、Read 讀取檔案、或 mcp__evoclaw__run_agent 委派任務。"

def milestoneText : Milestone → String
  | .fakeProgress => fakeProgressWarning
  | .silent turns => silentReminder turns

end Texts

section Loop

variable (env : Env)

def start (userMessage : String) (conversationHistory : List Injected) : State where
  messages :=
    (conversationHistory.filter fun msg => !msg.isEmpty).map
      (fun msg => { role := msg.role, content := msg.content }) ++
    [{ Message.user userMessage with isTask := true }]

def nextTurn (state : State) : State :=
  { state with turn := state.turn + 1, awaiting := false }

-- A response that ends the turn. None is the end of the loop.
def endTurn (state : State) (reply : Reply) : Option State :=
  let finalResponse := responseText reply.content
  let goesOn := state.turn + 1 < env.maxIter
  if env.fakeStatus finalResponse ∧ state.substantiveActionCount = 0 ∧ goesOn then
    some (nextTurn { state with messages := state.messages ++ [.user fakeStatusWarning] })
  else if isUnverifiedActionClaim env.toPatterns finalResponse state.substantiveActionCount ∧
      goesOn then
    some (nextTurn { state with messages := state.messages ++ [.user semanticWarning] })
  else none

def runTools (counters : Counters) (outcome : Nat → Outcome) :
    List (String × String × String) → Counters × List Block
  | [] => (counters, [])
  | (id, name, input) :: rest =>
      let result := truncateResult (outcome 0).text
      let counters := counters.countFailure env.toPatterns name input result
      let counters := { counters with
        memoryWritten := counters.memoryWritten ∨ writesMemory name input }
      let (counters, blocks) := runTools counters (fun i => outcome (i + 1)) rest
      (counters, .toolResult id result :: blocks)

-- The counters after a tool turn, and the messages that it adds before the trim.
def turnMessages (state : State) (reply : Reply) : Counters × List Message :=
  let uses := toolUses reply.content
  let (counters, blocks) := runTools env state.toCounters reply.outcome uses
  let (counters, milestone) :=
    counters.milestone (uses.map fun use => use.2.1) state.turn env.maxIter
  let warning := if counters.retryWarning ≠ "" then [.user counters.retryWarning] else []
  ({ counters with retryWarning := "" },
    [.results blocks] ++ milestone.toList.map (fun m => .user (milestoneText m)) ++ warning)

def toolTurn (state : State) (reply : Reply) : State :=
  let (counters, added) := turnMessages env state reply
  let (counters, reminders) := counters.penultimate state.turn env.maxIter
  nextTurn { state with
    toCounters := counters
    messages := trimToCount (state.messages ++ added) ++ reminders.map Message.user }

-- The rest of a turn. None is the end of the loop.
def respond (state : State) (reply : Reply) : Option State :=
  let state := { state with messages := state.messages ++ [.assistant reply.content] }
  if reply.stopReason = "end_turn" then endTurn env state reply
  else if reply.stopReason ≠ "tool_use" then none
  else if toolUses reply.content = [] then none
  else some (toolTurn env state reply)

inductive Event where
  | request
  | reply (reply : Reply)

def step (state : State) : Event → Option State
  | .request =>
      if state.awaiting = false ∧ state.turn < env.maxIter then
        some { state with awaiting := true }
      else none
  | .reply reply => if state.awaiting then respond env state reply else none

end Loop

end EvoClaw.AgentLoop.Claude
