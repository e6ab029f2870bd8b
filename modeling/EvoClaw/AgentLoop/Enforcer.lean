import EvoClaw.Json
import EvoClaw.Text.Search
import Mathlib.Data.List.Basic

-- What the agent loops of all providers count and remind of.
namespace EvoClaw.AgentLoop

def MAX_TOOL_RESULT_CHARS : Nat := 4000

def MAX_HISTORY_MESSAGES : Nat := 20

def MAX_CONSECUTIVE_TOOL_FAILS : Nat := 3

def SUBSTANTIVE_TOOLS : List String :=
  ["Bash", "Read", "Write", "Edit", "Glob", "Grep", "WebFetch", "mcp__evoclaw__run_agent"]

def SEND_MESSAGE : String := "mcp__evoclaw__send_message"

def MEMORY_PATH : String := "/workspace/group/MEMORY.md"

-- A plain text message of conversation_history.
structure TextMessage where
  fromAssistant : Bool
  text : String

def TextMessage.role (msg : TextMessage) : String :=
  if msg.fromAssistant then "assistant" else "user"

-- What execute_tool does: str() of its result, or the text of the exception it raises.
inductive Outcome where
  | returned (text : String)
  | raised (error : String)
deriving DecidableEq

def Outcome.text : Outcome → String
  | .returned text => text
  | .raised error => "[Tool error: " ++ error ++ "]"

-- The middle of a long result is left out.
def truncateResult (result : String) : String :=
  let text := result.toList
  if MAX_TOOL_RESULT_CHARS < text.length then
    let half := MAX_TOOL_RESULT_CHARS / 2
    let omitted := text.length - MAX_TOOL_RESULT_CHARS
    String.ofList (text.take half) ++ "\n[... " ++ toString omitted ++
      " chars omitted (middle truncated to preserve head+tail) ...]\n" ++
      String.ofList (text.drop (text.length - half))
  else result

def startsWith (text word : String) : Bool :=
  word.toList.isPrefixOf text.toList

def contains (text word : String) : Bool :=
  (Text.find word.toList text.toList).isSome

def isFailure (result : String) : Bool :=
  startsWith result "✗" ∨ startsWith result "[ERROR]" ∨ startsWith result "Error:"

def isSuccess (result : String) : Bool :=
  startsWith result "✓" ∨ startsWith result "[OK]"

-- The counters of a run. A failing call is known by its tool and the hash of its arguments.
structure Counters where
  turnsSinceNotify : Nat := 0
  onlyNotifyTurns : Nat := 0
  substantiveActionCount : Nat := 0
  memoryWritten : Bool := false
  toolFails : List ((String × Int) × Nat) := []
  retryWarning : String := ""

-- What the patterns and the builtins of the loops give for a text.
structure Patterns where
  fakeStatus : String → Bool
  actionClaim : String → Bool
  hash : String → Int

def isUnverifiedActionClaim (patterns : Patterns) (text : String) (count : Nat) : Bool :=
  count = 0 ∧ patterns.actionClaim text

def retryText (name : String) (fails : Nat) : String :=
  "【系統警告】工具 `" ++ name ++ "` 以相同參數已連續失敗 " ++ toString fails ++ " 次。" ++
    "請立即更換策略：嘗試不同的方法、參數或工具。不要繼續重試相同的失敗操作。"

-- Repeated failures of one call with the same arguments.
def Counters.countFailure (patterns : Patterns) (counters : Counters) (name args result : String) :
    Counters :=
  let key := (name, patterns.hash (String.ofList (args.toList.take 200)))
  let others := counters.toolFails.filter fun entry => entry.1 ≠ key
  if isFailure result then
    let fails := (counters.toolFails.lookup key).getD 0 + 1
    { counters with
      toolFails := (key, fails) :: others
      retryWarning :=
        if MAX_CONSECUTIVE_TOOL_FAILS ≤ fails then retryText name fails
        else counters.retryWarning }
  else if isSuccess result then { counters with toolFails := others }
  else counters

-- Does the call write to MEMORY.md?
def writesMemory (name args : String) : Bool :=
  name ∈ ["Write", "Edit", "Bash"] ∧ (contains args "MEMORY.md" ∨ contains args MEMORY_PATH)

inductive Milestone where
  | fakeProgress
  | silent (turns : Nat)
deriving DecidableEq

-- The milestone enforcer, for the tools that turn `n` has called.
def Counters.milestone (counters : Counters) (names : List String) (n maxIter : Nat) :
    Counters × Option Milestone :=
  let sentMessage := SEND_MESSAGE ∈ names
  let didRealWork := ∃ name ∈ names, name ∈ SUBSTANTIVE_TOOLS
  let counters := if didRealWork then
      { counters with substantiveActionCount := counters.substantiveActionCount + 1 } else counters
  if sentMessage ∧ didRealWork then
    ({ counters with turnsSinceNotify := 0, onlyNotifyTurns := 0 }, none)
  else if sentMessage then
    ({ counters with onlyNotifyTurns := counters.onlyNotifyTurns + 1 },
      if 2 ≤ counters.onlyNotifyTurns + 1 ∧ n + 2 < maxIter then some .fakeProgress else none)
  else
    let turns := counters.turnsSinceNotify + 1
    if 5 ≤ turns ∧ n + 2 < maxIter then
      ({ counters with onlyNotifyTurns := 0, turnsSinceNotify := 0 }, some (.silent turns))
    else ({ counters with onlyNotifyTurns := 0, turnsSinceNotify := turns }, none)

def memoryReminder : String :=
  "【CRITICAL 系統警告】你在本 session 中尚未更新 MEMORY.md（" ++ MEMORY_PATH ++ "）。\n" ++
    "這是倒數第二輪。你必須在結束前執行以下操作：\n" ++
    "1. 使用 Write/Edit 工具更新 MEMORY.md\n" ++
    "2. 在 `## 任務記錄 (Task Log)` 區段追加今日任務摘要\n" ++
    "3. 若 `## 身份 (Identity)` 有新發現（弱點、原則），同步更新\n" ++
    "格式：`[YYYY-MM-DD] <做了什麼、關鍵決策、解決方法>`"

def finalReminder (n maxIter : Nat) : String :=
  "【CRITICAL 系統警告】你尚未向用戶發送任何回應（send_message）。\n" ++
    "這是倒數第二輪（turn " ++ toString (n + 1) ++ "/" ++ toString maxIter ++
    "），下一輪是最後一輪。\n" ++
    "你必須在下一輪立刻呼叫 mcp__evoclaw__send_message 把結果告知用戶，" ++
    "否則用戶將看到「處理完成，但未能產生文字回應」錯誤。\n" ++
    "不要再執行其他工具——把你已掌握的資訊直接發送出去。"

def silentReminder (turns : Nat) : String :=
  "⏰ 你已執行 " ++ toString turns ++ " 輪未向用戶回報進度。" ++
    "請在繼續工作的同時，用 mcp__evoclaw__send_message 發送一條簡短的進度更新（1-2 句話）。" ++
    "注意：只有在呼叫了 Bash/Read/Write 等實質工具之後才需要回報，不要虛報進度。"

def semanticWarning : String :=
  "【系統驗證】你的回應中聲稱已執行了某項操作，但本輪整輪沒有呼叫任何實質工具（Bash/Read/Write/Edit/Grep/run_agent）。" ++
    "請實際使用對應工具執行並確認，不要只是聲明已完成。"

-- The reminders of the turn before the last one.
def Counters.penultimate (counters : Counters) (n maxIter : Nat) : Counters × List String :=
  let memory := if counters.memoryWritten = false ∧ n + 2 = maxIter then [memoryReminder] else []
  if 0 < counters.turnsSinceNotify ∧ n + 2 = maxIter then
    ({ counters with turnsSinceNotify := 0 }, memory ++ [finalReminder n maxIter])
  else (counters, memory)

end EvoClaw.AgentLoop
