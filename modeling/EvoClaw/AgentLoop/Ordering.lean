import EvoClaw.AgentLoop.Claude
import EvoClaw.AgentLoop.Dialogue
import EvoClaw.AgentLoop.Openai

namespace EvoClaw.AgentLoop

open Dialogue EventSystem

namespace Openai

def protocol : Protocol Message String where
  calls msg := msg.toolCalls.map ToolCall.id
  results msg := msg.toolCallId.toList

-- Neither calls a tool nor carries a result.
def Message.Plain (msg : Message) : Prop :=
  msg.toolCalls = [] ∧ msg.toolCallId = none ∧ msg.isTool = false

structure Ordered (history : List Message) : Prop where
  headed : ∃ head tail, history = head :: tail ∧ head.toolCalls = []
  awaits : protocol.Awaits [] history
  tools : ∀ msg ∈ history, msg.isTool = protocol.isResult msg

theorem Message.plain_user (text : String) : (Message.user text).Plain := ⟨rfl, rfl, rfl⟩

theorem Message.Plain.awaits {msgs : List Message} (h : ∀ msg ∈ msgs, msg.Plain) :
    protocol.Awaits [] msgs := by
  induction msgs with
  | nil => rfl
  | cons msg msgs ih =>
      obtain ⟨hcalls, hid, -⟩ := h msg (by simp)
      rw [Protocol.awaits_plain (by simp [protocol, hcalls]) (by simp [protocol, hid])]
      exact ih fun m hm => h m (by simp [hm])

theorem Message.Plain.isTool {msg : Message} (h : msg.Plain) :
    msg.isTool = protocol.isResult msg := by
  simp [h.2.2, Protocol.isResult, protocol, h.2.1]

namespace Ordered

variable {history : List Message}

theorem append (h : Ordered history) {msgs : List Message} (hmsgs : protocol.Awaits [] msgs)
    (htools : ∀ msg ∈ msgs, msg.isTool = protocol.isResult msg) : Ordered (history ++ msgs) := by
  obtain ⟨head, tail, heq, hhead⟩ := h.headed
  refine ⟨⟨head, tail ++ msgs, by simp [heq], hhead⟩, h.awaits.append hmsgs, fun msg hm => ?_⟩
  rcases List.mem_append.mp hm with hm | hm
  · exact h.tools msg hm
  · exact htools msg hm

theorem append_plain (h : Ordered history) {msgs : List Message} (hmsgs : ∀ msg ∈ msgs, msg.Plain) :
    Ordered (history ++ msgs) :=
  h.append (Message.Plain.awaits hmsgs) fun msg hm => (hmsgs msg hm).isTool

theorem keep (h : Ordered history) (n : Nat) :
    Ordered (history.take 1 ++ (history.drop n).dropWhile Message.isTool) := by
  obtain ⟨head, tail, rfl, hhead⟩ := h.headed
  refine ⟨⟨head, _, rfl, hhead⟩, ?_, fun msg hm => ?_⟩
  · exact h.awaits.trim (by simp [protocol, hhead]) h.tools n
  · rcases List.mem_append.mp hm with hm | hm
    · exact h.tools msg (List.mem_of_mem_take hm)
    · exact h.tools msg (List.mem_of_mem_drop ((List.dropWhile_sublist _).subset hm))

theorem trimToCount (h : Ordered history) : Ordered (trimToCount history) := by
  unfold Openai.trimToCount
  split
  · exact h.keep _
  · exact h

end Ordered

theorem fitting_isPrefix (floatText : BitVec 64 → List Char) (msgs : List Message) (remaining : Int) :
    fitting floatText remaining msgs <+: msgs := by
  induction msgs generalizing remaining with
  | nil => exact List.prefix_rfl
  | cons msg msgs ih =>
      unfold fitting
      split
      · exact List.nil_prefix
      · exact (List.prefix_cons_inj msg).mpr (ih _)

-- What the byte trim keeps behind the first message is a suffix of the history.
theorem fitting_suffix (floatText : BitVec 64 → List Char) (head : Message) (tail : List Message)
    (remaining : Int) :
    ∃ n, (fitting floatText remaining tail.reverse).reverse = (head :: tail).drop n := by
  have hsuffix : (fitting floatText remaining tail.reverse).reverse <:+ tail := by
    have h := List.reverse_suffix.mpr (fitting_isPrefix floatText tail.reverse remaining)
    rwa [List.reverse_reverse] at h
  obtain ⟨before, hbefore⟩ := hsuffix.trans (List.suffix_cons head tail)
  exact ⟨before.length, by rw [← hbefore, List.drop_left]⟩

theorem Ordered.trimToByteBudget {history : List Message} (h : Ordered history)
    (floatText : BitVec 64 → List Char) (budget : Nat) :
    Ordered (trimToByteBudget floatText budget history) := by
  unfold Openai.trimToByteBudget
  split
  · exact h
  · obtain ⟨head, tail, rfl, -⟩ := h.headed
    obtain ⟨n, hn⟩ := fitting_suffix floatText head tail
      (budget - totalSize floatText ((head :: tail).take 1))
    simp only [List.tail_cons, hn]
    exact h.keep n

section Turns

variable (env : Env)

theorem runTool_result (counters : Counters) (call : ToolCall) (outcome : Outcome) :
    ∃ text, (runTool env counters call outcome).2 = .result call.id text := by
  unfold runTool
  split <;> exact ⟨_, rfl⟩

-- One result for each call, in their order.
theorem runTools_results (calls : List ToolCall) (counters : Counters) (outcome : Nat → Outcome) :
    List.Forall₂ (fun call msg => ∃ text, msg = Message.result call.id text) calls
      (runTools env counters outcome calls).2 := by
  induction calls generalizing counters outcome with
  | nil => exact .nil
  | cons call calls ih => exact .cons (runTool_result env counters call _) (ih _ _)

theorem results_answer {calls : List ToolCall} {results : List Message}
    (h : List.Forall₂ (fun call msg => ∃ text, msg = Message.result call.id text) calls results) :
    (∀ msg ∈ results, ∃ id text, msg = Message.result id text) ∧
      calls.map ToolCall.id = results.flatMap protocol.results := by
  induction h with
  | nil => exact ⟨by simp, rfl⟩
  | cons hmsg _ ih =>
      obtain ⟨text, rfl⟩ := hmsg
      refine ⟨fun msg hm => ?_, ?_⟩
      · rcases List.mem_cons.mp hm with rfl | hm
        · exact ⟨_, text, rfl⟩
        · exact ih.1 msg hm
      · rw [List.map_cons, List.flatMap_cons, ih.2]
        rfl

theorem turn_ordered {calls : List ToolCall} {results : List Message} (content : Option String)
    (hdistinct : (calls.map ToolCall.id).Nodup)
    (h : List.Forall₂ (fun call msg => ∃ text, msg = Message.result call.id text) calls results) :
    protocol.Awaits [] (.assistant content calls :: results) ∧
      ∀ msg ∈ Message.assistant content calls :: results, msg.isTool = protocol.isResult msg := by
  obtain ⟨hresults, hall⟩ := results_answer h
  refine ⟨Protocol.awaits_turn rfl hdistinct ?_ ?_ hall, fun msg hm => ?_⟩
  · intro msg hm
    obtain ⟨id, text, rfl⟩ := hresults msg hm
    rfl
  · intro msg hm
    obtain ⟨id, text, rfl⟩ := hresults msg hm
    simp [protocol, Message.result]
  · rcases List.mem_cons.mp hm with rfl | hm
    · rfl
    · obtain ⟨id, text, rfl⟩ := hresults msg hm
      rfl

-- A tool turn adds the results first and its reminders after them.
theorem turnMessages_eq (state : State) (reply : Reply) :
    ∃ (results : List Message) (texts : List String),
      (turnMessages env state reply).2 = results ++ texts.map Message.user ∧
      List.Forall₂ (fun call msg => ∃ text, msg = Message.result call.id text) reply.toolCalls
        results := by
  let enforced := enforce env state reply.toolCalls
  let ran := runTools env enforced.1 reply.outcome reply.toolCalls
  have hwarning : (if ran.1.retryWarning ≠ "" then [Message.user ran.1.retryWarning] else []) =
      (if ran.1.retryWarning ≠ "" then [ran.1.retryWarning] else []).map .user := by
    split <;> rfl
  obtain ⟨texts, htexts⟩ : ∃ texts : List String, enforced.2 = texts.map Message.user := ⟨_, rfl⟩
  refine ⟨ran.2, texts ++ if ran.1.retryWarning ≠ "" then [ran.1.retryWarning] else [], ?_,
    runTools_results env _ _ _⟩
  rw [List.map_append, ← hwarning, ← htexts, ← List.append_assoc]
  rfl

theorem Ordered.toolTurn {state : State} (h : Ordered state.history) (reply : Reply) :
    Ordered (toolTurn env { state with
      history := state.history ++ [.assistant reply.content reply.toolCalls] } reply).history := by
  have heq : (Openai.toolTurn env { state with
        history := state.history ++ [.assistant reply.content reply.toolCalls] } reply).history =
      Openai.trimToCount (state.history ++ [.assistant reply.content reply.toolCalls] ++
        (turnMessages env state reply).2) := rfl
  obtain ⟨results, texts, hmessages, hresults⟩ := turnMessages_eq env state reply
  obtain ⟨hawaits, htools⟩ := turn_ordered reply.content reply.distinct hresults
  have hplain : ∀ msg ∈ texts.map Message.user, msg.Plain := by
    intro msg hm
    obtain ⟨text, -, rfl⟩ := List.mem_map.mp hm
    exact Message.plain_user text
  rw [heq, hmessages]
  have hturn := (h.append hawaits htools).append_plain hplain
  simpa using hturn.trimToCount

-- A text turn adds at most one user message.
theorem textTurn_history {state after : State} {reply : Reply}
    (he : textTurn env state reply = some after) :
    ∃ text, after.history = state.history ++ [.user text] := by
  unfold textTurn at he
  dsimp only at he
  split at he
  · cases he
  split at he
  · obtain ⟨outputs, -, he⟩ := Option.bind_eq_some_iff.mp he
    cases he
    exact ⟨_, rfl⟩
  split at he
  · cases he
    exact ⟨_, rfl⟩
  split at he
  · cases he
    exact ⟨_, rfl⟩
  · cases he

theorem Ordered.step {state after : State} {event : Event} (h : Ordered state.history)
    (he : step env state event = some after) : Ordered after.history := by
  cases event with
  | request =>
      simp only [Openai.step] at he
      split at he <;> cases he
      apply Ordered.trimToByteBudget
      unfold forceTool
      split
      · exact h.append_plain fun msg hm => List.mem_singleton.mp hm ▸ Message.plain_user _
      · exact h
  | reply reply =>
      simp only [Openai.step] at he
      split at he
      · simp only [respond] at he
        split at he
        · cases he
        split at he
        · rename_i hcalls
          obtain ⟨text, htext⟩ := textTurn_history env he
          rw [htext, List.append_assoc]
          refine h.append_plain fun msg hm => ?_
          rcases List.mem_pair.mp hm with rfl | rfl
          · exact ⟨hcalls, rfl, rfl⟩
          · exact Message.plain_user text
        · cases he
          exact h.toolTurn env reply
      · cases he

end Turns

theorem start_ordered (systemInstruction userMessage : String) (history : List TextMessage) :
    Ordered (start systemInstruction userMessage (history.map Injected.ofText)).history := by
  have hplain : ∀ msg ∈ (start systemInstruction userMessage (history.map Injected.ofText)).history,
      msg.Plain := by
    intro msg hm
    simp only [start, List.mem_append, List.mem_singleton, List.mem_map, List.mem_filter] at hm
    rcases hm with (rfl | ⟨injected, ⟨⟨text, -, rfl⟩, -⟩, rfl⟩) | rfl
    · exact ⟨rfl, rfl, rfl⟩
    · refine ⟨rfl, rfl, ?_⟩
      cases hrole : text.fromAssistant <;> simp [Message.isTool, Injected.ofText, TextMessage.role, hrole]
    · exact ⟨rfl, rfl, rfl⟩
  exact ⟨⟨_, _, rfl, rfl⟩, Message.Plain.awaits hplain, fun msg hm => (hplain msg hm).isTool⟩

theorem always_paired (env : Env) (systemInstruction userMessage : String)
    (history : List TextMessage) (events : List Event) :
    Always (step env) (fun state => state.awaiting → protocol.Paired state.history)
      (start systemInstruction userMessage (history.map Injected.ofText)) events := by
  have hguard : Along (step env) (fun _ _ => True)
      (start systemInstruction userMessage (history.map Injected.ofText)) events :=
    along_of_forall (fun _ _ => trivial) _ _
  refine hguard.always (fun state => Ordered state.history)
    (fun _ _ _ h _ he => h.step env he) ?_ (start_ordered _ _ _)
  intro state h _
  exact h.awaits.paired

end Openai

namespace Claude

def resultIds (blocks : List Block) : List String :=
  blocks.filterMap fun
    | .toolResult id _ => some id
    | _ => none

def protocol : Protocol Message String where
  calls msg :=
    match msg.content with
    | .blocks blocks => (toolUses blocks).map Prod.fst
    | _ => []
  results msg :=
    match msg.content with
    | .blocks blocks => resultIds blocks
    | _ => []

-- Neither uses a tool nor carries a result.
def Message.Plain (msg : Message) : Prop :=
  ∃ text, msg.content = .text text

structure Ordered (messages : List Message) : Prop where
  headed : ∃ head tail, messages = head :: tail ∧ head.Plain
  awaits : protocol.Awaits [] messages
  results : ∀ msg ∈ messages, msg.isResult = protocol.isResult msg

theorem Message.plain_user (text : String) : (Message.user text).Plain := ⟨text, rfl⟩

theorem Message.Plain.calls {msg : Message} (h : msg.Plain) : protocol.calls msg = [] := by
  obtain ⟨text, htext⟩ := h
  simp [protocol, htext]

theorem Message.Plain.results {msg : Message} (h : msg.Plain) : protocol.results msg = [] := by
  obtain ⟨text, htext⟩ := h
  simp [protocol, htext]

theorem Message.Plain.isResult {msg : Message} (h : msg.Plain) :
    msg.isResult = protocol.isResult msg := by
  obtain ⟨text, htext⟩ := h
  simp [Message.isResult, Protocol.isResult, protocol, htext]

theorem Message.Plain.awaits {msgs : List Message} (h : ∀ msg ∈ msgs, msg.Plain) :
    protocol.Awaits [] msgs := by
  induction msgs with
  | nil => rfl
  | cons msg msgs ih =>
      rw [Protocol.awaits_plain (h msg (by simp)).calls (h msg (by simp)).results]
      exact ih fun m hm => h m (by simp [hm])

namespace Ordered

variable {messages : List Message}

theorem append (h : Ordered messages) {msgs : List Message} (hmsgs : protocol.Awaits [] msgs)
    (hresults : ∀ msg ∈ msgs, msg.isResult = protocol.isResult msg) : Ordered (messages ++ msgs) := by
  obtain ⟨head, tail, heq, hhead⟩ := h.headed
  refine ⟨⟨head, tail ++ msgs, by simp [heq], hhead⟩, h.awaits.append hmsgs, fun msg hm => ?_⟩
  rcases List.mem_append.mp hm with hm | hm
  · exact h.results msg hm
  · exact hresults msg hm

theorem append_plain (h : Ordered messages) {msgs : List Message}
    (hmsgs : ∀ msg ∈ msgs, msg.Plain) : Ordered (messages ++ msgs) :=
  h.append (Message.Plain.awaits hmsgs) fun msg hm => (hmsgs msg hm).isResult

theorem trimToCount (h : Ordered messages) : Ordered (trimToCount messages) := by
  unfold Claude.trimToCount
  split
  · obtain ⟨head, tail, rfl, hhead⟩ := h.headed
    refine ⟨⟨head, _, rfl, hhead⟩, h.awaits.trim hhead.calls h.results _, fun msg hm => ?_⟩
    rcases List.mem_append.mp hm with hm | hm
    · exact h.results msg (List.mem_of_mem_take hm)
    · exact h.results msg (List.mem_of_mem_drop ((List.dropWhile_sublist _).subset hm))
  · exact h

end Ordered

-- Response blocks are no results.
theorem resultIds_response (reply : Reply) : resultIds reply.content = [] := by
  refine List.filterMap_eq_nil_iff.mpr fun block hb => ?_
  cases block with
  | toolResult id text => exact absurd hb (reply.uses_only id text)
  | _ => rfl

theorem isResult_response (reply : Reply) : (Message.assistant reply.content).isResult = false := by
  have hno := reply.uses_only
  unfold Message.isResult Message.assistant
  cases hc : reply.content with
  | nil => rfl
  | cons block blocks =>
      cases block with
      | toolResult id text => exact absurd (by simp [hc]) (hno id text)
      | _ => rfl

theorem assistant_results (reply : Reply) : protocol.results (.assistant reply.content) = [] :=
  resultIds_response reply

theorem assistant_isResult (reply : Reply) :
    (Message.assistant reply.content).isResult = protocol.isResult (.assistant reply.content) := by
  rw [isResult_response, Protocol.isResult, assistant_results]
  rfl

section Turns

variable (env : Env)

-- One block for each use, in their order.
theorem runTools_blocks (uses : List (String × String × String)) (counters : Counters)
    (outcome : Nat → Outcome) :
    ∃ texts, (runTools env counters outcome uses).2 =
      List.zipWith Block.toolResult (uses.map Prod.fst) texts ∧ texts.length = uses.length := by
  induction uses generalizing counters outcome with
  | nil => exact ⟨[], rfl, rfl⟩
  | cons use uses ih =>
      obtain ⟨texts, heq, hlen⟩ := ih
        ({ counters.countFailure env.toPatterns use.2.1 use.2.2 (truncateResult (outcome 0).text) with
          memoryWritten := (counters.countFailure env.toPatterns use.2.1 use.2.2
            (truncateResult (outcome 0).text)).memoryWritten ∨ writesMemory use.2.1 use.2.2 })
        (fun i => outcome (i + 1))
      refine ⟨truncateResult (outcome 0).text :: texts, ?_, by simp [hlen]⟩
      rw [List.map_cons, List.zipWith_cons_cons, ← heq]
      rfl

theorem resultIds_zip (ids texts : List String) (hlen : texts.length = ids.length) :
    resultIds (List.zipWith Block.toolResult ids texts) = ids ∧
      toolUses (List.zipWith Block.toolResult ids texts) = [] := by
  induction ids generalizing texts with
  | nil => simp [resultIds, toolUses]
  | cons id ids ih =>
      cases texts with
      | nil => cases hlen
      | cons text texts =>
          obtain ⟨hids, huses⟩ := ih texts (by simpa using hlen)
          exact ⟨by simpa [resultIds] using hids, by simpa [toolUses] using huses⟩

theorem turn_ordered (reply : Reply) (huses : toolUses reply.content ≠ []) (texts : List String)
    (hlen : texts.length = (toolUses reply.content).length) :
    let results := Message.results
      (List.zipWith Block.toolResult ((toolUses reply.content).map Prod.fst) texts)
    protocol.Awaits [] [.assistant reply.content, results] ∧
      ∀ msg ∈ [Message.assistant reply.content, results],
        msg.isResult = protocol.isResult msg := by
  intro results
  obtain ⟨hids, hcalls⟩ := resultIds_zip ((toolUses reply.content).map Prod.fst) texts
    (by simpa using hlen)
  have hresults : protocol.results results = (toolUses reply.content).map Prod.fst := hids
  have hne : protocol.results results ≠ [] := by
    rw [hresults]
    simpa using huses
  constructor
  · refine Protocol.awaits_turn (assistant_results reply) reply.distinct ?_ ?_ ?_
    · simp [protocol, results, Message.results, hcalls]
    · simpa using hne
    · have hissued : protocol.calls (.assistant reply.content) = protocol.results results :=
        hresults.symm
      simpa using hissued
  · intro msg hm
    rcases List.mem_pair.mp hm with rfl | rfl
    · exact assistant_isResult reply
    · have hfirst : results.isResult = true := by
        cases hc : toolUses reply.content with
        | nil => exact absurd hc huses
        | cons use uses =>
            cases texts with
            | nil => simp [hc] at hlen
            | cons text texts => simp [results, Message.results, Message.isResult, hc]
      rw [hfirst, Protocol.isResult]
      simpa using hne

-- A tool turn adds one message with all results, then its warnings.
theorem turnMessages_eq (state : State) (reply : Reply) :
    ∃ texts others : List String, (turnMessages env state reply).2 =
        .results (List.zipWith Block.toolResult ((toolUses reply.content).map Prod.fst) texts) ::
          others.map Message.user ∧
      texts.length = (toolUses reply.content).length := by
  let ran := runTools env state.toCounters reply.outcome (toolUses reply.content)
  let enforced := ran.1.milestone ((toolUses reply.content).map fun use => use.2.1) state.turn
    env.maxIter
  have hwarning : (if enforced.1.retryWarning ≠ "" then
        [Message.user enforced.1.retryWarning] else []) =
      (if enforced.1.retryWarning ≠ "" then [enforced.1.retryWarning] else []).map .user := by
    split <;> rfl
  obtain ⟨texts, heq, hlen⟩ := runTools_blocks env (toolUses reply.content) state.toCounters
    reply.outcome
  refine ⟨texts, enforced.2.toList.map milestoneText ++
    if enforced.1.retryWarning ≠ "" then [enforced.1.retryWarning] else [], ?_, hlen⟩
  rw [List.map_append, ← hwarning, List.map_map, ← heq]
  rfl

-- The reminders come after the trim.
theorem toolTurn_messages (state : State) (reply : Reply) :
    ∃ reminders : List String, (toolTurn env state reply).messages =
      trimToCount (state.messages ++ (turnMessages env state reply).2) ++
        reminders.map Message.user :=
  ⟨_, rfl⟩

theorem Message.plain_users (texts : List String) :
    ∀ msg ∈ texts.map Message.user, msg.Plain := by
  intro msg hm
  obtain ⟨text, -, rfl⟩ := List.mem_map.mp hm
  exact Message.plain_user text

theorem Ordered.toolTurn {state : State} (h : Ordered state.messages) {reply : Reply}
    (huses : toolUses reply.content ≠ []) :
    Ordered (toolTurn env { state with
      messages := state.messages ++ [.assistant reply.content] } reply).messages := by
  obtain ⟨reminders, heq⟩ := toolTurn_messages env
    { state with messages := state.messages ++ [.assistant reply.content] } reply
  obtain ⟨texts, others, hmessages, hlen⟩ := turnMessages_eq env
    { state with messages := state.messages ++ [.assistant reply.content] } reply
  obtain ⟨hawaits, hresults⟩ := turn_ordered reply huses texts hlen
  have hturn := ((h.append hawaits hresults).append_plain (Message.plain_users others)).trimToCount
  rw [heq, hmessages]
  refine Ordered.append_plain ?_ (Message.plain_users reminders)
  simpa using hturn

-- A turn that is over adds at most one user message.
theorem endTurn_messages {state after : State} {reply : Reply}
    (he : endTurn env state reply = some after) :
    ∃ text, after.messages = state.messages ++ [.user text] := by
  unfold endTurn at he
  dsimp only at he
  split at he
  · cases he
    exact ⟨_, rfl⟩
  split at he
  · cases he
    exact ⟨_, rfl⟩
  · cases he

theorem Ordered.step {state after : State} {event : Event} (h : Ordered state.messages)
    (he : step env state event = some after) : Ordered after.messages := by
  cases event with
  | request =>
      simp only [Claude.step] at he
      split at he <;> cases he
      exact h
  | reply reply =>
      simp only [Claude.step] at he
      split at he
      · simp only [respond] at he
        split at he
        · rename_i hstop
          obtain ⟨text, htext⟩ := endTurn_messages env he
          rw [htext]
          -- A response that ends the turn uses no tool.
          have hcalls : protocol.calls (.assistant reply.content) = [] := by
            simp [protocol, Message.assistant, reply.end_turn hstop]
          have hassistant : protocol.Awaits [] [.assistant reply.content] :=
            (Protocol.awaits_plain hcalls (assistant_results reply)).mpr rfl
          refine Ordered.append_plain (h.append hassistant fun msg hm => ?_) fun msg hm => ?_
          · rw [List.mem_singleton.mp hm]
            exact assistant_isResult reply
          · rw [List.mem_singleton.mp hm]
            exact Message.plain_user text
        split at he
        · cases he
        split at he
        · cases he
        · rename_i huses
          cases he
          exact h.toolTurn env huses
      · cases he

end Turns

theorem start_ordered (userMessage : String) (history : List TextMessage) :
    Ordered (start userMessage (history.map Injected.ofText)).messages := by
  have hplain : ∀ msg ∈ (start userMessage (history.map Injected.ofText)).messages, msg.Plain := by
    intro msg hm
    simp only [start, List.mem_append, List.mem_singleton, List.mem_map, List.mem_filter] at hm
    rcases hm with ⟨injected, ⟨⟨text, -, rfl⟩, -⟩, rfl⟩ | rfl
    · exact ⟨text.text, rfl⟩
    · exact Message.plain_user userMessage
  refine ⟨?_, Message.Plain.awaits hplain, fun msg hm => (hplain msg hm).isResult⟩
  cases hm : (start userMessage (history.map Injected.ofText)).messages with
  | nil => simp [start] at hm
  | cons head tail => exact ⟨head, tail, rfl, hplain head (by simp [hm])⟩

theorem always_paired (env : Env) (userMessage : String) (history : List TextMessage)
    (events : List Event) :
    Always (step env) (fun state => state.awaiting → protocol.Paired state.messages)
      (start userMessage (history.map Injected.ofText)) events := by
  have hguard : Along (step env) (fun _ _ => True)
      (start userMessage (history.map Injected.ofText)) events :=
    along_of_forall (fun _ _ => trivial) _ _
  refine hguard.always (fun state => Ordered state.messages)
    (fun _ _ _ h _ he => h.step env he) ?_ (start_ordered _ _)
  intro state h _
  exact h.awaits.paired

end Claude

-- In every request each result follows the message that issued its call, and no call is without
-- its result.
theorem requests_paired :
    (∀ (env : Openai.Env) (systemInstruction userMessage : String) (history : List TextMessage)
      (events : List Openai.Event),
      Always (Openai.step env)
        (fun state => state.awaiting → Openai.protocol.Paired state.history)
        (Openai.start systemInstruction userMessage (history.map Openai.Injected.ofText)) events) ∧
    (∀ (env : Claude.Env) (userMessage : String) (history : List TextMessage)
      (events : List Claude.Event),
      Always (Claude.step env)
        (fun state => state.awaiting → Claude.protocol.Paired state.messages)
        (Claude.start userMessage (history.map Claude.Injected.ofText)) events) :=
  ⟨Openai.always_paired, Claude.always_paired⟩

end EvoClaw.AgentLoop
