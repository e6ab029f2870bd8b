import EvoClaw.AgentLoop.Gemini
import EvoClaw.AgentLoop.Ordering
import EvoClaw.AgentLoop.Window

namespace EvoClaw.AgentLoop

open EventSystem Window

namespace Openai

variable (env : Env)

-- What the byte trim counts for the messages.
def cost (floatText : BitVec 64 → List Char) (msgs : List Message) : Nat :=
  (msgs.map fun msg => byteSize floatText msg + 1).sum

-- Neither trim of the step reaches the task: the messages from the task on fit into the byte
-- budget beside the system message, and into the count beside it at the end of a tool turn.
def SparesTask (state : State) : Event → Prop
  | .request =>
      let history := (forceTool env state).history
      totalSize env.floatText history ≤ HISTORY_BYTE_BUDGET ∨
        (cost env.floatText (onward Message.isTask history) : Int) ≤
          HISTORY_BYTE_BUDGET - totalSize env.floatText (history.take 1)
  | .reply reply =>
      reply.finishReason ≠ "length" → reply.toolCalls ≠ [] →
        (onward Message.isTask (state.history ++ [.assistant reply.content reply.toolCalls] ++
          (turnMessages env state reply).2)).length ≤ MAX_HISTORY_MESSAGES - 1

-- The trim keeps the latest messages exactly if all of them fit together.
theorem length_fitting (floatText : BitVec 64 → List Char) (latest earlier : List Message)
    (remaining : Int) (h : 0 ≤ remaining ∨ latest ≠ []) :
    latest.length ≤ (fitting floatText remaining (latest ++ earlier)).length ↔
      (cost floatText latest : Int) ≤ remaining := by
  induction latest generalizing remaining with
  | nil => simpa [cost] using h
  | cons msg latest ih =>
      have hcons : cost floatText (msg :: latest) =
          byteSize floatText msg + 1 + cost floatText latest := by
        rw [cost, cost, List.map_cons, List.sum_cons]
      have hcost : (cost floatText (msg :: latest) : Int) =
          byteSize floatText msg + 1 + cost floatText latest := by omega
      rw [hcost, List.cons_append]
      unfold fitting
      split
      · rename_i hlt
        simp only [List.length_cons, List.length_nil, Nat.le_zero, Nat.succ_ne_zero, false_iff]
        omega
      · rename_i hle
        rw [List.length_cons, List.length_cons, Nat.add_le_add_iff_right,
          ih _ (.inl (by omega))]
        omega

theorem cost_reverse (floatText : BitVec 64 → List Char) (msgs : List Message) :
    cost floatText msgs.reverse = cost floatText msgs := by
  simp [cost, List.sum_reverse]

-- The byte trim keeps a suffix of the history, which reaches back to the task exactly if the
-- messages from the task on fit.
theorem fitting_length {history : List Message}
    (h : Once Message.isTask Message.isTool 1 history) (floatText : BitVec 64 → List Char)
    (remaining : Int) :
    ∃ n, (fitting floatText remaining history.tail.reverse).reverse = history.drop n ∧
      (n + (onward Message.isTask history).length ≤ history.length ↔
        (cost floatText (onward Message.isTask history) : Int) ≤ remaining) := by
  obtain ⟨before, task, after, heq, hmark, -, hk, hbefore, -⟩ := h
  cases before with
  | nil => simp at hk
  | cons head before =>
      have honward : onward Message.isTask history = task :: after := by
        rw [heq]
        exact onward_eq hmark hbefore
      have htail : history.tail = before ++ task :: after := by simp [heq]
      have hreverse : history.tail.reverse = (task :: after).reverse ++ before.reverse := by
        simp [htail]
      have hfits := length_fitting floatText (task :: after).reverse before.reverse remaining
        (.inr (by simp))
      rw [cost_reverse, ← hreverse, List.length_reverse] at hfits
      obtain ⟨n, hn⟩ := fitting_suffix floatText head history.tail remaining
      have hhistory : head :: history.tail = history := by simp [heq]
      rw [hhistory] at hn
      have hlength : (fitting floatText remaining history.tail.reverse).length =
          history.length - n := by
        rw [← List.length_reverse, hn, List.length_drop]
      refine ⟨n, hn, ?_⟩
      rw [honward, ← hfits, hlength, List.length_cons]
      omega

-- The byte trim keeps the task exactly if it has room for everything from the task on.
theorem trimToByteBudget_iff {floatText : BitVec 64 → List Char} {budget : Nat}
    {history : List Message} (h : Once Message.isTask Message.isTool 1 history) :
    (Has Message.isTask (trimToByteBudget floatText budget history) ↔
      totalSize floatText history ≤ budget ∨ (cost floatText (onward Message.isTask history) : Int) ≤
        budget - totalSize floatText (history.take 1)) ∧
    (Has Message.isTask (trimToByteBudget floatText budget history) →
      Once Message.isTask Message.isTool 1 (trimToByteBudget floatText budget history)) := by
  unfold trimToByteBudget
  split
  · rename_i hfits
    exact ⟨⟨fun _ => .inl hfits, fun _ => h.has⟩, fun _ => h⟩
  · rename_i hfits
    set remaining : Int := budget - totalSize floatText (history.take 1)
    obtain ⟨n, hn, hlength⟩ := fitting_length h floatText remaining
    have hkeep := h.keep_iff (n := n)
    simp only [hn, hfits, false_or, ← hlength]
    exact ⟨hkeep, fun hhas => h.keep (hkeep.mp hhas)⟩

section Turns

variable (env : Env)

theorem turnMessages_unmarked (state : State) (reply : Reply) :
    ∀ msg ∈ (turnMessages env state reply).2, msg.isTask = false := by
  obtain ⟨results, texts, heq, hresults⟩ := turnMessages_eq env state reply
  rw [heq]
  intro msg hm
  rcases List.mem_append.mp hm with hm | hm
  · obtain ⟨id, text, rfl⟩ := (results_answer hresults).1 msg hm
    rfl
  · obtain ⟨text, -, rfl⟩ := List.mem_map.mp hm
    rfl

theorem forceTool_once {state : State} (h : Once Message.isTask Message.isTool 1 state.history) :
    Once Message.isTask Message.isTool 1 (forceTool env state).history := by
  unfold forceTool
  split
  · exact h.append fun msg hm => List.mem_singleton.mp hm ▸ rfl
  · exact h

-- A step keeps the task exactly if its trims spare it.
theorem step_task {state after : State} {event : Event}
    (h : Once Message.isTask Message.isTool 1 state.history)
    (he : step env state event = some after) :
    (Has Message.isTask after.history ↔ SparesTask env state event) ∧
      (Has Message.isTask after.history → Once Message.isTask Message.isTool 1 after.history) := by
  cases event with
  | request =>
      simp only [step] at he
      split at he <;> cases he
      exact trimToByteBudget_iff (forceTool_once env h)
  | reply reply =>
      simp only [step] at he
      split at he
      · simp only [respond] at he
        have hassistant : Once Message.isTask Message.isTool 1
            (state.history ++ [.assistant reply.content reply.toolCalls]) :=
          h.append fun msg hm => List.mem_singleton.mp hm ▸ rfl
        split at he
        · cases he
        rename_i hlength
        split at he
        · rename_i hcalls
          obtain ⟨text, htext⟩ := textTurn_history env he
          have hafter : Once Message.isTask Message.isTool 1 after.history := by
            rw [htext]
            exact hassistant.append fun msg hm => List.mem_singleton.mp hm ▸ rfl
          exact ⟨iff_of_true hafter.has fun _ hne => absurd hcalls hne, fun _ => hafter⟩
        · rename_i hcalls
          cases he
          have hturn := hassistant.append (turnMessages_unmarked env state reply)
          refine ⟨(hturn.trim_iff (by decide)).trans ?_, hturn.trim⟩
          exact ⟨fun hfits _ _ => hfits, fun hfits => hfits hlength hcalls⟩
      · cases he

end Turns

theorem start_once (systemInstruction userMessage : String) (conversationHistory : List Injected) :
    Once Message.isTask Message.isTool 1
      (start systemInstruction userMessage conversationHistory).history := by
  refine ⟨_, _, [], rfl, rfl, rfl, by simp, fun msg hm => ?_, by simp⟩
  rcases List.mem_append.mp hm with hm | hm
  · rw [List.mem_singleton.mp hm]
  · obtain ⟨injected, -, rfl⟩ := List.mem_map.mp hm
    rfl

theorem task_kept_iff (env : Env) (systemInstruction userMessage : String)
    (conversationHistory : List Injected) (events : List Event) :
    Always (step env) (fun state => Has Message.isTask state.history)
        (start systemInstruction userMessage conversationHistory) events ↔
      Along (step env) (SparesTask env)
        (start systemInstruction userMessage conversationHistory) events := by
  refine always_iff_along
    (fun state : State => Once Message.isTask Message.isTool 1 state.history)
    ?_ (fun _ h => h.has) ?_ (start_once _ _ _)
  · intro state event next h hguard he
    obtain ⟨hiff, honce⟩ := step_task env h he
    exact honce (hiff.mpr hguard)
  · intro state event next h he hhas
    exact (step_task env h he).1.mp hhas

section LongTask

theorem length_le_escaped (text : List Char) :
    text.length ≤ (text.flatMap JsonText.Utf8.escape).length := by
  induction text with
  | nil => simp
  | cons c text ih =>
      have hpos : 0 < (JsonText.Utf8.escape c).length := by
        unfold JsonText.Utf8.escape JsonText.unicodeEscape
        split_ifs <;> simp
      rw [List.flatMap_cons, List.length_append, List.length_cons]
      omega

-- Every character of a text takes at least one byte of its message.
theorem length_le_byteSize (floatText : BitVec 64 → List Char) (text : String) :
    text.toList.length ≤ byteSize floatText { Message.user text with isTask := true } := by
  have hbytes : ∀ chars : List Char, chars.length ≤ (chars.map Char.utf8Size).sum := by
    intro chars
    induction chars with
    | nil => simp
    | cons c chars ih =>
        have hpos := Char.utf8Size_pos c
        rw [List.map_cons, List.sum_cons, List.length_cons]
        omega
  have hescaped := length_le_escaped text.toList
  refine le_trans ?_ (hbytes _)
  simp only [Message.user, Message.toJson, JsonText.Utf8.dumps, JsonText.Utf8.dumpFields,
    JsonText.Utf8.quote, List.length_append, List.length_cons, List.cons_append, List.nil_append,
    List.append_nil, if_true]
  omega

theorem byteSize_lt_totalSize (floatText : BitVec 64 → List Char) (head msg : Message) :
    byteSize floatText msg < totalSize floatText [head, msg] := by
  have hpos := Char.utf8Size_pos '['
  simp only [byteSize, totalSize, JsonText.Utf8.byteCount, JsonText.Utf8.dumps,
    JsonText.Utf8.dumpItems, List.map_cons, List.map_nil, List.map_append, List.sum_cons,
    List.sum_append]
  omega

-- A task as long as the whole budget does not survive the byte trim.
theorem long_task_cut (floatText : BitVec 64 → List Char) {head task : Message}
    (hhead : head.isTask = false) (htask : task.isTask) (hrole : task.isTool = false) (budget : Nat)
    (h : budget ≤ byteSize floatText task) :
    ¬ Has Message.isTask (trimToByteBudget floatText budget [head, task]) := by
  have honce : Once Message.isTask Message.isTool 1 [head, task] :=
    ⟨[head], task, [], rfl, htask, hrole, by simp, by simp [hhead], by simp⟩
  have htotal := byteSize_lt_totalSize floatText head task
  have honward : onward Message.isTask [head, task] = [task] := by
    simp [onward, hhead, htask]
  rw [(trimToByteBudget_iff honce).1, honward]
  simp only [cost, List.map_cons, List.map_nil, List.sum_cons, List.sum_nil]
  omega

theorem step_first {env : Env} (h : 0 < env.maxIter) (systemInstruction userMessage : String)
    (conversationHistory : List Injected) :
    step env (start systemInstruction userMessage conversationHistory) .request =
      some (request env (start systemInstruction userMessage conversationHistory)) := by
  unfold step
  exact if_pos ⟨rfl, h⟩

-- Then the task is not even in the first request.
theorem long_task_not_sent (env : Env) (systemInstruction userMessage : String)
    (h : HISTORY_BYTE_BUDGET ≤ userMessage.toList.length) :
    ¬ Has Message.isTask (request env (start systemInstruction userMessage [])).history := by
  have hforced : forceTool env (start systemInstruction userMessage []) =
      start systemInstruction userMessage [] := if_neg (by simp [start])
  have hhistory : (start systemInstruction userMessage []).history =
      [{ role := "system", content := .str systemInstruction },
        { Message.user userMessage with isTask := true }] := rfl
  simp only [request, hforced, hhistory]
  exact long_task_cut env.floatText rfl rfl rfl HISTORY_BYTE_BUDGET
    (h.trans (length_le_byteSize env.floatText userMessage))

end LongTask

end Openai

namespace Claude

variable (env : Env)

-- Neither does the trim of the step: the task opens the messages, or the messages from the task
-- on fit into the count beside the first one.
def SparesTask (state : State) : Event → Prop
  | .request => True
  | .reply reply =>
      reply.stopReason = "tool_use" → toolUses reply.content ≠ [] →
        state.messages.head?.any Message.isTask ∨
          (onward Message.isTask (state.messages ++ [.assistant reply.content] ++
            (turnMessages env state reply).2)).length ≤ MAX_HISTORY_MESSAGES - 1

-- The task opens the messages, where no trim reaches it, or it stands behind the first one.
def Held (messages : List Message) : Prop :=
  messages.head?.any Message.isTask ∨ Once Message.isTask Message.isResult 1 messages

namespace Held

variable {messages others : List Message}

theorem has (h : Held messages) : Has Message.isTask messages := by
  rcases h with h | h
  · cases messages with
    | nil => cases h
    | cons msg rest => exact ⟨msg, by simp, h⟩
  · exact h.has

theorem append (h : Held messages) (hothers : ∀ msg ∈ others, msg.isTask = false) :
    Held (messages ++ others) := by
  rcases h with h | h
  · left
    cases messages with
    | nil => simp at h
    | cons msg rest => exact h
  · exact .inr (h.append hothers)

theorem head?_append (h : Held messages) : (messages ++ others).head? = messages.head? := by
  obtain ⟨msg, hm, -⟩ := h.has
  exact List.head?_append_of_ne_nil _ (List.ne_nil_of_mem hm)

end Held

theorem users_unmarked (texts : List String) :
    ∀ msg ∈ texts.map Message.user, msg.isTask = false := by
  intro msg hm
  obtain ⟨text, -, rfl⟩ := List.mem_map.mp hm
  rfl

theorem turnMessages_unmarked (state : State) (reply : Reply) :
    ∀ msg ∈ (turnMessages env state reply).2, msg.isTask = false := by
  obtain ⟨texts, others, heq, -⟩ := turnMessages_eq env state reply
  rw [heq]
  intro msg hm
  rcases List.mem_cons.mp hm with rfl | hm
  · rfl
  · exact users_unmarked others msg hm

theorem trim_task {messages : List Message} (h : Held messages) :
    (Has Message.isTask (trimToCount messages) ↔ messages.head?.any Message.isTask ∨
      (onward Message.isTask messages).length ≤ MAX_HISTORY_MESSAGES - 1) ∧
    (Has Message.isTask (trimToCount messages) → Held (trimToCount messages)) := by
  by_cases hfirst : messages.head?.any Message.isTask
  · have hheld : Held (trimToCount messages) := by
      left
      rw [← hfirst]
      exact congrArg _ (head?_trim (by decide))
    exact ⟨iff_of_true hheld.has (.inl hfirst), fun _ => hheld⟩
  · have honce := h.resolve_left hfirst
    refine ⟨?_, fun hhas => .inr (honce.trim hhas)⟩
    rw [or_iff_right hfirst]
    exact honce.trim_iff (by decide)

theorem step_task {state after : State} {event : Event} (h : Held state.messages)
    (he : step env state event = some after) :
    (Has Message.isTask after.messages ↔ SparesTask env state event) ∧
      (Has Message.isTask after.messages → Held after.messages) := by
  cases event with
  | request =>
      simp only [step] at he
      split at he <;> cases he
      exact ⟨iff_of_true h.has trivial, fun _ => h⟩
  | reply reply =>
      simp only [step] at he
      split at he
      · simp only [respond] at he
        have hassistant : Held (state.messages ++ [.assistant reply.content]) :=
          h.append fun msg hm => List.mem_singleton.mp hm ▸ rfl
        split at he
        · rename_i hstop
          obtain ⟨text, htext⟩ := endTurn_messages env he
          have hafter : Held after.messages := by
            rw [htext]
            exact hassistant.append fun msg hm => List.mem_singleton.mp hm ▸ rfl
          refine ⟨iff_of_true hafter.has fun huse => ?_, fun _ => hafter⟩
          exact absurd (hstop.symm.trans huse) (by decide)
        split at he
        · cases he
        split at he
        · cases he
        · rename_i hstop huse huses
          cases he
          obtain ⟨reminders, heq⟩ := toolTurn_messages env
            { state with messages := state.messages ++ [.assistant reply.content] } reply
          obtain ⟨hiff, hheld⟩ := trim_task (hassistant.append (turnMessages_unmarked env
            { state with messages := state.messages ++ [.assistant reply.content] } reply))
          rw [heq, has_append (users_unmarked reminders)]
          refine ⟨hiff.trans ?_, fun hhas => (hheld hhas).append (users_unmarked reminders)⟩
          rw [List.append_assoc, h.head?_append, ← List.append_assoc]
          exact ⟨fun hspared _ _ => hspared, fun hspared => hspared (not_not.mp huse) huses⟩
      · cases he

theorem start_held (userMessage : String) (conversationHistory : List Injected) :
    Held (start userMessage conversationHistory).messages := by
  have htask : ({ Message.user userMessage with isTask := true }).isResult = false := rfl
  have hinjected : ∀ msg ∈ ((conversationHistory.filter fun msg => !msg.isEmpty).map
      fun msg => ({ role := msg.role, content := msg.content } : Message)), msg.isTask = false := by
    intro msg hm
    obtain ⟨injected, -, rfl⟩ := List.mem_map.mp hm
    rfl
  unfold start
  cases hmessages : (conversationHistory.filter fun msg => !msg.isEmpty).map
      fun msg => ({ role := msg.role, content := msg.content } : Message) with
  | nil => exact .inl rfl
  | cons msg rest =>
      rw [hmessages] at hinjected
      exact .inr ⟨msg :: rest, _, [], rfl, rfl, htask, by simp, hinjected, by simp⟩

theorem task_kept_iff (userMessage : String) (conversationHistory : List Injected)
    (events : List Event) :
    Always (step env) (fun state => Has Message.isTask state.messages)
        (start userMessage conversationHistory) events ↔
      Along (step env) (SparesTask env) (start userMessage conversationHistory) events := by
  refine always_iff_along (fun state : State => Held state.messages) ?_ (fun _ h => h.has) ?_
    (start_held _ _)
  · intro state event next h hguard he
    obtain ⟨hiff, hheld⟩ := step_task env h he
    exact hheld (hiff.mpr hguard)
  · intro state event next h he hhas
    exact (step_task env h he).1.mp hhas

end Claude

namespace Gemini

variable (env : Env)

-- The trim of the step spares the task: the messages from the task on fit into the count beside
-- the few-shot pair.
def SparesTask (state : State) : Event → Prop
  | .request => True
  | .reply reply =>
      functionCalls reply.parts ≠ [] →
        (onward Content.isTask (state.history ++ [{ role := "model", parts := reply.parts }] ++
          (turnMessages env state reply).2.2)).length ≤ MAX_HISTORY_MESSAGES - 2

theorem withWarning_unmarked (warning : String) (milestone : Option Milestone) :
    ∀ msg ∈ withWarning warning milestone, msg.isTask = false := by
  intro msg hm
  unfold withWarning at hm
  split at hm
  · split at hm
    · rw [List.mem_singleton.mp hm]
      rfl
    · cases hm
  · dsimp only at hm
    split at hm
    · rw [List.mem_singleton.mp hm]
    · rw [List.mem_singleton.mp hm]
      rfl

theorem turnMessages_unmarked (state : State) (reply : Reply) :
    ∀ msg ∈ (turnMessages env state reply).2.2, msg.isTask = false := by
  intro msg hm
  rcases List.mem_append.mp hm with hm | hm
  · rcases List.mem_cons.mp hm with rfl | hm
    · rfl
    · exact withWarning_unmarked _ _ msg hm
  · obtain ⟨text, -, rfl⟩ := List.mem_map.mp hm
    rfl

-- A turn without function calls adds one message.
theorem textTurn_history {state after : State} {reply : Reply}
    (he : textTurn env state reply = some after) :
    ∃ text, after.history = state.history ++ [.user text] := by
  unfold textTurn at he
  dsimp only at he
  split at he
  · cases he
    exact ⟨_, rfl⟩
  split at he
  · cases he
    exact ⟨_, rfl⟩
  · cases he

theorem step_task {state after : State} {event : Event}
    (h : Once Content.isTask Content.isResponse 2 state.history)
    (he : step env state event = some after) :
    (Has Content.isTask after.history ↔ SparesTask env state event) ∧
      (Has Content.isTask after.history →
        Once Content.isTask Content.isResponse 2 after.history) := by
  cases event with
  | request =>
      simp only [step] at he
      split at he <;> cases he
      exact ⟨iff_of_true h.has trivial, fun _ => h⟩
  | reply reply =>
      simp only [step] at he
      split at he
      · simp only [respond] at he
        have hmodel : Once Content.isTask Content.isResponse 2
            (state.history ++ [{ role := "model", parts := reply.parts }]) :=
          h.append fun msg hm => List.mem_singleton.mp hm ▸ rfl
        split at he
        · cases he
        split at he
        · rename_i hcalls
          obtain ⟨text, htext⟩ := textTurn_history env he
          have hafter : Once Content.isTask Content.isResponse 2 after.history := by
            rw [htext]
            exact hmodel.append fun msg hm => List.mem_singleton.mp hm ▸ rfl
          exact ⟨iff_of_true hafter.has fun hne => absurd hcalls hne, fun _ => hafter⟩
        · rename_i hcalls
          have hturn := hmodel.append (turnMessages_unmarked env state reply)
          have hiff : Has Content.isTask (trimToCount _) ↔ SparesTask env state (.reply reply) :=
            (hturn.trim_iff (by decide)).trans
              ⟨fun hfits _ => hfits, fun hfits => hfits hcalls⟩
          unfold toolTurn at he
          dsimp only at he
          split at he
          · cases he
          · cases he
            exact ⟨hiff, hturn.trim⟩
      · cases he

-- A text with or without image has no function response.
theorem parse_no_response (isReadable : String → Bool) (message : String) :
    ∀ part ∈ parseMessageWithImage isReadable message, ∀ name result,
      part ≠ .functionResponse name result := by
  intro part hp name result heq
  subst heq
  unfold parseMessageWithImage at hp
  dsimp only at hp
  split at hp
  · split at hp <;> simp at hp
  · split at hp <;> split at hp <;> simp at hp

theorem task_not_response {parts : List Part}
    (hparts : ∀ part ∈ parts, ∀ name result, part ≠ .functionResponse name result) :
    ({ role := "user", parts := parts, isTask := true } : Content).isResponse = false := by
  unfold Content.isResponse
  cases parts with
  | nil => simp
  | cons part parts =>
      cases part with
      | functionResponse name result => exact absurd rfl (hparts _ (by simp) name result)
      | _ => simp

theorem inject_unmarked (injected : Injected) :
    ∀ msg ∈ inject env injected, msg.isTask = false := by
  intro msg hm
  simp only [inject] at hm
  split at hm
  · cases hm
  split at hm
  · cases hm
  · rw [List.mem_singleton.mp hm]

theorem start_once (userMessage : String) (conversationHistory : List Injected)
    (h : parseMessageWithImage env.isReadable userMessage ≠ []) :
    Once Content.isTask Content.isResponse 2
      (start env userMessage conversationHistory).history := by
  refine ⟨fewShot env ++ conversationHistory.flatMap (inject env), _, [], ?_, rfl,
    task_not_response (parse_no_response env.isReadable userMessage), by simp [fewShot],
    fun msg hm => ?_, by simp⟩
  · simp [start, h]
  · rcases List.mem_append.mp hm with hm | hm
    · rcases List.mem_pair.mp hm with rfl | rfl <;> rfl
    · obtain ⟨injected, -, hm⟩ := List.mem_flatMap.mp hm
      exact inject_unmarked env injected msg hm

-- A message without parts is not sent at all.
theorem start_without_task (userMessage : String) (conversationHistory : List Injected)
    (h : parseMessageWithImage env.isReadable userMessage = []) :
    ¬ Has Content.isTask (start env userMessage conversationHistory).history := by
  rintro ⟨msg, hm, htask⟩
  simp only [start, h, if_true, List.append_nil] at hm
  rcases List.mem_append.mp hm with hm | hm
  · rcases List.mem_pair.mp hm with rfl | rfl <;> cases htask
  · obtain ⟨injected, -, hm⟩ := List.mem_flatMap.mp hm
    rw [inject_unmarked env injected msg hm] at htask
    cases htask

theorem task_kept_iff (userMessage : String) (conversationHistory : List Injected)
    (events : List Event) :
    Always (step env) (fun state => Has Content.isTask state.history)
        (start env userMessage conversationHistory) events ↔
      parseMessageWithImage env.isReadable userMessage ≠ [] ∧
        Along (step env) (SparesTask env) (start env userMessage conversationHistory) events := by
  by_cases hparts : parseMessageWithImage env.isReadable userMessage = []
  · have hnot := start_without_task env userMessage conversationHistory hparts
    exact ⟨fun h => absurd h.head hnot, fun h => absurd hparts h.1⟩
  rw [and_iff_right hparts]
  refine always_iff_along (fun state : State => Once Content.isTask Content.isResponse 2
    state.history) ?_ (fun _ h => h.has) ?_ (start_once env _ _ hparts)
  · intro state event next h hguard he
    obtain ⟨hiff, honce⟩ := step_task env h he
    exact honce (hiff.mpr hguard)
  · intro state event next h he hhas
    exact (step_task env h he).1.mp hhas

end Gemini

-- The messages keep the task exactly as long as the trims spare it.
theorem task_kept_iff_spared :
    (∀ (env : Openai.Env) (systemInstruction userMessage : String)
      (history : List Openai.Injected) (events : List Openai.Event),
      Always (Openai.step env) (fun state => Has Openai.Message.isTask state.history)
          (Openai.start systemInstruction userMessage history) events ↔
        Along (Openai.step env) (Openai.SparesTask env)
          (Openai.start systemInstruction userMessage history) events) ∧
    (∀ (env : Claude.Env) (userMessage : String) (history : List Claude.Injected)
      (events : List Claude.Event),
      Always (Claude.step env) (fun state => Has Claude.Message.isTask state.messages)
          (Claude.start userMessage history) events ↔
        Along (Claude.step env) (Claude.SparesTask env)
          (Claude.start userMessage history) events) ∧
    (∀ (env : Gemini.Env) (userMessage : String) (history : List Gemini.Injected)
      (events : List Gemini.Event),
      Always (Gemini.step env) (fun state => Has Gemini.Content.isTask state.history)
          (Gemini.start env userMessage history) events ↔
        Gemini.parseMessageWithImage env.isReadable userMessage ≠ [] ∧
          Along (Gemini.step env) (Gemini.SparesTask env)
            (Gemini.start env userMessage history) events) :=
  ⟨Openai.task_kept_iff, Claude.task_kept_iff, Gemini.task_kept_iff⟩

-- Nothing that a model says in it means anything.
def Openai.plainEnv : Openai.Env where
  fakeStatus _ := false
  actionClaim _ := false
  hash _ := 0
  maxIter := 20
  isQwen := false
  floatText _ := []
  extendedFake _ := false
  codeBlocks _ := []
  gitLogLine _ := false
  bareFile _ := false
  parseArgs := .ok

-- A task of 70000 characters does not reach the model.
theorem long_task_lost :
    ¬ Always (Openai.step Openai.plainEnv)
      (fun state => state.awaiting → Has Openai.Message.isTask state.history)
      (Openai.start "" (String.ofList (List.replicate 70000 'x')) []) [.request] := by
  intro h
  rw [always_cons_of_step (Openai.step_first (by decide) _ _ _)] at h
  refine Openai.long_task_not_sent Openai.plainEnv "" _ ?_ (h.2 rfl)
  rw [String.toList_ofList, List.length_replicate]
  decide

end EvoClaw.AgentLoop
