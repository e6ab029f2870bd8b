import EvoClaw.AgentLoop.Dialogue
import EvoClaw.AgentLoop.Retention

-- The function calls of run_agent (Gemini). They have no ids, so their responses are told apart
-- by their place.
namespace EvoClaw.AgentLoop.Gemini

open Dialogue EventSystem

def functionResponses (parts : List Part) : List String :=
  parts.filterMap fun
    | .functionResponse name _ => some name
    | _ => none

def protocol : Protocol Content String where
  calls msg := (functionCalls msg.parts).map Prod.fst
  results msg := functionResponses msg.parts

-- The model issues function calls and never answers them.
def Event.Issues : Event → Prop
  | .request => True
  | .reply response => functionResponses response.parts = []

-- Neither calls a function nor answers a call.
structure Content.Plain (msg : Content) : Prop where
  calls : protocol.calls msg = []
  results : protocol.results msg = []

structure Ordered (history : List Content) : Prop where
  headed : ∃ first second tail, history = first :: second :: tail ∧ first.Plain ∧ second.Plain
  expects : protocol.Expects [] history
  responses : ∀ msg ∈ history, msg.isResponse = protocol.isResult msg

section Messages

variable {msg : Content} {msgs : List Content}

theorem isResponse_of_no_results (h : protocol.results msg = []) : msg.isResponse = false := by
  have hnone := List.filterMap_eq_nil_iff.mp h
  refine decide_eq_false fun ⟨_, hne, hall⟩ => ?_
  obtain ⟨part, parts, hparts⟩ := List.exists_cons_of_ne_nil hne
  rw [hparts] at hnone hall
  cases part with
  | functionResponse name result => exact absurd (hnone _ List.mem_cons_self) (by simp)
  | text | image | functionCall => simp at hall

theorem isResponse_eq (h : protocol.results msg = []) :
    msg.isResponse = protocol.isResult msg := by
  rw [isResponse_of_no_results h, Protocol.isResult, h]
  rfl

theorem Content.plain_user (text : String) : (Content.user text).Plain := ⟨rfl, rfl⟩

theorem Content.Plain.expects (h : ∀ msg ∈ msgs, msg.Plain) : protocol.Expects [] msgs := by
  induction msgs with
  | nil => rfl
  | cons msg msgs ih =>
      rw [Protocol.expects_plain (h msg (by simp)).calls (h msg (by simp)).results]
      exact ih fun m hm => h m (by simp [hm])

-- The parts of a text with an image in it.
theorem parsed_plain (isReadable : String → Bool) (message : String) (role : String)
    (isTask : Bool) :
    (Content.mk role (parseMessageWithImage isReadable message) isTask).Plain := by
  have hparts : ∀ part ∈ parseMessageWithImage isReadable message,
      (∃ text, part = .text text) ∨ ∃ path, part = .image path := by
    intro part hmem
    unfold parseMessageWithImage at hmem
    dsimp only at hmem
    split at hmem
    · split at hmem
      · cases hmem
      · exact .inl ⟨message, List.mem_singleton.mp hmem⟩
    · rcases List.mem_append.mp hmem with hmem | hmem
      · split at hmem
        · exact .inr ⟨_, List.mem_singleton.mp hmem⟩
        · cases hmem
      · split at hmem
        · cases hmem
        · exact .inl ⟨_, List.mem_singleton.mp hmem⟩
  constructor
  · refine List.map_eq_nil_iff.mpr (List.filterMap_eq_nil_iff.mpr fun part hmem => ?_)
    rcases hparts part hmem with ⟨text, rfl⟩ | ⟨path, rfl⟩ <;> rfl
  · refine List.filterMap_eq_nil_iff.mpr fun part hmem => ?_
    rcases hparts part hmem with ⟨text, rfl⟩ | ⟨path, rfl⟩ <;> rfl

end Messages

namespace Ordered

variable {history : List Content}

theorem append (h : Ordered history) {msgs : List Content} (hmsgs : protocol.Expects [] msgs)
    (hresponses : ∀ msg ∈ msgs, msg.isResponse = protocol.isResult msg) :
    Ordered (history ++ msgs) := by
  obtain ⟨first, second, tail, rfl, hfirst, hsecond⟩ := h.headed
  refine ⟨⟨first, second, tail ++ msgs, rfl, hfirst, hsecond⟩, h.expects.append hmsgs,
    fun msg hm => ?_⟩
  rcases List.mem_append.mp hm with hm | hm
  · exact h.responses msg hm
  · exact hresponses msg hm

theorem append_plain (h : Ordered history) {msgs : List Content}
    (hmsgs : ∀ msg ∈ msgs, msg.Plain) : Ordered (history ++ msgs) :=
  h.append (Content.Plain.expects hmsgs) fun msg hm => isResponse_eq (hmsgs msg hm).results

theorem trimToCount (h : Ordered history) : Ordered (trimToCount history) := by
  unfold Gemini.trimToCount
  split
  · obtain ⟨first, second, tail, rfl, hfirst, hsecond⟩ := h.headed
    obtain ⟨left, hleft⟩ := h.expects.drop
      ((first :: second :: tail).length - (MAX_HISTORY_MESSAGES - 2))
    refine ⟨⟨first, second, _, rfl, hfirst, hsecond⟩, ?_, fun msg hm => ?_⟩
    · simp only [List.take_succ_cons, List.take_zero, List.cons_append, List.nil_append]
      rw [Protocol.expects_plain hfirst.calls hfirst.results,
        Protocol.expects_plain hsecond.calls hsecond.results,
        Protocol.dropWhile_congr fun m hm => h.responses m (List.mem_of_mem_drop hm)]
      exact hleft.dropWhile
    · rcases List.mem_append.mp hm with hm | hm
      · exact h.responses msg (List.mem_of_mem_take hm)
      · exact h.responses msg (List.mem_of_mem_drop ((List.dropWhile_sublist _).subset hm))
  · exact h

end Ordered

section Turns

variable (env : Env)

-- One response for each call, in their order.
theorem runTools_responses (calls : List (String × String)) (counters : Counters) (sent : Nat)
    (outcome : Nat → Outcome) :
    ∃ results : List (String × String),
      (runTools env counters sent outcome calls).2.2 =
        results.map (fun result => .functionResponse result.1 result.2) ∧
      results.map Prod.fst = calls.map Prod.fst := by
  induction calls generalizing counters sent outcome with
  | nil => exact ⟨[], rfl, rfl⟩
  | cons call calls ih =>
      obtain ⟨name, args⟩ := call
      simp only [runTools]
      obtain ⟨results, hparts, hnames⟩ := ih _ _ _
      rw [hparts]
      exact ⟨(name, _) :: results, rfl, by rw [List.map_cons, List.map_cons, hnames]⟩

theorem withWarning_plain (warning : String) (milestone : Option Milestone) :
    ∀ msg ∈ withWarning warning milestone, msg.Plain := by
  intro msg hm
  unfold withWarning at hm
  split at hm
  · split at hm
    · rw [List.mem_singleton.mp hm]
      exact Content.plain_user warning
    · cases hm
  · dsimp only at hm
    split at hm
    · rw [List.mem_singleton.mp hm]
      exact ⟨rfl, rfl⟩
    · rw [List.mem_singleton.mp hm]
      exact Content.plain_user _

-- The responses come first, the warnings and reminders after them.
theorem turnMessages_eq (state : State) (reply : Reply) :
    ∃ (results : List (String × String)) (others : List Content),
      (turnMessages env state reply).2.2 =
        { role := "user"
          parts := results.map fun result => .functionResponse result.1 result.2 } :: others ∧
      results.map Prod.fst = (functionCalls reply.parts).map Prod.fst ∧
      ∀ msg ∈ others, msg.Plain := by
  let ran := runTools env state.toCounters state.completionSendCount reply.outcome
    (functionCalls reply.parts)
  let noted := ran.1.milestone ((functionCalls reply.parts).map Prod.fst) state.turn env.maxIter
  let reminded := ({ noted.1 with retryWarning := "" } : Counters).penultimate state.turn env.maxIter
  obtain ⟨results, hparts, hnames⟩ := runTools_responses env (functionCalls reply.parts)
    state.toCounters state.completionSendCount reply.outcome
  refine ⟨results, withWarning noted.1.retryWarning noted.2 ++ reminded.2.map Content.user, ?_,
    hnames, ?_⟩
  · rw [← hparts]
    rfl
  · intro msg hm
    rcases List.mem_append.mp hm with hm | hm
    · exact withWarning_plain _ _ msg hm
    · obtain ⟨text, -, rfl⟩ := List.mem_map.mp hm
      exact Content.plain_user text

theorem responses_results (results : List (String × String)) :
    functionResponses (results.map fun result => .functionResponse result.1 result.2) =
      results.map Prod.fst := by
  simp [functionResponses, List.filterMap_map]

theorem responses_calls (results : List (String × String)) :
    functionCalls (results.map fun result => .functionResponse result.1 result.2) = [] := by
  simp [functionCalls, List.filterMap_map]

theorem Ordered.toolTurn {state after : State} (h : Ordered state.history) {reply : Reply}
    (hissues : functionResponses reply.parts = []) (hcalls : functionCalls reply.parts ≠ [])
    (he : toolTurn env { state with
      history := state.history ++ [{ role := "model", parts := reply.parts }] } reply =
        some after) : Ordered after.history := by
  obtain ⟨results, others, hmessages, hnames, hplain⟩ := turnMessages_eq env state reply
  have hhistory : after.history = Gemini.trimToCount (state.history ++
      [{ role := "model", parts := reply.parts }] ++ (turnMessages env state reply).2.2) := by
    unfold Gemini.toolTurn at he
    dsimp only at he
    split at he
    · cases he
    · cases he
      rfl
  have hne : results ≠ [] := by
    rintro rfl
    exact hcalls (List.map_eq_nil_iff.mp hnames.symm)
  rw [hhistory, hmessages]
  refine Ordered.trimToCount ?_
  rw [List.append_assoc]
  refine h.append ?_ fun msg hm => ?_
  · rw [List.singleton_append, Protocol.expects_exchange]
    · exact Content.Plain.expects hplain
    · exact hissues
    · exact fun hnone => hcalls (List.map_eq_nil_iff.mp hnone)
    · exact congrArg (List.map Prod.fst) (responses_calls results)
    · exact (responses_results results).trans hnames
  · rcases List.mem_cons.mp hm with rfl | hm
    · exact isResponse_eq hissues
    rcases List.mem_cons.mp hm with rfl | hm
    · have hresult : Protocol.isResult protocol ⟨"user", results.map fun result =>
          .functionResponse result.1 result.2, false⟩ = true := by
        simp [Protocol.isResult, protocol, responses_results, hne]
      rw [hresult]
      simp [Content.isResponse, hne]
    · exact isResponse_eq (hplain msg hm).results

theorem Ordered.step {state after : State} {event : Event} (h : Ordered state.history)
    (hissues : event.Issues) (he : step env state event = some after) :
    Ordered after.history := by
  cases event with
  | request =>
      simp only [Gemini.step] at he
      split at he <;> cases he
      exact h
  | reply reply =>
      simp only [Gemini.step] at he
      split at he
      · simp only [respond] at he
        split at he
        · cases he
        split at he
        · rename_i hcalls
          obtain ⟨text, htext⟩ := textTurn_history env he
          rw [htext, List.append_assoc]
          refine h.append_plain fun msg hm => ?_
          rcases List.mem_pair.mp hm with rfl | rfl
          · exact ⟨congrArg (List.map Prod.fst) hcalls, hissues⟩
          · exact Content.plain_user text
        · rename_i hcalls
          exact h.toolTurn env hissues hcalls he
      · cases he

end Turns

theorem start_ordered (env : Env) (userMessage : String) (history : List Injected) :
    Ordered (start env userMessage history).history := by
  have hplain : ∀ msg ∈ (start env userMessage history).history, msg.Plain := by
    intro msg hm
    simp only [start, List.mem_append] at hm
    rcases hm with (hm | hm) | hm
    · rcases List.mem_pair.mp hm with rfl | rfl <;> exact ⟨rfl, rfl⟩
    · obtain ⟨injected, -, hm⟩ := List.mem_flatMap.mp hm
      unfold inject at hm
      dsimp only at hm
      split at hm
      · simp at hm
      · split at hm
        · cases hm
        · rw [List.mem_singleton.mp hm]
          exact parsed_plain _ _ _ _
    · split at hm
      · cases hm
      · rw [List.mem_singleton.mp hm]
        exact parsed_plain _ _ _ _
  refine ⟨⟨_, _, _, rfl, hplain _ ?_, hplain _ ?_⟩, Content.Plain.expects hplain, fun msg hm =>
    isResponse_eq (hplain msg hm).results⟩
  · simp [start, fewShot]
  · simp [start, fewShot]

-- In every request the message behind one with function calls answers them one by one, and
-- responses stand nowhere else, whatever was trimmed before.
theorem function_calls_answered (env : Env) (userMessage : String) (history : List Injected)
    (events : List Event) (hissues : ∀ event ∈ events, event.Issues) :
    Always (step env) (fun state => state.awaiting → protocol.Exchanged state.history)
      (start env userMessage history) events := by
  have hguard : Along (step env) (fun _ event => event.Issues) (start env userMessage history)
      events := along_of_mem (fun event hmem _ => hissues event hmem) _
  refine hguard.always (fun state => Ordered state.history)
    (fun _ _ _ h hissue he => h.step env hissue he) ?_ (start_ordered _ _ _)
  intro state h _
  exact h.expects.exchanged

def plainEnv : Env where
  fakeStatus _ := false
  actionClaim _ := false
  hash _ := 0
  maxIter := 3
  assistantName := "Eve"
  isReadable _ := false
  completionPhrase _ := false

-- The model reads two files at once.
theorem two_calls_answered :
    Always (step plainEnv) (fun state => state.awaiting → protocol.Exchanged state.history)
      (start plainEnv "Compare the two." [])
      [.request, .reply ⟨"STOP", [.text "Reading.", .functionCall "Read" "a", .functionCall "Read" "b"],
        fun _ => .returned "text"⟩, .request] :=
  function_calls_answered plainEnv "Compare the two." [] _ (by
    intro event hmem
    simp only [List.mem_cons, List.not_mem_nil, or_false] at hmem
    rcases hmem with rfl | rfl | rfl
    · trivial
    · rfl
    · trivial)

end EvoClaw.AgentLoop.Gemini
