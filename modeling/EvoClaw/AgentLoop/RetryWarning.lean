import EvoClaw.AgentLoop.Claude
import EvoClaw.AgentLoop.Gemini
import EvoClaw.AgentLoop.Openai

-- The warning about calls that fail again and again.
namespace EvoClaw.AgentLoop

open EventSystem

section Spec

-- str() of the arguments, or the text that cannot be parsed as arguments.
inductive Arguments where
  | parsed (text : String)
  | unparsed (text : String)
deriving DecidableEq

-- A call of a tool. `failed` is what happened, whatever the result looks like.
structure Call where
  name : String
  args : Arguments
  result : String
  failed : Bool

-- For each tool and its arguments, the failing calls since the last one that succeeded.
abbrev Streaks := String → Arguments → Nat

def Streaks.after (streaks : Streaks) (call : Call) : Streaks := fun name args =>
  if name = call.name ∧ args = call.args then
    if call.failed then streaks name args + 1 else 0
  else streaks name args

structure Repeated where
  name : String
  args : Arguments
  fails : Nat

def Repeated.warning (call : Repeated) : String := retryText call.name call.fails

-- The call is at least the third in a row that fails.
def repeatedCall (streaks : Streaks) (call : Call) : List Repeated :=
  let fails := streaks.after call call.name call.args
  if call.failed ∧ 3 ≤ fails then [⟨call.name, call.args, fails⟩] else []

def repeatedCalls (streaks : Streaks) : List Call → List Repeated
  | [] => []
  | call :: rest => repeatedCall streaks call ++ repeatedCalls (streaks.after call) rest

-- One warning for a tool and its arguments, with the last count.
def due : List Repeated → List Repeated
  | [] => []
  | call :: rest =>
      if ∃ later ∈ rest, later.name = call.name ∧ later.args = call.args then due rest
      else call :: due rest

variable (patterns : Patterns)

-- The call can be recognised: a failure by its result, a success by its result if there is
-- something to reset, and no other arguments with the same hash are counted.
structure Seen (streaks : Streaks) (call : Call) (args : String) : Prop where
  failure : isFailure call.result = call.failed
  success : call.failed = false →
    isSuccess call.result = true ∨ streaks call.name (.parsed args) = 0
  alone : ∀ other, other ≠ args →
    patterns.hash (String.ofList (other.toList.take 200)) =
      patterns.hash (String.ofList (args.toList.take 200)) → streaks call.name (.parsed other) = 0

-- A call whose arguments cannot be parsed is not counted, so that it must not be one to warn about.
def Recognised (streaks : Streaks) (call : Call) : Prop :=
  match call.args with
  | .parsed args => Seen patterns streaks call args
  | .unparsed _ => repeatedCall streaks call = []

def AllRecognised (streaks : Streaks) : List Call → Prop
  | [] => True
  | call :: rest =>
      Recognised patterns streaks call ∧ AllRecognised (streaks.after call) rest

-- A turn that the counters see as it is, with one tool and its arguments to warn about at most.
structure Visible (streaks : Streaks) (calls : List Call) : Prop where
  recognised : AllRecognised patterns streaks calls
  single : ∀ first ∈ repeatedCalls streaks calls, ∀ other ∈ repeatedCalls streaks calls,
    first.name = other.name ∧ first.args = other.args

end Spec

section Counters

variable {patterns : Patterns} {streaks : Streaks} {call : Call} {counters : Counters}
  {repeated : List Repeated} {text : String}

abbrev failKey (patterns : Patterns) (name args : String) : String × Int :=
  (name, patterns.hash (String.ofList (args.toList.take 200)))

-- The counters hold the streaks that are under way, and nothing else. What cannot be parsed is
-- not counted.
structure Counted (patterns : Patterns) (streaks : Streaks)
    (toolFails : List ((String × Int) × Nat)) : Prop where
  counted : ∀ name args, 0 < streaks name (.parsed args) →
    toolFails.lookup (failKey patterns name args) = some (streaks name (.parsed args))
  real : ∀ key fails, toolFails.lookup key = some fails →
    ∃ args, failKey patterns key.1 args = key ∧ streaks key.1 (.parsed args) = fails ∧ 0 < fails

-- The counters within a turn that has made the calls of `repeated`.
structure Tracks (patterns : Patterns) (streaks : Streaks) (repeated : List Repeated)
    (counters : Counters) : Prop where
  counted : Counted patterns streaks counters.toolFails
  warning : counters.retryWarning = (repeated.getLast?.map Repeated.warning).getD ""

theorem lookup_others (entries : List ((String × Int) × Nat)) (key other : String × Int) :
    (entries.filter fun entry => entry.1 ≠ key).lookup other =
      if other = key then none else entries.lookup other := by
  induction entries with
  | nil => simp
  | cons entry rest ih =>
      obtain ⟨held, value⟩ := entry
      by_cases hheld : held = key
      · rw [List.filter_cons_of_neg (by simpa using hheld), ih, List.lookup_cons]
        split
        · rfl
        · next hother => rw [beq_false_of_ne (fun h => hother (h.trans hheld))]
      · rw [List.filter_cons_of_pos (by simpa using hheld), List.lookup_cons, List.lookup_cons, ih]
        by_cases hother : other = held
        · subst hother
          simp [hheld]
        · rw [beq_false_of_ne hother]

-- What a call is counted as before it is made.
theorem Counted.count (h : Counted patterns streaks counters.toolFails)
    (hcall : Seen patterns streaks call text) :
    (counters.toolFails.lookup (failKey patterns call.name text)).getD 0 =
      streaks call.name (.parsed text) := by
  cases hfound : counters.toolFails.lookup (failKey patterns call.name text) with
  | none =>
      by_contra hne
      have hcounted := h.counted call.name text (Nat.pos_of_ne_zero (Ne.symm hne))
      rw [hfound] at hcounted
      cases hcounted
  | some fails =>
      obtain ⟨args, hkey, hfails, hpos⟩ := h.real _ _ hfound
      by_cases hargs : args = text
      · rw [← hfails, hargs]
        rfl
      · have hzero := hcall.alone args hargs (congrArg Prod.snd hkey)
        rw [hzero] at hfails
        omega

theorem after_self (streaks : Streaks) (call : Call) :
    streaks.after call call.name call.args =
      if call.failed then streaks call.name call.args + 1 else 0 :=
  if_pos ⟨rfl, rfl⟩

theorem after_other {name : String} {args : Arguments}
    (h : ¬(name = call.name ∧ args = call.args)) :
    streaks.after call name args = streaks name args := if_neg h

-- The entry of the call is replaced by its new count.
theorem Counted.after {toolFails : List ((String × Int) × Nat)}
    (h : Counted patterns streaks toolFails) (hargs : call.args = .parsed text)
    (hcall : Seen patterns streaks call text) {entries : List ((String × Int) × Nat)}
    (hother : ∀ key, key ≠ failKey patterns call.name text →
      entries.lookup key = toolFails.lookup key)
    (hself : entries.lookup (failKey patterns call.name text) =
      if streaks.after call call.name (.parsed text) = 0 then none
      else some (streaks.after call call.name (.parsed text))) :
    Counted patterns (streaks.after call) entries := by
  refine ⟨fun name args hpos => ?_, fun key fails hfound => ?_⟩
  · by_cases hsame : name = call.name ∧ args = text
    · obtain ⟨rfl, rfl⟩ := hsame
      rw [hself, if_neg (Nat.pos_iff_ne_zero.mp hpos)]
    · have hnot : ¬(name = call.name ∧ Arguments.parsed args = call.args) := by
        rw [hargs, Arguments.parsed.injEq]
        exact hsame
      rw [after_other hnot] at hpos ⊢
      rw [hother, h.counted name args hpos]
      intro hkey
      -- other arguments with this key are not counted
      have hname : name = call.name := congrArg Prod.fst hkey
      subst hname
      have hne : args ≠ text := fun heq => hsame ⟨rfl, heq⟩
      rw [hcall.alone args hne (congrArg Prod.snd hkey)] at hpos
      omega
  · by_cases hkey : key = failKey patterns call.name text
    · subst hkey
      rw [hself] at hfound
      split at hfound
      · cases hfound
      · next hne =>
          cases hfound
          exact ⟨text, rfl, rfl, Nat.pos_of_ne_zero hne⟩
    · rw [hother key hkey] at hfound
      obtain ⟨args, heq, hfails, hpos⟩ := h.real key fails hfound
      refine ⟨args, heq, ?_, hpos⟩
      rw [after_other, hfails]
      rw [hargs, Arguments.parsed.injEq]
      rintro ⟨hname, rfl⟩
      exact hkey (by rw [← heq, hname])

-- A call that is not counted leaves the counters as they are.
theorem Tracks.unparsed (h : Tracks patterns streaks repeated counters)
    (hargs : call.args = .unparsed text) (hcall : Recognised patterns streaks call) :
    Tracks patterns (streaks.after call) (repeated ++ repeatedCall streaks call) counters := by
  simp only [Recognised, hargs] at hcall
  have hkeeps (name args : String) :
      streaks.after call name (.parsed args) = streaks name (.parsed args) := by
    refine after_other fun hsame => ?_
    rw [hargs] at hsame
    cases hsame.2
  refine ⟨⟨fun name args hpos => ?_, fun key fails hfound => ?_⟩, ?_⟩
  · rw [hkeeps] at hpos ⊢
    exact h.counted.counted name args hpos
  · obtain ⟨args, hkey, hfails, hpos⟩ := h.counted.real key fails hfound
    exact ⟨args, hkey, (hkeeps key.1 args).trans hfails, hpos⟩
  · rw [hcall, List.append_nil]
    exact h.warning

theorem Tracks.countFailure (h : Tracks patterns streaks repeated counters)
    (hargs : call.args = .parsed text) (hcall : Recognised patterns streaks call) :
    Tracks patterns (streaks.after call) (repeated ++ repeatedCall streaks call)
      (counters.countFailure patterns call.name text call.result) := by
  simp only [Recognised, hargs] at hcall
  have hcount := h.counted.count hcall
  have hself := after_self streaks call
  rw [hargs] at hself
  unfold Counters.countFailure repeatedCall
  dsimp only
  rw [hargs, hself]
  cases hfailed : call.failed with
  | true =>
      rw [if_pos (hcall.failure.trans hfailed), hcount]
      rw [hfailed] at hself
      constructor
      · refine h.counted.after hargs hcall (fun key hkey => ?_) ?_
        · rw [List.lookup_cons, beq_false_of_ne hkey, lookup_others, if_neg hkey]
        · rw [List.lookup_cons_self, hself, if_pos rfl, if_neg (Nat.succ_ne_zero _)]
      · by_cases hthree : 3 ≤ streaks call.name (.parsed text) + 1
        · have hmax : MAX_CONSECUTIVE_TOOL_FAILS ≤ streaks call.name (.parsed text) + 1 := hthree
          rw [if_pos hmax, if_pos rfl, if_pos ⟨rfl, hthree⟩, List.getLast?_concat]
          rfl
        · have hmax : ¬MAX_CONSECUTIVE_TOOL_FAILS ≤ streaks call.name (.parsed text) + 1 := hthree
          rw [if_neg hmax, if_pos rfl, if_neg fun hboth => hthree hboth.2, List.append_nil]
          exact h.warning
  | false =>
      have hnot : ¬isFailure call.result = true := by
        rw [hcall.failure, hfailed]
        exact Bool.false_ne_true
      rw [if_neg hnot, if_neg fun hboth : false = true ∧ _ => Bool.false_ne_true hboth.1,
        List.append_nil]
      have hzero : streaks.after call call.name (.parsed text) = 0 := by
        rw [hself, hfailed]
        rfl
      split
      · refine ⟨h.counted.after hargs hcall (fun key hkey => ?_) ?_, h.warning⟩
        · exact (lookup_others _ _ _).trans (if_neg hkey)
        · rw [hzero, if_pos rfl]
          exact (lookup_others _ _ _).trans (if_pos rfl)
      · next hunmarked =>
          -- nothing is counted that the success could reset
          have hstreak := (hcall.success hfailed).resolve_left hunmarked
          refine ⟨h.counted.after hargs hcall (fun key hkey => rfl) ?_, h.warning⟩
          rw [hzero, if_pos rfl]
          cases hfound : counters.toolFails.lookup (failKey patterns call.name text) with
          | none => rfl
          | some fails =>
              obtain ⟨args, hkey, hfails, hpos⟩ := h.counted.real _ _ hfound
              rw [hfound, hstreak] at hcount
              rw [Option.getD_some] at hcount
              omega

end Counters

section Turn

variable {patterns : Patterns} {streaks : Streaks} {counters other : Counters}
  {repeated : List Repeated} {calls : List Call}

theorem Tracks.congr (h : Tracks patterns streaks repeated counters)
    (hfails : other.toolFails = counters.toolFails)
    (hwarning : other.retryWarning = counters.retryWarning) :
    Tracks patterns streaks repeated other := by
  refine ⟨?_, ?_⟩
  · rw [hfails]
    exact h.counted
  · rw [hwarning, h.warning]

theorem Tracks.remembered (h : Tracks patterns streaks repeated counters) (written : Bool) :
    Tracks patterns streaks repeated { counters with memoryWritten := written } :=
  h.congr rfl rfl

-- The warning has been sent.
theorem Tracks.sent (h : Tracks patterns streaks repeated counters) :
    Tracks patterns streaks [] { counters with retryWarning := "" } :=
  ⟨h.counted, rfl⟩

theorem retryText_ne_empty (name : String) (fails : Nat) : retryText name fails ≠ "" := by
  unfold retryText
  simp only [Ne, String.append_eq_empty_iff, not_and]
  intro h
  exact absurd h.1.1.1.1 (by decide)

theorem due_of_single
    (hsingle : ∀ first ∈ repeated, ∀ other ∈ repeated,
      first.name = other.name ∧ first.args = other.args) :
    due repeated = repeated.getLast?.toList := by
  induction repeated with
  | nil => rfl
  | cons call rest ih =>
      have hrest := ih fun first hfirst other hother =>
        hsingle first (List.mem_cons_of_mem _ hfirst) other (List.mem_cons_of_mem _ hother)
      cases rest with
      | nil => rfl
      | cons next rest =>
          have hlater : ∃ later ∈ next :: rest, later.name = call.name ∧ later.args = call.args :=
            ⟨next, List.mem_cons_self,
              hsingle next (List.mem_cons_of_mem _ List.mem_cons_self) call List.mem_cons_self⟩
          rw [due, if_pos hlater, hrest, List.getLast?_cons_cons]

-- The one warning that the loop keeps is the one that is due.
theorem Tracks.warnings {α : Type} (h : Tracks patterns streaks repeated counters)
    (hsingle : ∀ first ∈ repeated, ∀ other ∈ repeated,
      first.name = other.name ∧ first.args = other.args) (message : String → α) :
    (if counters.retryWarning ≠ "" then [message counters.retryWarning] else []) =
      ((due repeated).map Repeated.warning).map message := by
  rw [due_of_single hsingle, h.warning]
  cases repeated.getLast? with
  | none => rfl
  | some call => exact if_pos (retryText_ne_empty _ _)

theorem milestone_counts (names : List String) (n maxIter : Nat) :
    (counters.milestone names n maxIter).1.toolFails = counters.toolFails ∧
      (counters.milestone names n maxIter).1.retryWarning = counters.retryWarning := by
  unfold Counters.milestone
  dsimp only
  repeat' split
  all_goals exact ⟨rfl, rfl⟩

theorem penultimate_counts (n maxIter : Nat) :
    (counters.penultimate n maxIter).1.toolFails = counters.toolFails ∧
      (counters.penultimate n maxIter).1.retryWarning = counters.retryWarning := by
  unfold Counters.penultimate
  dsimp only
  split <;> exact ⟨rfl, rfl⟩

end Turn

namespace Openai

variable (env : Env)

-- What cannot be parsed is not executed, and its result is the error.
def executed (outcome : Nat → Outcome) (failed : Nat → Bool) : List ToolCall → List Call
  | [] => []
  | call :: rest =>
      let later := executed (fun i => outcome (i + 1)) (fun i => failed (i + 1)) rest
      match env.parseArgs call.arguments with
      | .error error =>
          ⟨call.name, .unparsed call.arguments, "Error: Failed to parse tool arguments: " ++ error,
            true⟩ :: later
      | .ok args => ⟨call.name, .parsed args, truncateResult (outcome 0).text, failed 0⟩ :: later

def calls (failed : Nat → Bool) : Event → List Call
  | .request => []
  | .reply reply => executed env reply.outcome failed reply.toolCalls

-- The warnings that a turn adds to the history, behind its results and reminders.
def Injects (state : State) (event : Event) (next : State) (warnings : List String) : Prop :=
  match event with
  | .request => warnings = []
  | .reply reply =>
      if reply.toolCalls = [] then warnings = []
      else
        let enforced := enforce env state reply.toolCalls
        next.history = trimToCount (state.history ++ [.assistant reply.content reply.toolCalls] ++
          ((runTools env enforced.1 reply.outcome reply.toolCalls).2 ++ enforced.2 ++
            warnings.map Message.user))

variable {env} {state next : State} {streaks : Streaks} {repeated : List Repeated}
  {counters : Counters}

theorem tracks_runTools (calls : List ToolCall) (outcome : Nat → Outcome) (failed : Nat → Bool)
    (h : Tracks env.toPatterns streaks repeated counters)
    (hcalls : AllRecognised env.toPatterns streaks (executed env outcome failed calls)) :
    Tracks env.toPatterns ((executed env outcome failed calls).foldl Streaks.after streaks)
      (repeated ++ repeatedCalls streaks (executed env outcome failed calls))
      (runTools env counters outcome calls).1 := by
  induction calls generalizing streaks repeated counters outcome failed with
  | nil =>
      rw [executed, repeatedCalls, List.append_nil]
      exact h
  | cons call rest ih =>
      unfold runTools runTool
      unfold executed at hcalls ⊢
      cases hparse : env.parseArgs call.arguments with
      | error error =>
          rw [hparse] at hcalls
          have hrest := ih _ _ (h.unparsed rfl hcalls.1) hcalls.2
          rw [List.append_assoc] at hrest
          exact hrest
      | ok args =>
          rw [hparse] at hcalls
          have hrest := ih _ _ (h.countFailure rfl hcalls.1) hcalls.2
          rw [List.append_assoc] at hrest
          exact hrest

theorem tracks_enforce (calls : List ToolCall)
    (h : Tracks env.toPatterns streaks repeated state.toCounters) :
    Tracks env.toPatterns streaks repeated (enforce env state calls).1 := by
  obtain ⟨hfails, hwarning⟩ := @milestone_counts state.toCounters
    (calls.map ToolCall.name) state.turn env.maxIter
  obtain ⟨hfails', hwarning'⟩ := @penultimate_counts { (state.toCounters.milestone
    (calls.map ToolCall.name) state.turn env.maxIter).1 with
      memoryWritten := (state.toCounters.milestone
        (calls.map ToolCall.name) state.turn env.maxIter).1.memoryWritten ∨
        calls.any fun call => writesMemory call.name call.arguments } state.turn env.maxIter
  exact h.congr (hfails'.trans hfails) (hwarning'.trans hwarning)

theorem textTurn_counts {reply : Reply} (h : textTurn env state reply = some next) :
    next.toolFails = state.toolFails ∧ next.retryWarning = state.retryWarning := by
  unfold textTurn at h
  dsimp only at h
  split at h
  · cases h
  · split at h
    · obtain ⟨outputs, -, hnext⟩ := Option.bind_eq_some_iff.mp h
      cases hnext
      exact ⟨rfl, rfl⟩
    · split at h
      · cases h
        exact ⟨rfl, rfl⟩
      · split at h
        · cases h
          exact ⟨rfl, rfl⟩
        · cases h

theorem request_counts :
    (request env state).toolFails = state.toolFails ∧
      (request env state).retryWarning = state.retryWarning := by
  unfold request forceTool
  dsimp only
  split <;> exact ⟨rfl, rfl⟩

theorem toolTurn_history (reply : Reply) :
    (toolTurn env state reply).history = trimToCount (state.history ++
      ((runTools env (enforce env state reply.toolCalls).1 reply.outcome reply.toolCalls).2 ++
        (enforce env state reply.toolCalls).2 ++
        if (runTools env (enforce env state reply.toolCalls).1 reply.outcome
            reply.toolCalls).1.retryWarning ≠ "" then
          [.user (runTools env (enforce env state reply.toolCalls).1 reply.outcome
            reply.toolCalls).1.retryWarning]
        else [])) := rfl

theorem tracks_step {event : Event} {failed : Nat → Bool}
    (h : Tracks env.toPatterns streaks [] state.toCounters)
    (hvisible : Visible env.toPatterns streaks (calls env failed event))
    (hstep : step env state event = some next) :
    Tracks env.toPatterns ((calls env failed event).foldl Streaks.after streaks) []
        next.toCounters ∧
      Injects env state event next
        ((due (repeatedCalls streaks (calls env failed event))).map Repeated.warning) := by
  cases event with
  | request =>
      dsimp only [step] at hstep
      split at hstep
      · cases hstep
        exact ⟨h.congr request_counts.1 request_counts.2, rfl⟩
      · cases hstep
  | reply reply =>
      dsimp only [step] at hstep
      split at hstep
      · unfold respond at hstep
        dsimp only at hstep
        split at hstep
        · cases hstep
        · split at hstep
          · next hnone =>
              obtain ⟨hfails, hwarning⟩ := textTurn_counts hstep
              have hempty : calls env failed (.reply reply) = [] := by
                show executed env reply.outcome failed reply.toolCalls = []
                rw [hnone]
                rfl
              rw [hempty]
              refine ⟨h.congr hfails hwarning, ?_⟩
              dsimp only [Injects]
              rw [if_pos hnone]
              rfl
          · next hcalls =>
              cases hstep
              have hturn := tracks_runTools reply.toolCalls reply.outcome failed
                (tracks_enforce reply.toolCalls h) hvisible.recognised
              have hwarnings := hturn.warnings hvisible.single Message.user
              refine ⟨hturn.sent, ?_⟩
              dsimp only [Injects]
              rw [if_neg hcalls, toolTurn_history]
              exact congrArg (fun warnings => trimToCount (_ ++ (_ ++ _ ++ warnings))) hwarnings
      · cases hstep

end Openai

namespace Claude

variable (env : Env)

def executed (outcome : Nat → Outcome) (failed : Nat → Bool) :
    List (String × String × String) → List Call
  | [] => []
  | (_, name, input) :: rest =>
      ⟨name, .parsed input, truncateResult (outcome 0).text, failed 0⟩ ::
        executed (fun i => outcome (i + 1)) (fun i => failed (i + 1)) rest

def calls (failed : Nat → Bool) : Event → List Call
  | .request => []
  | .reply reply => executed reply.outcome failed (toolUses reply.content)

-- The reminders of the turn before the last one follow the trim.
def Injects (state : State) (event : Event) (next : State) (warnings : List String) : Prop :=
  match event with
  | .request => warnings = []
  | .reply reply =>
      let uses := toolUses reply.content
      if uses = [] then warnings = []
      else
        let ran := runTools env state.toCounters reply.outcome uses
        let enforced := ran.1.milestone (uses.map fun use => use.2.1) state.turn env.maxIter
        next.messages = trimToCount (state.messages ++ [.assistant reply.content] ++
          ([.results ran.2] ++ enforced.2.toList.map (fun m => .user (milestoneText m)) ++
            warnings.map Message.user)) ++
          ({ enforced.1 with retryWarning := "" }.penultimate
            state.turn env.maxIter).2.map Message.user

variable {env} {state next : State} {streaks : Streaks} {repeated : List Repeated}
  {counters : Counters}

theorem tracks_runTools (uses : List (String × String × String)) (outcome : Nat → Outcome)
    (failed : Nat → Bool) (h : Tracks env.toPatterns streaks repeated counters)
    (hcalls : AllRecognised env.toPatterns streaks (executed outcome failed uses)) :
    Tracks env.toPatterns ((executed outcome failed uses).foldl Streaks.after streaks)
      (repeated ++ repeatedCalls streaks (executed outcome failed uses))
      (runTools env counters outcome uses).1 := by
  induction uses generalizing streaks repeated counters outcome failed with
  | nil =>
      rw [executed, repeatedCalls, List.append_nil]
      exact h
  | cons use rest ih =>
      obtain ⟨id, name, input⟩ := use
      unfold runTools
      unfold executed at hcalls ⊢
      have hcall := h.countFailure rfl hcalls.1
      have hmemory := hcall.remembered ((counters.countFailure env.toPatterns name input
        (truncateResult (outcome 0).text)).memoryWritten ∨ writesMemory name input)
      have hrest := ih _ _ hmemory hcalls.2
      rw [List.append_assoc] at hrest
      exact hrest

theorem endTurn_counts {reply : Reply} (h : endTurn env state reply = some next) :
    next.toolFails = state.toolFails ∧ next.retryWarning = state.retryWarning := by
  unfold endTurn at h
  dsimp only at h
  split at h
  · cases h
    exact ⟨rfl, rfl⟩
  · split at h
    · cases h
      exact ⟨rfl, rfl⟩
    · cases h

section ToolTurn

variable (env) (state) (reply : Reply)

-- The counters behind the calls of a reply, and their results.
def ran : Counters × List Block :=
  runTools env state.toCounters reply.outcome (toolUses reply.content)

def enforced : Counters × Option Milestone :=
  (ran env state reply).1.milestone ((toolUses reply.content).map fun use => use.2.1) state.turn
    env.maxIter

def reminded : Counters × List String :=
  { (enforced env state reply).1 with retryWarning := "" }.penultimate state.turn env.maxIter

theorem toCounters_toolTurn :
    (toolTurn env state reply).toCounters = (reminded env state reply).1 := rfl

theorem messages_toolTurn :
    (toolTurn env state reply).messages =
      trimToCount (state.messages ++ ([.results (ran env state reply).2] ++
        (enforced env state reply).2.toList.map (fun m => .user (milestoneText m)) ++
        if (enforced env state reply).1.retryWarning ≠ "" then
          [.user (enforced env state reply).1.retryWarning] else [])) ++
        (reminded env state reply).2.map Message.user := rfl

end ToolTurn

theorem tracks_enforced {reply : Reply} {failed : Nat → Bool}
    (h : Tracks env.toPatterns streaks [] state.toCounters)
    (hcalls : AllRecognised env.toPatterns streaks (calls failed (.reply reply))) :
    Tracks env.toPatterns ((calls failed (.reply reply)).foldl Streaks.after streaks)
      (repeatedCalls streaks (calls failed (.reply reply))) (enforced env state reply).1 := by
  have hran := tracks_runTools (toolUses reply.content) reply.outcome failed h hcalls
  obtain ⟨hfails, hwarning⟩ := @milestone_counts (ran env state reply).1
    ((toolUses reply.content).map fun use => use.2.1) state.turn env.maxIter
  exact hran.congr hfails hwarning

theorem tracks_toolTurn {reply : Reply} {failed : Nat → Bool}
    (h : Tracks env.toPatterns streaks [] state.toCounters)
    (hvisible : Visible env.toPatterns streaks (calls failed (.reply reply))) :
    Tracks env.toPatterns ((calls failed (.reply reply)).foldl Streaks.after streaks) []
        (toolTurn env state reply).toCounters ∧
      (toolTurn env state reply).messages =
        trimToCount (state.messages ++ ([.results (ran env state reply).2] ++
          (enforced env state reply).2.toList.map (fun m => .user (milestoneText m)) ++
          ((due (repeatedCalls streaks (calls failed (.reply reply)))).map
            Repeated.warning).map Message.user)) ++
          (reminded env state reply).2.map Message.user := by
  have hturn := tracks_enforced h hvisible.recognised
  obtain ⟨hfails, hwarning⟩ := @penultimate_counts
    { (enforced env state reply).1 with retryWarning := "" } state.turn env.maxIter
  rw [toCounters_toolTurn, messages_toolTurn, hturn.warnings hvisible.single Message.user]
  exact ⟨hturn.sent.congr hfails hwarning, rfl⟩

theorem tracks_step {event : Event} {failed : Nat → Bool}
    (h : Tracks env.toPatterns streaks [] state.toCounters)
    (hvisible : Visible env.toPatterns streaks (calls failed event))
    (hstep : step env state event = some next) :
    Tracks env.toPatterns ((calls failed event).foldl Streaks.after streaks) []
        next.toCounters ∧
      Injects env state event next
        ((due (repeatedCalls streaks (calls failed event))).map Repeated.warning) := by
  cases event with
  | request =>
      dsimp only [step] at hstep
      split at hstep
      · cases hstep
        exact ⟨h.congr rfl rfl, rfl⟩
      · cases hstep
  | reply reply =>
      dsimp only [step] at hstep
      split at hstep
      · unfold respond at hstep
        dsimp only at hstep
        split at hstep
        · next hend =>
            obtain ⟨hfails, hwarning⟩ := endTurn_counts hstep
            have hnone := reply.end_turn hend
            have hempty : calls failed (.reply reply) = [] := by
              show executed reply.outcome failed (toolUses reply.content) = []
              rw [hnone]
              rfl
            rw [hempty]
            refine ⟨h.congr hfails hwarning, ?_⟩
            dsimp only [Injects]
            rw [if_pos hnone]
            rfl
        · split at hstep
          · cases hstep
          · split at hstep
            · cases hstep
            · next huses =>
                cases hstep
                have hstart : Tracks env.toPatterns streaks [] ({ state with
                    messages := state.messages ++ [.assistant reply.content] } :
                      State).toCounters := h
                obtain ⟨htracks, hmessages⟩ := tracks_toolTurn hstart hvisible
                refine ⟨htracks, ?_⟩
                dsimp only [Injects]
                rw [if_neg huses]
                exact hmessages
      · cases hstep

end Claude

namespace Gemini

variable (env : Env)

def executed (outcome : Nat → Outcome) (failed : Nat → Bool) : List (String × String) → List Call
  | [] => []
  | (name, args) :: rest =>
      ⟨name, .parsed args, truncateResult (outcome 0).text, failed 0⟩ ::
        executed (fun i => outcome (i + 1)) (fun i => failed (i + 1)) rest

def calls (failed : Nat → Bool) : Event → List Call
  | .request => []
  | .reply reply => executed reply.outcome failed (functionCalls reply.parts)

-- Warnings go into the message of a milestone, if there is one.
def warningMessages (warnings : List String) (milestone : Option Milestone) : List Content :=
  match milestone with
  | none => warnings.map Content.user
  | some m =>
      [{ role := "user"
         parts := .text (milestoneText m) :: warnings.map fun w => .text ("\n\n" ++ w) }]

def Injects (state : State) (event : Event) (next : State) (warnings : List String) : Prop :=
  match event with
  | .request => warnings = []
  | .reply reply =>
      let calls := functionCalls reply.parts
      if calls = [] then warnings = []
      else
        let ran := runTools env state.toCounters state.completionSendCount reply.outcome calls
        let enforced := ran.1.milestone (calls.map Prod.fst) state.turn env.maxIter
        next.history = trimToCount (state.history ++ [{ role := "model", parts := reply.parts }] ++
          ({ role := "user", parts := ran.2.2 } :: warningMessages warnings enforced.2 ++
            ({ enforced.1 with retryWarning := "" }.penultimate
              state.turn env.maxIter).2.map Content.user))

variable {env} {state next : State} {streaks : Streaks} {repeated : List Repeated}
  {counters : Counters}

theorem withWarning_eq (warning : String) (milestone : Option Milestone) :
    withWarning warning milestone =
      warningMessages (if warning ≠ "" then [warning] else []) milestone := by
  unfold withWarning warningMessages
  by_cases hwarning : warning = ""
  · cases milestone <;> simp [hwarning, Content.user]
  · cases milestone <;> simp [hwarning]

theorem tracks_runTools (uses : List (String × String)) (sent : Nat) (outcome : Nat → Outcome)
    (failed : Nat → Bool) (h : Tracks env.toPatterns streaks repeated counters)
    (hcalls : AllRecognised env.toPatterns streaks (executed outcome failed uses)) :
    Tracks env.toPatterns ((executed outcome failed uses).foldl Streaks.after streaks)
      (repeated ++ repeatedCalls streaks (executed outcome failed uses))
      (runTools env counters sent outcome uses).1 := by
  induction uses generalizing streaks repeated counters sent outcome failed with
  | nil =>
      rw [executed, repeatedCalls, List.append_nil]
      exact h
  | cons use rest ih =>
      obtain ⟨name, args⟩ := use
      unfold runTools
      unfold executed at hcalls ⊢
      have hcall := h.countFailure rfl hcalls.1
      have hmemory := hcall.remembered ((counters.countFailure env.toPatterns name args
        (truncateResult (outcome 0).text)).memoryWritten ∨ writesMemory name args)
      have hrest := ih (if name = SEND_MESSAGE ∧ env.completionPhrase args then sent + 1 else sent)
        _ _ hmemory hcalls.2
      rw [List.append_assoc] at hrest
      exact hrest

theorem textTurn_counts {reply : Reply} (h : textTurn env state reply = some next) :
    next.toolFails = state.toolFails ∧ next.retryWarning = state.retryWarning := by
  unfold textTurn at h
  dsimp only at h
  split at h
  · cases h
    exact ⟨rfl, rfl⟩
  · split at h
    · cases h
      exact ⟨rfl, rfl⟩
    · cases h

section ToolTurn

variable (env) (state) (reply : Reply)

-- The counters behind the calls of a reply, the texts sent and the results.
def ran : Counters × Nat × List Part :=
  runTools env state.toCounters state.completionSendCount reply.outcome
    (functionCalls reply.parts)

def enforced : Counters × Option Milestone :=
  (ran env state reply).1.milestone ((functionCalls reply.parts).map Prod.fst) state.turn
    env.maxIter

def reminded : Counters × List String :=
  { (enforced env state reply).1 with retryWarning := "" }.penultimate state.turn env.maxIter

theorem toolTurn_eq : toolTurn env state reply =
    if 2 ≤ (ran env state reply).2.1 then none
    else some (nextTurn { state with
      toCounters := (reminded env state reply).1
      noToolTurns := 0
      completionSendCount := (ran env state reply).2.1
      history := trimToCount (state.history ++
        ({ role := "user", parts := (ran env state reply).2.2 } ::
          withWarning (enforced env state reply).1.retryWarning (enforced env state reply).2 ++
          (reminded env state reply).2.map Content.user)) }) := rfl

end ToolTurn

theorem tracks_enforced {reply : Reply} {failed : Nat → Bool}
    (h : Tracks env.toPatterns streaks [] state.toCounters)
    (hcalls : AllRecognised env.toPatterns streaks (calls failed (.reply reply))) :
    Tracks env.toPatterns ((calls failed (.reply reply)).foldl Streaks.after streaks)
      (repeatedCalls streaks (calls failed (.reply reply))) (enforced env state reply).1 := by
  have hran := tracks_runTools (functionCalls reply.parts) state.completionSendCount reply.outcome
    failed h hcalls
  obtain ⟨hfails, hwarning⟩ := @milestone_counts (ran env state reply).1
    ((functionCalls reply.parts).map Prod.fst) state.turn env.maxIter
  exact hran.congr hfails hwarning

theorem tracks_toolTurn {reply : Reply} {failed : Nat → Bool}
    (h : Tracks env.toPatterns streaks [] state.toCounters)
    (hvisible : Visible env.toPatterns streaks (calls failed (.reply reply)))
    (hturn : toolTurn env state reply = some next) :
    Tracks env.toPatterns ((calls failed (.reply reply)).foldl Streaks.after streaks) []
        next.toCounters ∧
      next.history = trimToCount (state.history ++
        ({ role := "user", parts := (ran env state reply).2.2 } ::
          warningMessages ((due (repeatedCalls streaks (calls failed (.reply reply)))).map
            Repeated.warning) (enforced env state reply).2 ++
          (reminded env state reply).2.map Content.user)) := by
  have htracks := tracks_enforced h hvisible.recognised
  have hwarnings := htracks.warnings hvisible.single id
  rw [List.map_id] at hwarnings
  obtain ⟨hfails, hwarning⟩ := @penultimate_counts
    { (enforced env state reply).1 with retryWarning := "" } state.turn env.maxIter
  rw [toolTurn_eq] at hturn
  split at hturn
  · cases hturn
  · rw [Option.some.injEq] at hturn
    subst hturn
    refine ⟨htracks.sent.congr hfails hwarning, ?_⟩
    dsimp only [nextTurn]
    rw [withWarning_eq]
    dsimp only [id] at hwarnings
    rw [hwarnings]

theorem tracks_step {event : Event} {failed : Nat → Bool}
    (h : Tracks env.toPatterns streaks [] state.toCounters)
    (hvisible : Visible env.toPatterns streaks (calls failed event))
    (hstep : step env state event = some next) :
    Tracks env.toPatterns ((calls failed event).foldl Streaks.after streaks) []
        next.toCounters ∧
      Injects env state event next
        ((due (repeatedCalls streaks (calls failed event))).map Repeated.warning) := by
  cases event with
  | request =>
      dsimp only [step] at hstep
      split at hstep
      · cases hstep
        exact ⟨h.congr rfl rfl, rfl⟩
      · cases hstep
  | reply reply =>
      dsimp only [step] at hstep
      split at hstep
      · unfold respond at hstep
        dsimp only at hstep
        split at hstep
        · cases hstep
        · split at hstep
          · next hnone =>
              obtain ⟨hfails, hwarning⟩ := textTurn_counts hstep
              have hempty : calls failed (.reply reply) = [] := by
                show executed reply.outcome failed (functionCalls reply.parts) = []
                rw [hnone]
                rfl
              rw [hempty]
              refine ⟨h.congr hfails hwarning, ?_⟩
              dsimp only [Injects]
              rw [if_pos hnone]
              rfl
          · next hcalls =>
              have hstart : Tracks env.toPatterns streaks [] ({ state with
                  history := state.history ++ [{ role := "model", parts := reply.parts }] }
                    : State).toCounters := h
              obtain ⟨htracks, hhistory⟩ := tracks_toolTurn hstart hvisible hstep
              refine ⟨htracks, ?_⟩
              dsimp only [Injects]
              rw [if_neg hcalls]
              exact hhistory
      · cases hstep

end Gemini

section Runs

inductive Loop where
  | openai (env : Openai.Env)
  | claude (env : Claude.Env)
  | gemini (env : Gemini.Env)

def Loop.State : Loop → Type
  | openai _ => Openai.State
  | claude _ => Claude.State
  | gemini _ => Gemini.State

def Loop.Event : Loop → Type
  | openai _ => Openai.Event
  | claude _ => Claude.Event
  | gemini _ => Gemini.Event

def Loop.patterns : Loop → Patterns
  | openai env => env.toPatterns
  | claude env => env.toPatterns
  | gemini env => env.toPatterns

-- The states that a run begins with.
def Loop.Starts : (loop : Loop) → loop.State → Prop
  | openai _, state => ∃ system user history, state = Openai.start system user history
  | claude _, state => ∃ user history, state = Claude.start user history
  | gemini env, state => ∃ user history, state = Gemini.start env user history

def Loop.step : (loop : Loop) → loop.State → loop.Event → Option loop.State
  | openai env => Openai.step env
  | claude env => Claude.step env
  | gemini env => Gemini.step env

def Loop.calls : (loop : Loop) → (Nat → Bool) → loop.Event → List Call
  | openai env => Openai.calls env
  | claude _ => Claude.calls
  | gemini _ => Gemini.calls

def Loop.Injects : (loop : Loop) → loop.State → loop.Event → loop.State → List String → Prop
  | openai env => Openai.Injects env
  | claude env => Claude.Injects env
  | gemini env => Gemini.Injects env

def Loop.counters : (loop : Loop) → loop.State → Counters
  | openai _ => Openai.State.toCounters
  | claude _ => Claude.State.toCounters
  | gemini _ => Gemini.State.toCounters

variable {loop : Loop}

-- The loop next to the streaks as they are. With a reply comes which of its calls fail.
def Loop.watched (loop : Loop) (state : loop.State × Streaks) (event : loop.Event × (Nat → Bool)) :
    Option (loop.State × Streaks) :=
  (loop.step state.1 event.1).map fun next =>
    (next, (loop.calls event.2 event.1).foldl Streaks.after state.2)

-- A turn injects the warnings that are due, and no other.
def Loop.Warns (loop : Loop) (state : loop.State × Streaks)
    (event : loop.Event × (Nat → Bool)) : Prop :=
  ∀ next, loop.step state.1 event.1 = some next →
    loop.Injects state.1 event.1 next
      ((due (repeatedCalls state.2 (loop.calls event.2 event.1))).map Repeated.warning)

theorem tracks_start {state : loop.State} (h : loop.Starts state) :
    Tracks loop.patterns (fun _ _ => 0) [] (loop.counters state) := by
  have hempty : Counted loop.patterns (fun _ _ => 0) [] :=
    ⟨fun _ _ hpos => absurd hpos (Nat.lt_irrefl 0), fun _ _ hfound => by cases hfound⟩
  cases loop with
  | openai env =>
      obtain ⟨system, user, history, rfl⟩ := h
      exact ⟨hempty, rfl⟩
  | claude env =>
      obtain ⟨user, history, rfl⟩ := h
      exact ⟨hempty, rfl⟩
  | gemini env =>
      obtain ⟨user, history, rfl⟩ := h
      exact ⟨hempty, rfl⟩

theorem tracks_step {state next : loop.State} {streaks : Streaks} {event : loop.Event}
    {failed : Nat → Bool} (h : Tracks loop.patterns streaks [] (loop.counters state))
    (hvisible : Visible loop.patterns streaks (loop.calls failed event))
    (hstep : loop.step state event = some next) :
    Tracks loop.patterns ((loop.calls failed event).foldl Streaks.after streaks) []
        (loop.counters next) ∧
      loop.Injects state event next
        ((due (repeatedCalls streaks (loop.calls failed event))).map Repeated.warning) := by
  cases loop with
  | openai env => exact Openai.tracks_step h hvisible hstep
  | claude env => exact Claude.tracks_step h hvisible hstep
  | gemini env => exact Gemini.tracks_step h hvisible hstep

end Runs

section GrepRuns

-- Nothing matches the patterns, and every text has the same hash.
def grepEnv : Openai.Env where
  fakeStatus _ := false
  actionClaim _ := false
  hash _ := 0
  maxIter := 20
  isQwen := false
  floatText _ := []
  extendedFake _ := false
  codeBlocks _ := []
  gitLogLine _ := false
  bareFile _ := false
  parseArgs args := .ok args

def grepStart : Openai.State := Openai.start "" "find x" []

-- Four calls of one turn, whose third one finds something if `finds` says so.
def grepReply (finds : Bool) : Openai.Reply where
  content := none
  toolCalls := [⟨"1", "Grep", "{}"⟩, ⟨"2", "Grep", "{}"⟩, ⟨"3", "Grep", "{}"⟩, ⟨"4", "Grep", "{}"⟩]
  finishReason := "tool_calls"
  outcome i :=
    if i = 2 ∧ finds then .returned "a.py:1:x" else .returned "Error: grep timed out after 10s"
  distinct := by decide

def grepRun (finds : Bool) : List (Openai.Event × (Nat → Bool)) :=
  [(.request, fun _ => false), (.reply (grepReply finds), fun i => ¬(i = 2 ∧ finds))]

def grepAsked : Openai.State := Openai.request grepEnv grepStart

theorem grepAsked_step : Openai.step grepEnv grepStart .request = some grepAsked := rfl

def grepAnswered (finds : Bool) : Openai.State :=
  Openai.toolTurn grepEnv { grepAsked with
    history := grepAsked.history ++ [.assistant none (grepReply finds).toolCalls] } (grepReply finds)

theorem grepAnswered_step (finds : Bool) :
    Openai.step grepEnv grepAsked (.reply (grepReply finds)) = some (grepAnswered finds) := rfl

end GrepRuns

end EvoClaw.AgentLoop
