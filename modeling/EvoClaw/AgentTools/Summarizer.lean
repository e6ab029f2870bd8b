import EvoClaw.AgentTools.Paging
import EvoClaw.EventSystem.Runs
import EvoClaw.Expiring
import Mathlib.Algebra.Order.Ring.Rat

-- _summarizer.py of the agent runner, and what tool_web_fetch makes of a page with a prompt.
namespace EvoClaw.AgentTools.Summarizer

open AgentTools (WebReply WEB_FETCH_TEXT_LIMIT capNote number pageReply)

-- (url, prompt)
abbrev Key := List Char × List Char

abbrev Cache := List (Key × ℚ × List Char)

def CACHE_TTL_SECS : ℚ := 300

def CACHE_LIMIT : Nat := 100

def EVICTED : Nat := 25

structure Config where
  provider : List Char
  model : List Char
  apiKey : List Char
  baseUrl : List Char
  maxTokens : Int
  timeoutS : ℚ

-- os.environ as it is at the time, str.lower and float().
structure Runtime where
  environ : String → Option (List Char)
  lower : List Char → List Char
  float : List Char → Option ℚ

def Runtime.get (runtime : Runtime) (name : String) : List Char := (runtime.environ name).getD []

def getConfig (runtime : Runtime) : Option Config :=
  let provider := runtime.lower (strip (runtime.get "SUMMARIZER_PROVIDER"))
  let model := strip (runtime.get "SUMMARIZER_MODEL")
  let keyReuse := strip (runtime.get "SUMMARIZER_API_KEY_REUSE")
  let apiKey :=
    if keyReuse = [] then runtime.get "SUMMARIZER_API_KEY"
    else runtime.get (String.ofList keyReuse)
  let maxTokens := (runtime.environ "SUMMARIZER_MAX_TOKENS").getD "1500".toList
  let timeoutS := (runtime.environ "SUMMARIZER_TIMEOUT_S").getD "30".toList
  if provider = [] ∨ model = [] ∨ apiKey = [] then none
  else some {
    provider := provider
    model := model
    apiKey := apiKey
    baseUrl := strip (runtime.get "SUMMARIZER_BASE_URL")
    maxTokens := (intOfText (String.ofList maxTokens)).getD 1500
    timeoutS := (runtime.float timeoutS).getD 30 }

def PROVIDER_ALIASES : List (List Char) :=
  ["openai-compat", "openai", "nim", "groq", "qwen", "gemini", "google", "claude",
    "anthropic"].map String.toList

def DEFAULT_SYSTEM : List Char :=
  ("You are a precise content processor.  Apply the user's prompt to the " ++
    "provided content.  Return ONLY the requested result — no preamble, no " ++
    "meta-commentary, no markdown fences unless the prompt asks for code.").toList

def userPrompt (content prompt : List Char) : List Char :=
  "<content>\n".toList ++ (content ++ ("\n</content>\n\n<task>\n".toList ++
    (prompt ++ "\n</task>".toList)))

-- One use of the model. `complete` is what the provider answers, or none where it raises.
structure Query where
  runtime : Runtime
  complete : Config → List Char → List Char → Option (List Char)
  content : List Char
  prompt : List Char
  asked : ℚ
  answered : ℚ

-- make_client raises for a provider that it does not know.
def Query.ask (query : Query) (config : Config) : Option (List Char) :=
  if PROVIDER_ALIASES.contains (query.runtime.lower config.provider) then
    query.complete config DEFAULT_SYSTEM (userPrompt query.content query.prompt)
  else none

structure Summary where
  result : Option (List Char)
  -- what the model was asked for and answered
  asks : Bool
  answer : Option (List Char)

def summarize (cache : Cache) (query : Query) (cacheKey : Option Key) : Summary × Cache :=
  if query.content = [] then (⟨none, false, none⟩, cache)
  else match getConfig query.runtime with
    | none => (⟨none, false, none⟩, cache)
    | some config =>
        match cacheKey with
        | none => (⟨query.ask config, true, query.ask config⟩, cache)
        | some key =>
            let found := Expiring.lookup CACHE_TTL_SECS query.asked cache key
            match found.1 with
            | some cached => (⟨some cached, false, none⟩, found.2)
            | none =>
                match query.ask config with
                | none => (⟨none, true, none⟩, found.2)
                | some result => (⟨some result, true, some result⟩,
                    Expiring.store CACHE_LIMIT EVICTED query.answered found.2 key result)

-- tool_web_fetch behind the download: a page, and what is asked of it.
structure Fetch where
  url : List Char
  page : List Char
  query : Query
  -- repr(url)
  quoted : List Char
  offset : Option Int
  maxChars : Option Int

def Fetch.text (fetch : Fetch) : List Char := fetch.page.take WEB_FETCH_TEXT_LIMIT

def Fetch.key (fetch : Fetch) : Key := (fetch.url, (strip fetch.query.prompt).take 200)

def Fetch.capped (fetch : Fetch) : Bool := WEB_FETCH_TEXT_LIMIT < fetch.page.length

def Fetch.summaryReply (fetch : Fetch) (summary : List Char) : List Char :=
  summary ++ ("\n\n[summarized: source ".toList ++ (number fetch.text.length ++
    ("chars".toList ++ (capNote fetch.capped " (source 50KB-capped)" ++ (" → ".toList ++
      (number summary.length ++ "chars via summarizer model]".toList))))))

def Fetch.chunk (fetch : Fetch) : List Char :=
  (pageReply fetch.quoted fetch.page fetch.offset fetch.maxChars).text

structure Served where
  fetch : Fetch
  summary : Summary
  reply : List Char

def fetchPage (cache : Cache) (fetch : Fetch) : Served × Cache :=
  if fetch.text = [] ∨ fetch.query.prompt = [] then
    (⟨fetch, ⟨none, false, none⟩, fetch.chunk⟩, cache)
  else
    let done := summarize cache { fetch.query with content := fetch.text } (some fetch.key)
    match done.1.result with
    | some (c :: rest) => (⟨fetch, done.1, fetch.summaryReply (c :: rest)⟩, done.2)
    | _ => (⟨fetch, done.1, fetch.chunk⟩, done.2)

structure State where
  cache : Cache := []
  clock : ℚ := 0
  log : List Served := []

-- One process and one clock, which does not go backwards.
def State.step (state : State) (fetch : Fetch) : Option State :=
  if state.clock ≤ fetch.query.asked ∧ fetch.query.asked ≤ fetch.query.answered then
    let done := fetchPage state.cache fetch
    some ⟨done.2, fetch.query.answered, state.log ++ [done.1]⟩
  else none

-- What the model has answered for each key, and when.
def answers (log : List Served) : List (Key × ℚ × List Char) :=
  log.filterMap fun served =>
    served.summary.answer.map fun answer => (served.fetch.key, served.fetch.query.answered, answer)

-- The answer that a provider gives for the page.
def Fetch.Answers (fetch : Fetch) (summary : List Char) : Prop :=
  ∃ config, getConfig fetch.query.runtime = some config ∧
    fetch.query.complete config DEFAULT_SYSTEM (userPrompt fetch.text fetch.query.prompt) =
      some summary

-- A summary is the answer for this page, or the last one for its URL and prompt, which is fresh.
-- The model is not asked again while such an answer is there and not many others were stored.
structure Served.Sound (before : List Served) (served : Served) : Prop where
  answered : ∀ answer ∈ served.summary.answer, served.fetch.Answers answer
  shown : ∀ summary ∈ served.summary.result, served.summary.answer = some summary ∨
    ∃ time, Expiring.last (answers before) served.fetch.key = some (time, summary) ∧
      served.fetch.query.asked - time ≤ CACHE_TTL_SECS
  asked : served.summary.asks = true → ∀ entry,
    Expiring.last (answers before) served.fetch.key = some entry →
      Expiring.Gone CACHE_LIMIT EVICTED CACHE_TTL_SECS served.fetch.query.asked (answers before)
        served.fetch.key entry.1
  reply : served.reply = served.fetch.chunk ∨ ∃ summary ∈ served.summary.result, summary ≠ [] ∧
    served.reply = served.fetch.summaryReply summary

structure State.Sound (state : State) : Prop where
  small : state.cache.length ≤ CACHE_LIMIT
  log : ∀ before served after, state.log = before ++ served :: after → served.Sound before

structure Inv (state : State) : Prop where
  cache : Expiring.Tracks CACHE_LIMIT EVICTED CACHE_TTL_SECS state.clock (answers state.log)
    state.cache
  sound : ∀ before served after, state.log = before ++ served :: after → served.Sound before

section Steps

variable {state next : State} {cache : Cache} {query : Query} {key : Key} {fetch : Fetch}
  {stored : List (Key × ℚ × List Char)}

variable (query key) in
-- What a use of the model leaves in the cache.
theorem summarize_tracks
    (h : Expiring.Tracks CACHE_LIMIT EVICTED CACHE_TTL_SECS query.asked stored cache)
    (hclock : query.asked ≤ query.answered) :
    Expiring.Tracks CACHE_LIMIT EVICTED CACHE_TTL_SECS query.answered
      (stored ++ ((summarize cache query (some key)).1.answer.map fun answer =>
        (key, query.answered, answer)).toList) (summarize cache query (some key)).2 := by
  have hfound : Expiring.Tracks CACHE_LIMIT EVICTED CACHE_TTL_SECS query.asked stored
      (Expiring.lookup CACHE_TTL_SECS query.asked cache key).2 := h.lookup
  have hlater := hfound.later hclock
  unfold summarize
  split
  · rw [Option.map_none, Option.toList_none, List.append_nil]
    exact h.later hclock
  · cases getConfig query.runtime with
    | none =>
        dsimp only
        rw [Option.map_none, Option.toList_none, List.append_nil]
        exact h.later hclock
    | some config =>
        dsimp only
        split
        · rw [Option.map_none, Option.toList_none, List.append_nil]
          exact hlater
        · split
          · rw [Option.map_none, Option.toList_none, List.append_nil]
            exact hlater
          · exact hlater.store (by decide) (by decide)

variable (query key) in
theorem summarize_sound
    (h : Expiring.Tracks CACHE_LIMIT EVICTED CACHE_TTL_SECS query.asked stored cache) :
    (∀ answer ∈ (summarize cache query (some key)).1.answer,
      ∃ config, getConfig query.runtime = some config ∧ query.ask config = some answer) ∧
    (∀ summary ∈ (summarize cache query (some key)).1.result,
      (summarize cache query (some key)).1.answer = some summary ∨
        ∃ time, Expiring.last stored key = some (time, summary) ∧
          query.asked - time ≤ CACHE_TTL_SECS) ∧
    ((summarize cache query (some key)).1.asks = true → ∀ entry,
      Expiring.last stored key = some entry →
        Expiring.Gone CACHE_LIMIT EVICTED CACHE_TTL_SECS query.asked stored key entry.1) := by
  unfold summarize
  split
  · simp
  · cases hconfig : getConfig query.runtime with
    | none => simp
    | some config =>
        dsimp only
        split
        · next cached hcached =>
            refine ⟨by simp, fun summary hsummary => .inr ?_, fun hasks => Bool.noConfusion hasks⟩
            obtain rfl := Option.some.inj (Option.mem_def.mp hsummary)
            exact h.hit hcached
        · next hmissed =>
            split
            · exact ⟨by simp, by simp, fun _ entry hlast => h.miss hmissed hlast⟩
            · next result hresult =>
                refine ⟨fun answer hanswer => ⟨config, rfl, ?_⟩, fun summary hsummary => .inl hsummary,
                  fun _ entry hlast => h.miss hmissed hlast⟩
                rw [hresult]
                exact hanswer

theorem answers_of_ask {config : Config} {answer : List Char}
    (hconfig : getConfig fetch.query.runtime = some config)
    (hask : ({ fetch.query with content := fetch.text } : Query).ask config = some answer) :
    fetch.Answers answer := by
  rw [Query.ask] at hask
  split at hask
  · exact ⟨config, hconfig, hask⟩
  · cases hask

theorem answers_concat {log : List Served} (served : Served) :
    answers (log ++ [served]) = answers log ++ (served.summary.answer.map fun answer =>
      (served.fetch.key, served.fetch.query.answered, answer)).toList := by
  rw [answers, List.filterMap_append, List.filterMap_cons, List.filterMap_nil]
  cases served.summary.answer <;> rfl

theorem fetchPage_cases (cache : Cache) (fetch : Fetch) :
    (fetchPage cache fetch = (⟨fetch, ⟨none, false, none⟩, fetch.chunk⟩, cache)) ∨
      ∃ reply, fetchPage cache fetch =
          (⟨fetch, (summarize cache { fetch.query with content := fetch.text }
            (some fetch.key)).1, reply⟩,
          (summarize cache { fetch.query with content := fetch.text } (some fetch.key)).2) ∧
        (reply = fetch.chunk ∨ ∃ summary ∈ (summarize cache
          { fetch.query with content := fetch.text } (some fetch.key)).1.result, summary ≠ [] ∧
            reply = fetch.summaryReply summary) := by
  unfold fetchPage
  split
  · exact .inl rfl
  · refine .inr ?_
    dsimp only
    split
    · next c rest hresult =>
        exact ⟨_, rfl, .inr ⟨c :: rest, hresult, List.cons_ne_nil c rest, rfl⟩⟩
    · exact ⟨_, rfl, .inl rfl⟩

-- One page: what the cache makes of it, and what is replied.
theorem fetchPage_sound {log : List Served}
    (h : Expiring.Tracks CACHE_LIMIT EVICTED CACHE_TTL_SECS fetch.query.asked (answers log) cache)
    (hclock : fetch.query.asked ≤ fetch.query.answered) :
    Expiring.Tracks CACHE_LIMIT EVICTED CACHE_TTL_SECS fetch.query.answered
        (answers (log ++ [(fetchPage cache fetch).1])) (fetchPage cache fetch).2 ∧
      (fetchPage cache fetch).1.Sound log := by
  rw [answers_concat]
  rcases fetchPage_cases cache fetch with hplain | ⟨reply, hpage, hreply⟩
  · rw [hplain]
    refine ⟨?_, by simp, by simp, by simp, .inl rfl⟩
    rw [Option.map_none, Option.toList_none, List.append_nil]
    exact h.later hclock
  · rw [hpage]
    obtain ⟨hanswered, hshown, hasked⟩ := summarize_sound
      { fetch.query with content := fetch.text } fetch.key h
    refine ⟨summarize_tracks { fetch.query with content := fetch.text } fetch.key h hclock,
      fun answer hanswer => ?_, hshown, hasked, hreply⟩
    obtain ⟨config, hconfig, hask⟩ := hanswered answer hanswer
    exact answers_of_ask hconfig hask

theorem Inv.step (h : Inv state) (hstep : state.step fetch = some next) : Inv next := by
  rw [State.step] at hstep
  split at hstep
  · next hclock =>
      obtain rfl := Option.some.inj hstep
      obtain ⟨htracks, hsound⟩ := fetchPage_sound (h.cache.later hclock.1) hclock.2
      refine ⟨htracks, fun before served after hsplit => ?_⟩
      rcases after.eq_nil_or_concat with rfl | ⟨after, last, rfl⟩
      · obtain ⟨rfl, hlast⟩ := List.append_inj' hsplit rfl
        obtain rfl := (List.cons.inj hlast).1
        exact hsound
      · rw [List.concat_eq_append, ← List.cons_append, ← List.append_assoc] at hsplit
        exact h.sound before served after (List.append_inj' hsplit rfl).1
  · cases hstep

-- Whatever pages are fetched, whatever the providers answer or fail to answer.
theorem summaries_fresh (fetches : List Fetch) :
    EventSystem.Always State.step State.Sound {} fetches := by
  have hstart : Inv {} := by
    refine ⟨Expiring.tracks_nil _ _ _ _, fun before served after hsplit => ?_⟩
    simp at hsplit
  exact (EventSystem.along_of_forall (fun _ _ => trivial) _ _ :
    EventSystem.Along State.step (fun _ _ => True) {} fetches).always Inv
      (fun _ _ _ hinv _ hstep => hinv.step hstep)
      (fun _ hinv => ⟨hinv.cache.size, hinv.sound⟩) hstart

end Steps

end EvoClaw.AgentTools.Summarizer
