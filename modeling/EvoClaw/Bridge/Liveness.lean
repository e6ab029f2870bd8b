import EvoClaw.Bridge.Model

namespace EvoClaw.Bridge

open EventSystem State

variable {token agentId other : String} {state next : State} {websocket : Nat}

def latestIn (isOpen : Nat → Bool) (agentId : String) : List (String × Nat) → Option Nat
  | [] => none
  | beat :: earlier =>
      if beat.1 = agentId ∧ isOpen beat.2 then some beat.2 else latestIn isOpen agentId earlier

-- The open connection with the latest heartbeat of the agent.
def latestOpen (state : State) (agentId : String) : Option Nat :=
  latestIn state.isOpen agentId state.heartbeats

-- The agent's entry is its open connection with the latest heartbeat, if there is one.
def Live (state : State) : Prop :=
  ∀ agentId websocket, latestOpen state agentId = some websocket →
    state.connections.lookup agentId = some websocket

-- An open connection other than `websocket` has sent a heartbeat for the agent.
def HeardElsewhere (state : State) (agentId : String) (websocket : Nat) : Prop :=
  ∃ rival, rival ≠ websocket ∧ (agentId, rival) ∈ state.heartbeats ∧ state.isOpen rival = true

-- A connection goes while its heartbeat is the latest only if the agent has no other one, is
-- cleaned up only when no open connection has sent a heartbeat for its agent, and once it is
-- closed no heartbeat of it is handled while there is such a connection.
def LeavesAlone (token : String) (state : State) : Event → Prop
  | .connects => True
  | .receives websocket message => ∀ connection agentId,
      state.handlers websocket = some connection → connection.isOpen = false →
      connection.beats token message = some agentId → ¬ HeardElsewhere state agentId websocket
  | .closes websocket | .fails websocket => ∀ agentId, latestOpen state agentId = some websocket →
      ¬ HeardElsewhere state agentId websocket
  | .cleans websocket => ∀ connection agentId, state.handlers websocket = some connection →
      connection.agentId = some agentId → ¬ HeardElsewhere state agentId websocket

structure Consistent (state : State) : Prop where
  fresh : ∀ websocket connection, state.handlers websocket = some connection →
    websocket < state.nextId
  known : ∀ beat ∈ state.heartbeats, beat.2 < state.nextId
  own : ∀ beat ∈ state.heartbeats, ∀ connection, state.handlers beat.2 = some connection →
    connection.agentId = some beat.1
  admitted : ∀ websocket connection, state.handlers websocket = some connection →
    connection.authenticated = false → connection.agentId = none

section Routes

variable {routes : Routes}

theorem lookup_set_self : (routes.set agentId websocket).lookup agentId = some websocket := by
  induction routes with
  | nil => simp [Routes.set]
  | cons route routes ih =>
      obtain ⟨key, value⟩ := route
      simp only [Routes.set]
      split
      · simp
      · rename_i hkey
        rw [List.lookup_cons, beq_false_of_ne (Ne.symm hkey)]
        exact ih

theorem lookup_set_of_ne (h : other ≠ agentId) :
    (routes.set agentId websocket).lookup other = routes.lookup other := by
  induction routes with
  | nil => simp [Routes.set, List.lookup_cons, beq_false_of_ne h]
  | cons route routes ih =>
      obtain ⟨key, value⟩ := route
      simp only [Routes.set]
      split
      · rename_i hkey
        rw [List.lookup_cons, List.lookup_cons, beq_false_of_ne h,
          show (other == key) = false from beq_false_of_ne (hkey ▸ h)]
      · rw [List.lookup_cons, List.lookup_cons, ih]

theorem lookup_del_self : (routes.del agentId).lookup agentId = none := by
  rw [List.lookup_eq_none_iff]
  intro route hroute
  have hne := of_decide_eq_true (List.mem_filter.mp hroute).2
  simpa [beq_eq_false_iff_ne] using Ne.symm hne

theorem lookup_del_of_ne (h : other ≠ agentId) :
    (routes.del agentId).lookup other = routes.lookup other := by
  induction routes with
  | nil => rfl
  | cons route routes ih =>
      obtain ⟨key, value⟩ := route
      by_cases hkey : key = agentId
      · have hdel : Routes.del ((key, value) :: routes) agentId = Routes.del routes agentId := by
          simp [Routes.del, hkey]
        rw [hdel, List.lookup_cons, hkey, beq_false_of_ne h]
        exact ih
      · have hdel : Routes.del ((key, value) :: routes) agentId =
            (key, value) :: Routes.del routes agentId := by simp [Routes.del, hkey]
        rw [hdel, List.lookup_cons, List.lookup_cons, ih]

end Routes

section Latest

variable {isOpen isOpen' : Nat → Bool} {beats : List (String × Nat)}

theorem latestIn_eq_none : latestIn isOpen agentId beats = none ↔
    ∀ rival, (agentId, rival) ∈ beats → isOpen rival = false := by
  induction beats with
  | nil => simp [latestIn]
  | cons beat beats ih =>
      obtain ⟨agent, latest⟩ := beat
      simp only [latestIn]
      split
      · rename_i hbeat
        refine iff_of_false nofun fun h => ?_
        have hfalse := h latest (by simp [hbeat.1])
        rw [hbeat.2] at hfalse
        cases hfalse
      · rename_i hbeat
        rw [ih]
        refine ⟨fun h rival hmem => ?_, fun h rival hmem => h rival (List.mem_cons_of_mem _ hmem)⟩
        rcases List.mem_cons.mp hmem with heq | hmem
        · cases heq
          simpa using hbeat
        · exact h rival hmem

theorem mem_of_latestIn (h : latestIn isOpen agentId beats = some websocket) :
    (agentId, websocket) ∈ beats ∧ isOpen websocket = true := by
  induction beats with
  | nil => cases h
  | cons beat beats ih =>
      obtain ⟨agent, latest⟩ := beat
      simp only [latestIn] at h
      split at h
      · rename_i hbeat
        obtain rfl := Option.some.inj h
        exact ⟨by simp [hbeat.1], hbeat.2⟩
      · obtain ⟨hmem, hopen⟩ := ih h
        exact ⟨List.mem_cons_of_mem _ hmem, hopen⟩

-- It only depends on which of the connections that have sent a heartbeat are open.
theorem latestIn_congr (hopen : ∀ beat ∈ beats, isOpen' beat.2 = isOpen beat.2) :
    latestIn isOpen' agentId beats = latestIn isOpen agentId beats := by
  induction beats with
  | nil => rfl
  | cons beat beats ih =>
      simp only [latestIn, hopen beat List.mem_cons_self,
        ih fun other hmem => hopen other (List.mem_cons_of_mem _ hmem)]

-- A connection that goes, and is not the latest of the agent, is not missed.
theorem latestIn_of_shut (hshut : isOpen' websocket = false)
    (hopen : ∀ rival, rival ≠ websocket → isOpen' rival = isOpen rival)
    (hlatest : latestIn isOpen agentId beats ≠ some websocket) :
    latestIn isOpen' agentId beats = latestIn isOpen agentId beats := by
  induction beats with
  | nil => rfl
  | cons beat beats ih =>
      simp only [latestIn] at hlatest ⊢
      by_cases heq : beat.2 = websocket
      · -- an open one would be the latest
        have hnot : ¬ (beat.1 = agentId ∧ isOpen beat.2 = true) := fun hbeat =>
          hlatest (by rw [if_pos hbeat, heq])
        rw [if_neg hnot] at hlatest ⊢
        rw [if_neg (by simp [heq, hshut])]
        exact ih hlatest
      · rw [hopen beat.2 heq]
        split
        · rfl
        · rename_i hnot
          rw [if_neg hnot] at hlatest
          exact ih hlatest

end Latest

section Steps

variable {connection : Connection} {message : Message}

theorem isOpen_setHandler_self (held : Option Connection) :
    (state.setHandler websocket held).isOpen websocket = (held.map Connection.isOpen).getD false := by
  cases held <;> simp [isOpen, setHandler]

theorem isOpen_setHandler_of_ne {rival : Nat} (h : rival ≠ websocket)
    (held : Option Connection) :
    (state.setHandler websocket held).isOpen rival = state.isOpen rival := by
  simp [isOpen, setHandler, Function.update_of_ne h]

theorem isOpen_of_handler (h : state.handlers websocket = some connection) :
    state.isOpen websocket = connection.isOpen := by
  simp [isOpen, h]

-- Nobody has heard from a connection that may not speak yet.
theorem Consistent.silent (h : Consistent state)
    (hheld : state.handlers websocket = some connection) (hagent : connection.agentId = none) :
    ∀ beat ∈ state.heartbeats, beat.2 ≠ websocket := by
  rintro beat hmem rfl
  have hown := h.own beat hmem connection hheld
  rw [hagent] at hown
  cases hown

theorem heardElsewhere_iff (h : state.isOpen websocket = false) :
    HeardElsewhere state agentId websocket ↔ latestOpen state agentId ≠ none := by
  rw [latestOpen, Ne, latestIn_eq_none, not_forall]
  constructor
  · rintro ⟨rival, -, hmem, hopen⟩
    exact ⟨rival, fun hshut => by simp [hshut hmem] at hopen⟩
  · rintro ⟨rival, hrival⟩
    rw [Classical.not_imp, Bool.not_eq_false] at hrival
    refine ⟨rival, ?_, hrival.1, hrival.2⟩
    rintro rfl
    rw [h] at hrival
    cases hrival.2

-- A connection goes and nothing else changes.
theorem live_iff_of_shut (hlive : Live state) (hroutes : next.connections = state.connections)
    (hbeats : next.heartbeats = state.heartbeats) (hshut : next.isOpen websocket = false)
    (hopen : ∀ rival, rival ≠ websocket → next.isOpen rival = state.isOpen rival) :
    Live next ↔ ∀ agentId, latestOpen state agentId = some websocket →
      ¬ HeardElsewhere state agentId websocket := by
  constructor
  · rintro hnext agentId hlatest ⟨rival, hne, hmem, hrival⟩
    cases hfound : latestOpen next agentId with
    | none =>
        have hfalse := latestIn_eq_none.mp hfound rival (hbeats ▸ hmem)
        rw [hopen rival hne, hrival] at hfalse
        cases hfalse
    | some found =>
        have hboth := hnext agentId found hfound
        rw [hroutes, hlive agentId websocket hlatest] at hboth
        obtain rfl := Option.some.inj hboth
        have hfalse := (mem_of_latestIn hfound).2
        rw [hshut] at hfalse
        cases hfalse
  · intro hguard agentId found hfound
    by_cases hlatest : latestOpen state agentId = some websocket
    · obtain ⟨hmem, hfoundOpen⟩ := mem_of_latestIn hfound
      have hne : found ≠ websocket := by
        rintro rfl
        rw [hshut] at hfoundOpen
        cases hfoundOpen
      rw [hopen found hne] at hfoundOpen
      exact absurd ⟨found, hne, hbeats ▸ hmem, hfoundOpen⟩ (hguard agentId hlatest)
    · rw [hroutes]
      refine hlive agentId found ?_
      have hsame : latestOpen next agentId = latestOpen state agentId := by
        rw [latestOpen, hbeats]
        exact latestIn_of_shut hshut hopen hlatest
      rw [← hsame]
      exact hfound

theorem live_clean_iff (hlive : Live state)
    (hheld : state.handlers websocket = some connection) (hshut : connection.isOpen = false) :
    Live (state.clean websocket connection) ↔
      LeavesAlone token state (.cleans websocket) := by
  have hclosed : state.isOpen websocket = false := (isOpen_of_handler hheld).trans hshut
  have hlatest (agentId : String) :
      latestOpen (state.clean websocket connection) agentId = latestOpen state agentId := by
    refine latestIn_congr fun beat _ => ?_
    by_cases hne : beat.2 = websocket
    · rw [hne, hclosed]
      exact isOpen_setHandler_self none
    · exact isOpen_setHandler_of_ne hne none
  simp only [Live, hlatest, LeavesAlone, heardElsewhere_iff hclosed, not_not]
  cases hagent : connection.agentId with
  | none =>
      refine iff_of_true (fun agentId found hfound => ?_) fun held agentId hheld' hagent' => ?_
      · simpa only [State.clean, hagent, setHandler] using hlive agentId found hfound
      · rw [hheld] at hheld'
        cases hheld'
        rw [hagent] at hagent'
        cases hagent'
  | some agent =>
      have hroutes : (state.clean websocket connection).connections =
          state.connections.del agent := by simp only [State.clean, hagent]
      rw [hroutes]
      constructor
      · intro hnext held agentId hheld' hagent'
        rw [hheld] at hheld'
        cases hheld'
        rw [hagent] at hagent'
        cases hagent'
        cases hfound : latestOpen state agent with
        | none => rfl
        | some found =>
            have hgone := hnext agent found hfound
            rw [lookup_del_self] at hgone
            cases hgone
      · intro hguard agentId found hfound
        have hne : agentId ≠ agent := by
          rintro rfl
          rw [hguard connection agentId hheld hagent] at hfound
          cases hfound
        rw [lookup_del_of_ne hne]
        exact hlive agentId found hfound

theorem Live.of_latestOpen (hlive : Live state) (hroutes : next.connections = state.connections)
    (hlatest : ∀ agentId, latestOpen next agentId = latestOpen state agentId) : Live next := by
  intro agentId found hfound
  rw [hlatest] at hfound
  rw [hroutes]
  exact hlive agentId found hfound

theorem isOpen_authenticate {admitted : Connection}
    (hlogin : connection.authenticate token message = some admitted) :
    admitted.isOpen = connection.isOpen := by
  simp only [Connection.authenticate] at hlogin
  split at hlogin
  · obtain rfl := Option.some.inj hlogin
    rfl
  · cases hlogin

theorem isOpen_admit {admitted : Connection} (hheld : state.handlers websocket = some connection)
    (hlogin : connection.authenticate token message = some admitted) (rival : Nat) :
    (state.setHandler websocket (some admitted)).isOpen rival = state.isOpen rival := by
  by_cases hne : rival = websocket
  · rw [hne, isOpen_setHandler_self, isOpen_of_handler hheld]
    exact isOpen_authenticate hlogin
  · exact isOpen_setHandler_of_ne hne _

-- A connection that is turned away has sent no heartbeat.
theorem live_refused (h : Consistent state) (hlive : Live state)
    (hheld : state.handlers websocket = some connection)
    (hlogin : connection.authenticate token message = none) :
    Live (state.setHandler websocket (some connection.giveUp)) := by
  have hunknown : connection.authenticated = false := by
    simp only [Connection.authenticate] at hlogin
    split at hlogin
    · cases hlogin
    · rename_i hnot
      exact (Bool.not_eq_true _).mp fun heq => hnot (.inl heq)
  have hsilent := h.silent hheld (h.admitted websocket connection hheld hunknown)
  exact hlive.of_latestOpen rfl fun agentId =>
    latestIn_congr fun beat hmem => isOpen_setHandler_of_ne (hsilent beat hmem) _

section Heartbeat

variable {admitted : Connection} {agent : String}

-- A heartbeat on an open connection is the latest of its agent, one on a closed connection
-- counts for nothing.
theorem latestIn_beat (hsame : ∀ rival,
      (state.setHandler websocket (some admitted)).isOpen rival = state.isOpen rival)
    (agentId : String) :
    latestIn (state.setHandler websocket (some admitted)).isOpen agentId
        ((agent, websocket) :: state.heartbeats) =
      if agent = agentId ∧ state.isOpen websocket = true then some websocket
      else latestOpen state agentId := by
  rw [latestIn, hsame]
  split
  · rfl
  · exact latestIn_congr fun beat _ => hsame beat.2

theorem live_beat_open (hlive : Live state) (hopen : state.isOpen websocket = true)
    (hsame : ∀ rival,
      (state.setHandler websocket (some admitted)).isOpen rival = state.isOpen rival) :
    Live { state.setHandler websocket (some admitted) with
      connections := state.connections.set agent websocket
      heartbeats := (agent, websocket) :: state.heartbeats } := by
  intro agentId found hfound
  have hlatest := (latestIn_beat hsame agentId).symm.trans hfound
  split at hlatest
  · next heq =>
      obtain rfl := Option.some.inj hlatest
      rw [heq.1]
      exact lookup_set_self
  · next hne =>
      have hother : agentId ≠ agent := fun heq => hne ⟨heq.symm, hopen⟩
      exact (lookup_set_of_ne hother).trans (hlive agentId found hlatest)

-- The agent's entry then leads to a closed connection.
theorem live_beat_closed_iff (hlive : Live state) (hclosed : state.isOpen websocket = false)
    (hsame : ∀ rival,
      (state.setHandler websocket (some admitted)).isOpen rival = state.isOpen rival) :
    Live { state.setHandler websocket (some admitted) with
        connections := state.connections.set agent websocket
        heartbeats := (agent, websocket) :: state.heartbeats } ↔
      latestOpen state agent = none := by
  have hlatest (agentId : String) :
      latestIn (state.setHandler websocket (some admitted)).isOpen agentId
        ((agent, websocket) :: state.heartbeats) = latestOpen state agentId := by
    rw [latestIn_beat hsame, if_neg (by simp [hclosed])]
  constructor
  · intro hnext
    cases hfound : latestOpen state agent with
    | none => rfl
    | some found =>
        have hboth := hnext agent found ((hlatest agent).trans hfound)
        obtain rfl := Option.some.inj (lookup_set_self.symm.trans hboth)
        have hfalse := (mem_of_latestIn hfound).2
        rw [hclosed] at hfalse
        cases hfalse
  · intro hnone agentId found hfound
    have hfound' : latestOpen state agentId = some found := (hlatest agentId).symm.trans hfound
    have hother : agentId ≠ agent := by
      rintro rfl
      rw [hnone] at hfound'
      cases hfound'
    exact (lookup_set_of_ne hother).trans (hlive agentId found hfound')

end Heartbeat

theorem leavesAlone_receives (hheld : state.handlers websocket = some connection) :
    LeavesAlone token state (.receives websocket message) ↔
      ∀ agentId, connection.isOpen = false → connection.beats token message = some agentId →
        ¬ HeardElsewhere state agentId websocket := by
  constructor
  · exact fun hall agentId => hall connection agentId hheld
  · intro hall held agentId hheld'
    rw [hheld] at hheld'
    cases hheld'
    exact hall agentId

theorem live_receive_iff (h : Consistent state) (hlive : Live state)
    (hheld : state.handlers websocket = some connection) :
    Live (state.receive token websocket connection message) ↔
      LeavesAlone token state (.receives websocket message) := by
  rw [leavesAlone_receives hheld]
  simp only [State.receive]
  cases hlogin : connection.authenticate token message with
  | none =>
      have hbeats : connection.beats token message = none := by
        simp [Connection.beats, hlogin]
      rw [hbeats]
      exact iff_of_true (live_refused h hlive hheld hlogin) fun _ _ => nofun
  | some admitted =>
      have hsame := isOpen_admit hheld hlogin
      cases hbeats : connection.beats token message with
      | none =>
          exact iff_of_true (hlive.of_latestOpen rfl fun agentId =>
            latestIn_congr fun beat _ => hsame beat.2) fun _ _ => nofun
      | some agent =>
          simp only [Option.some.injEq]
          cases hcase : connection.isOpen with
          | true =>
              have hopen := (isOpen_of_handler hheld).trans hcase
              exact iff_of_true (live_beat_open hlive hopen hsame) fun _ => nofun
          | false =>
              have hclosed := (isOpen_of_handler hheld).trans hcase
              simp only [live_beat_closed_iff hlive hclosed hsame, forall_const,
                heardElsewhere_iff hclosed, not_not, forall_eq']

theorem live_connect (h : Consistent state) (hlive : Live state) :
    Live (state.connect token) := by
  simp only [State.connect]
  split
  · exact hlive
  · intro agentId found hfound
    refine hlive agentId found ?_
    rw [latestOpen] at hfound ⊢
    rw [← hfound]
    refine (latestIn_congr fun beat hmem => ?_).symm
    exact isOpen_setHandler_of_ne (Nat.ne_of_lt (h.known beat hmem)) _

-- A step accepts a connection, or it is one of the handler of a websocket: it reads a message,
-- shuts the connection, or cleans up after it.
theorem step_cases {event : Event} (he : Bridge.step token state event = some next) :
    (event = .connects ∧ next = state.connect token) ∨
      ∃ websocket connection, state.handlers websocket = some connection ∧
        ((∃ message, event = .receives websocket message ∧
            next = state.receive token websocket connection message) ∨
          ((event = .closes websocket ∨ event = .fails websocket) ∧ ∃ shut : Connection,
            next = state.setHandler websocket (some shut) ∧ shut.isOpen = false ∧
              shut.agentId = connection.agentId ∧
              shut.authenticated = connection.authenticated) ∨
          event = .cleans websocket ∧ connection.isOpen = false ∧
            next = state.clean websocket connection) := by
  cases event with
  | connects => exact .inl ⟨rfl, (Option.some.inj he).symm⟩
  | receives websocket message =>
      simp only [Bridge.step] at he
      split at he
      · cases he
      · next connection hheld =>
          split at he
          · exact .inr
              ⟨websocket, connection, hheld, .inl ⟨message, rfl, (Option.some.inj he).symm⟩⟩
          · cases he
  | closes websocket =>
      simp only [Bridge.step] at he
      split at he
      · cases he
      · next connection hheld =>
          split at he
          · exact .inr ⟨websocket, connection, hheld,
              .inr (.inl ⟨.inl rfl, _, (Option.some.inj he).symm, rfl, rfl, rfl⟩)⟩
          · cases he
  | fails websocket =>
      simp only [Bridge.step] at he
      split at he
      · cases he
      · next connection hheld =>
          split at he
          · exact .inr ⟨websocket, connection, hheld,
              .inr (.inl ⟨.inr rfl, _, (Option.some.inj he).symm, rfl, rfl, rfl⟩)⟩
          · cases he
  | cleans websocket =>
      simp only [Bridge.step] at he
      split at he
      · cases he
      · next connection hheld =>
          split at he
          · cases he
          · next hshut =>
              exact .inr ⟨websocket, connection, hheld,
                .inr (.inr ⟨rfl, (Bool.not_eq_true _).mp hshut, (Option.some.inj he).symm⟩)⟩

theorem live_step_iff {event : Event} (h : Consistent state) (hlive : Live state)
    (he : Bridge.step token state event = some next) :
    Live next ↔ LeavesAlone token state event := by
  obtain ⟨rfl, rfl⟩ | ⟨websocket, connection, hheld, hstep⟩ := step_cases he
  · exact iff_of_true (live_connect h hlive) trivial
  obtain ⟨message, rfl, rfl⟩ | ⟨hevent, shut, rfl, hshut, -, -⟩ | ⟨rfl, hshut, rfl⟩ := hstep
  · exact live_receive_iff h hlive hheld
  · have hgone : (state.setHandler websocket (some shut)).isOpen websocket = false :=
      (isOpen_setHandler_self _).trans hshut
    have hiff : Live (state.setHandler websocket (some shut)) ↔ _ :=
      live_iff_of_shut hlive rfl rfl hgone fun rival hne => isOpen_setHandler_of_ne hne _
    obtain rfl | rfl := hevent
    · exact hiff
    · exact hiff
  · exact live_clean_iff hlive hheld hshut

-- A handler that is replaced by one of the same agent that may speak if it has to.
theorem Consistent.setHandler (h : Consistent state) {held : Option Connection}
    (hlt : websocket < state.nextId)
    (hagent : ∀ connection, held = some connection →
      (connection.authenticated = false → connection.agentId = none) ∧
      ∀ beat ∈ state.heartbeats, beat.2 = websocket → connection.agentId = some beat.1) :
    Consistent (state.setHandler websocket held) := by
  refine ⟨fun other connection hother => ?_, h.known, fun beat hmem connection hother => ?_,
    fun other connection hother => ?_⟩
  · by_cases hne : other = websocket
    · rw [hne]
      exact hlt
    · exact h.fresh other connection (by
        simpa [State.setHandler, Function.update_of_ne hne] using hother)
  · by_cases hne : beat.2 = websocket
    · refine (hagent connection ?_).2 beat hmem hne
      simpa [State.setHandler, hne] using hother
    · exact h.own beat hmem connection (by
        simpa [State.setHandler, Function.update_of_ne hne] using hother)
  · by_cases hne : other = websocket
    · refine (hagent connection ?_).1
      simpa [State.setHandler, hne] using hother
    · exact h.admitted other connection (by
        simpa [State.setHandler, Function.update_of_ne hne] using hother)

theorem Consistent.keepAgent (h : Consistent state) {connection changed : Connection}
    (hheld : state.handlers websocket = some connection)
    (hagent : changed.agentId = connection.agentId)
    (hauthenticated : changed.authenticated = connection.authenticated) :
    Consistent (state.setHandler websocket (some changed)) := by
  refine h.setHandler (h.fresh websocket connection hheld) fun other hother => ?_
  cases hother
  rw [hagent, hauthenticated]
  refine ⟨h.admitted websocket connection hheld, ?_⟩
  rintro beat hmem rfl
  exact h.own beat hmem connection hheld

theorem Consistent.receive (h : Consistent state)
    (hheld : state.handlers websocket = some connection) :
    Consistent (state.receive token websocket connection message) := by
  simp only [State.receive]
  cases hlogin : connection.authenticate token message with
  | none => exact h.keepAgent hheld rfl rfl
  | some admitted =>
      have hlt := h.fresh websocket connection hheld
      -- the agent's id is locked once it is known
      have hadmitted : admitted.authenticated = true ∧
          ∀ agentId, connection.agentId = some agentId → admitted.agentId = some agentId := by
        simp only [Connection.authenticate] at hlogin
        split at hlogin
        · obtain rfl := Option.some.inj hlogin
          exact ⟨rfl, fun agentId heq => by simp only [heq]⟩
        · cases hlogin
      have hset : Consistent (state.setHandler websocket (some admitted)) := by
        refine h.setHandler hlt fun other hother => ?_
        cases hother
        refine ⟨fun hfalse => by simp [hadmitted.1] at hfalse, ?_⟩
        rintro beat hmem rfl
        exact hadmitted.2 beat.1 (h.own beat hmem connection hheld)
      cases hbeats : connection.beats token message with
      | none => exact hset
      | some agentId =>
          have hagent : admitted.agentId = some agentId := by
            simp only [Connection.beats, hlogin] at hbeats
            split at hbeats
            · exact hbeats
            · cases hbeats
          refine ⟨hset.fresh, fun beat hmem => ?_, fun beat hmem other hother => ?_,
            hset.admitted⟩
          · rcases List.mem_cons.mp hmem with rfl | hmem
            · exact hlt
            · exact h.known beat hmem
          · rcases List.mem_cons.mp hmem with rfl | hmem
            · have heq : some admitted = some other := by
                simpa [State.setHandler] using hother
              cases heq
              exact hagent
            · exact hset.own beat hmem other hother

theorem Consistent.connect (h : Consistent state) : Consistent (state.connect token) := by
  simp only [State.connect]
  split
  · exact ⟨fun other connection hother => Nat.lt_succ_of_lt (h.fresh other connection hother),
      fun beat hmem => Nat.lt_succ_of_lt (h.known beat hmem), h.own, h.admitted⟩
  · refine ⟨fun other connection hother => ?_, fun beat hmem => Nat.lt_succ_of_lt (h.known beat hmem),
      fun beat hmem connection hother => ?_, fun other connection hother hfalse => ?_⟩
    · by_cases hne : other = state.nextId
      · rw [hne]
        exact Nat.lt_succ_self _
      · exact Nat.lt_succ_of_lt (h.fresh other connection (by
          simpa [State.setHandler, Function.update_of_ne hne] using hother))
    · have hne : beat.2 ≠ state.nextId := Nat.ne_of_lt (h.known beat hmem)
      exact h.own beat hmem connection (by
        simpa [State.setHandler, Function.update_of_ne hne] using hother)
    · by_cases hne : other = state.nextId
      · subst hne
        have heq : some ({ authenticated := token = "" } : Connection) = some connection := by
          simpa only [State.setHandler, Function.update_self] using hother
        cases heq
        rfl
      · exact h.admitted other connection (by
          simpa [State.setHandler, Function.update_of_ne hne] using hother) hfalse

theorem Consistent.step {event : Event} (h : Consistent state)
    (he : Bridge.step token state event = some next) : Consistent next := by
  obtain ⟨-, rfl⟩ | ⟨websocket, connection, hheld, hstep⟩ := step_cases he
  · exact h.connect
  obtain ⟨message, -, rfl⟩ | ⟨-, shut, rfl, -, hagent, hauth⟩ | ⟨-, -, rfl⟩ := hstep
  · exact h.receive hheld
  · exact h.keepAgent hheld hagent hauth
  · have hset : Consistent (state.setHandler websocket none) :=
      h.setHandler (h.fresh websocket connection hheld) nofun
    exact ⟨hset.fresh, hset.known, hset.own, hset.admitted⟩

theorem consistent_initial : Consistent {} :=
  ⟨nofun, nofun, nofun, nofun⟩

theorem live_initial : Live {} := nofun

end Steps

-- A task for an agent with an open connection gets to its latest one.
theorem sendTask_of_live (h : Live state) (hlatest : latestOpen state agentId = some websocket)
    (accepts : Nat → Bool) : state.sendTask agentId accepts = accepts websocket := by
  rw [State.sendTask, h agentId websocket hlatest]

-- The table is live exactly as long as no connection that goes or is cleaned up takes the place
-- of another one of its agent.
theorem live_iff_leavesAlone (token : String) (events : List Event) :
    Always (step token) Live {} events ↔ Along (step token) (LeavesAlone token) {} events :=
  always_iff_along (fun state => Consistent state ∧ Live state)
    (fun _ _ _ h hguard he => ⟨h.1.step he, (live_step_iff h.1 h.2 he).mpr hguard⟩) (fun _ h => h.2)
    (fun _ _ _ h he hnext => (live_step_iff h.1 h.2 he).mp hnext)
    ⟨consistent_initial, live_initial⟩

def heartbeat : Message where
  type := "heartbeat"
  agentId := "mybot"

-- The agent is back before its old connection is cleaned up.
theorem reconnected_agent_unrouted :
    ∃ final, run (step "") {}
        [.connects, .receives 0 heartbeat, .closes 0, .connects, .receives 1 heartbeat, .cleans 0] =
        some final ∧
      latestOpen final "mybot" = some 1 ∧ final.connections.lookup "mybot" = none ∧
      final.sendTask "mybot" (fun _ => true) = false := by
  refine ⟨_, rfl, ?_⟩
  decide +kernel

end EvoClaw.Bridge

-- How many connections are past the admission check. The check looks at the routing table, which
-- only has the agents that have sent a heartbeat.
namespace EvoClaw.Bridge

open EventSystem State

variable {token : String} {state next : State} {websocket : Nat}

-- The handlers that have not returned.
def State.served (state : State) : Nat :=
  (List.range state.nextId).countP fun websocket => (state.handlers websocket).isSome

def Capped (state : State) : Prop := state.served ≤ MAX_CONNECTIONS

instance : DecidablePred Capped := fun state => inferInstanceAs (Decidable (state.served ≤ _))

-- When a connection comes, every other one that is served has sent a heartbeat and has still an
-- entry of its own in the routing table.
def Registered (state : State) : Event → Prop
  | .connects => ∀ websocket ∈ List.range state.nextId, (state.handlers websocket).isSome →
      websocket ∈ state.connections.map Prod.snd
  | .receives _ _ | .closes _ | .fails _ | .cleans _ => True

instance (state : State) : ∀ event, Decidable (Registered state event)
  | .connects => inferInstanceAs (Decidable (∀ _ ∈ _, _))
  | .receives _ _ | .closes _ | .fails _ | .cleans _ => isTrue trivial

theorem served_le_of_handlers (hid : next.nextId = state.nextId)
    (hle : ∀ websocket, (next.handlers websocket).isSome → (state.handlers websocket).isSome) :
    next.served ≤ state.served := by
  rw [served, served, hid]
  exact List.countP_mono_left fun websocket _ => hle websocket

theorem isSome_setHandler {connection : Connection} {held : Option Connection}
    (hheld : state.handlers websocket = some connection) {other : Nat}
    (hsome : ((state.setHandler websocket held).handlers other).isSome) :
    (state.handlers other).isSome := by
  by_cases hne : other = websocket
  · rw [hne, hheld]
    rfl
  · simpa only [setHandler, Function.update_of_ne hne] using hsome

-- A handler goes on or returns.
theorem served_setHandler_le {connection : Connection} {held : Option Connection}
    (hheld : state.handlers websocket = some connection) :
    (state.setHandler websocket held).served ≤ state.served :=
  served_le_of_handlers rfl fun _ hsome => isSome_setHandler hheld hsome

theorem served_receive_le {connection : Connection} {message : Message}
    (hheld : state.handlers websocket = some connection) :
    (state.receive token websocket connection message).served ≤ state.served := by
  simp only [State.receive]
  split
  · exact served_setHandler_le hheld
  · split
    · exact served_setHandler_le hheld
    · exact served_le_of_handlers rfl fun _ hsome => isSome_setHandler hheld hsome

theorem served_clean_le {connection : Connection}
    (hheld : state.handlers websocket = some connection) :
    (state.clean websocket connection).served ≤ state.served :=
  served_le_of_handlers rfl fun _ hsome => isSome_setHandler hheld hsome

theorem served_connect (h : Consistent state) :
    (state.connect token).served =
      state.served + if MAX_CONNECTIONS ≤ state.connections.length then 0 else 1 := by
  have hnew : state.handlers state.nextId = none := by
    cases hfound : state.handlers state.nextId with
    | none => rfl
    | some connection =>
        exact absurd (h.fresh state.nextId connection hfound) (Nat.lt_irrefl _)
  simp only [State.connect]
  split
  · simp only [served, List.range_succ, List.countP_append, List.countP_singleton, hnew]
    rfl
  · simp only [served, List.range_succ, List.countP_append, List.countP_singleton, setHandler,
      Function.update_self]
    congr 1
    refine List.countP_congr fun other hother => ?_
    have hne : other ≠ state.nextId := Nat.ne_of_lt (List.mem_range.mp hother)
    rw [Function.update_of_ne hne]

-- Entries of their own are as many as the handlers.
theorem served_le_of_registered (h : Registered state .connects) :
    state.served ≤ state.connections.length := by
  rw [served, List.countP_eq_length_filter, ← List.length_map Prod.snd]
  have hnodup : ((List.range state.nextId).filter fun websocket =>
      (state.handlers websocket).isSome).Nodup := List.nodup_range.filter _
  refine List.Nodup.length_le_of_subset hnodup fun websocket hserved => ?_
  obtain ⟨hrange, hsome⟩ := List.mem_filter.mp hserved
  exact h websocket hrange hsome

theorem capped_step {event : Event} (h : Consistent state) (hcap : Capped state)
    (hguard : Registered state event) (he : Bridge.step token state event = some next) :
    Capped next := by
  obtain ⟨rfl, rfl⟩ | ⟨websocket, connection, hheld, hstep⟩ := step_cases he
  · have hserved : (state.connect token).served = _ := served_connect h
    have hregistered := served_le_of_registered hguard
    simp only [Capped, hserved] at hcap ⊢
    split <;> omega
  have hle : next.served ≤ state.served := by
    obtain ⟨message, -, rfl⟩ | ⟨-, shut, rfl, -⟩ | ⟨-, -, rfl⟩ := hstep
    · exact served_receive_le hheld
    · exact served_setHandler_le hheld
    · exact served_clean_le hheld
  exact Nat.le_trans hle hcap

-- The cap holds as long as nobody connects beside a connection that the table does not show.
theorem capped_of_registered (token : String) (events : List Event)
    (hguard : Along (step token) Registered {} events) :
    Always (step token) Capped {} events :=
  hguard.always (fun state => Consistent state ∧ Capped state)
    (fun _ _ _ h hg he => ⟨h.1.step he, capped_step h.1 h.2 hg he⟩) (fun _ h => h.2)
    ⟨consistent_initial, Nat.zero_le _⟩

-- Two agents that say who they are before the next one connects.
theorem greeting_agents_capped :
    Always (step "") Capped {}
      [.connects, .receives 0 heartbeat, .connects,
        .receives 1 { type := "heartbeat", agentId := "other" }, .closes 0, .cleans 0, .connects] :=
  capped_of_registered "" _ (by decide +kernel)

-- Connections that send nothing are all let in.
theorem run_connects (token : String) (n : Nat) :
    ∃ final, run (step token) {} (List.replicate n .connects) = some final ∧
      Consistent final ∧ final.connections = [] ∧ final.served = n := by
  induction n with
  | zero => exact ⟨_, rfl, consistent_initial, rfl, rfl⟩
  | succ n ih =>
      obtain ⟨final, hrun, hconsistent, hroutes, hserved⟩ := ih
      refine ⟨final.connect token, ?_, hconsistent.connect, ?_, ?_⟩
      · rw [List.replicate_succ', run_append, hrun]
        rfl
      · rw [State.connect, if_neg (by simp [hroutes, MAX_CONNECTIONS])]
        exact hroutes
      · rw [served_connect hconsistent, hserved, hroutes]
        rfl

-- One connection more than the cap, before any of them has said who it is.
theorem silent_connections_uncapped :
    ¬ Always (step "secret") Capped {} (List.replicate (MAX_CONNECTIONS + 1) .connects) := by
  intro h
  obtain ⟨final, hrun, -, -, hserved⟩ := run_connects "secret" (MAX_CONNECTIONS + 1)
  have hcap : final.served ≤ MAX_CONNECTIONS := h.reached hrun
  omega

end EvoClaw.Bridge
