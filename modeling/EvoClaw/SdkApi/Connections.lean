import EvoClaw.EventSystem.Runs
import EvoClaw.SdkApi.Model
import Mathlib.Data.Fintype.Basic

namespace EvoClaw.SdkApi

open EventSystem

variable {ω β : Type*} [DecidableEq ω] [DecidableEq β] {config : Config}
  {server next : Server ω β}

-- Between admission and return.
def Handler.Admitted : Handler → Prop
  | .refusing | .closingRefused | .serving _ | .unauthorized => True
  | .new | .rejecting | .closingRejected | .ended => False

-- A websocket has a slot exactly while its handler is admitted.
def Server.Accounted (server : Server ω β) : Prop :=
  (∀ ws, ws ∈ server.connections ↔ (server.handlers ws).Admitted) ∧
    server.connections.card ≤ MAX_CONNECTIONS

-- A broadcast returns and has called send on every member that was there all the time.
def Server.Delivered (server : Server ω β) : Prop :=
  ∀ b, server.broadcasts b ≠ .raised ∧
    ∀ whole visited, server.broadcasts b = .returned whole visited → whole ⊆ visited

def Broadcast.UnderWay : Broadcast ω → Prop
  | .sending _ _ _ _ => True
  | .idle | .returned _ _ | .raised => False

instance : ∀ broadcast : Broadcast ω, Decidable broadcast.UnderWay
  | .sending _ _ _ _ => isTrue trivial
  | .idle | .returned _ _ | .raised => isFalse fun h => h

def Server.Quiet (server : Server ω β) : Prop := ∀ b, ¬ (server.broadcasts b).UnderWay

instance [Fintype β] (server : Server ω β) : Decidable server.Quiet :=
  inferInstanceAs (Decidable (∀ _, ¬ _))

-- Members come and go while no broadcast is suspended in a send. No send of a broadcast raises,
-- and nothing raises while a connection is refused for want of a token.
def Guarded (server : Server ω β) : Event ω β → Prop
  | .connect _ => server.connections.card < MAX_CONNECTIONS → server.Quiet
  | .leave _ => server.Quiet
  | .refuseSend _ raised => raised = false
  | .refuseClose _ raised => raised = false ∧ server.Quiet
  | .sent _ raised _ => raised = false
  | .rejectSend _ _ | .rejectClose _ | .message _ _ | .broadcast _ _ => True

instance [Fintype β] (server : Server ω β) : ∀ event, Decidable (Guarded server event)
  | .connect _ => inferInstanceAs (Decidable (_ → _))
  | .leave _ => inferInstanceAs (Decidable server.Quiet)
  | .refuseSend _ raised => inferInstanceAs (Decidable (raised = false))
  | .refuseClose _ raised => inferInstanceAs (Decidable (raised = false ∧ server.Quiet))
  | .sent _ raised _ => inferInstanceAs (Decidable (raised = false))
  | .rejectSend _ _ | .rejectClose _ | .message _ _ | .broadcast _ _ => isTrue trivial

structure Inv (server : Server ω β) : Prop where
  accounted : server.Accounted
  delivered : server.Delivered
  unchanged : ∀ b members visited dead ws,
    server.broadcasts b = .sending members visited dead ws →
      members = server.connections ∧ dead = ∅

section Handlers

variable {ws : ω} {handler : Handler}

omit [DecidableEq β] in
-- The handler moves and keeps what it has: a slot or none.
theorem Inv.moved (h : Inv server) (hsame : handler.Admitted ↔ (server.handlers ws).Admitted) :
    Inv (server.setHandler ws handler) := by
  refine ⟨⟨fun other => ?_, h.accounted.2⟩, h.delivered, h.unchanged⟩
  rw [setHandler_connections]
  by_cases he : other = ws
  · subst he
    rw [setHandler_self, hsame]
    exact h.accounted.1 other
  · rw [setHandler_of_ne he]
    exact h.accounted.1 other

omit [DecidableEq ω] [DecidableEq β] in
theorem Server.Quiet.unchanged (hquiet : server.Quiet) {connections : Finset ω} (b : β)
    (members visited dead : Finset ω) (ws : ω)
    (hb : server.broadcasts b = .sending members visited dead ws) :
    members = connections ∧ dead = ∅ :=
  absurd (by rw [hb]; trivial) (hquiet b)

omit [DecidableEq β] in
theorem Inv.admitted (h : Inv server) (hquiet : server.Quiet)
    (hroom : server.connections.card < MAX_CONNECTIONS) (hhandler : handler.Admitted) :
    Inv ({ server with connections := insert ws server.connections }.setHandler ws handler) := by
  refine ⟨⟨fun other => ?_, ?_⟩, h.delivered, hquiet.unchanged⟩
  · rw [setHandler_connections]
    by_cases he : other = ws
    · subst he
      rw [setHandler_self]
      exact iff_of_true (Finset.mem_insert_self ..) hhandler
    · rw [setHandler_of_ne he, Finset.mem_insert]
      exact ⟨fun hm => (h.accounted.1 other).mp (hm.resolve_left he),
        fun hm => .inr ((h.accounted.1 other).mpr hm)⟩
  · exact le_trans (Finset.card_insert_le ..) hroom

omit [DecidableEq β] in
theorem Inv.ended (h : Inv server) (hquiet : server.Quiet) :
    Inv ({ server with connections := server.connections.erase ws }.setHandler ws .ended) := by
  refine ⟨⟨fun other => ?_, ?_⟩, h.delivered, hquiet.unchanged⟩
  · rw [setHandler_connections]
    by_cases he : other = ws
    · subst he
      rw [setHandler_self]
      exact iff_of_false (fun hm => Finset.notMem_erase other _ hm) (fun hm => hm)
    · rw [setHandler_of_ne he, Finset.mem_erase, and_iff_right he]
      exact h.accounted.1 other
  · exact le_trans (Finset.card_erase_le) h.accounted.2

end Handlers

section Broadcasts

variable {b : β} {members visited : Finset ω} {choice : Option ω}

omit [DecidableEq ω] in
theorem Inv.setBroadcast {broadcast : Broadcast ω} (h : Inv server)
    (hraised : broadcast ≠ .raised)
    (hreturned : ∀ whole visited, broadcast = .returned whole visited → whole ⊆ visited)
    (hsending : ∀ members visited dead ws, broadcast = .sending members visited dead ws →
      members = server.connections ∧ dead = ∅) : Inv (server.setBroadcast b broadcast) := by
  refine ⟨h.accounted, fun other => ?_, fun other members visited dead ws hb => ?_⟩
  · by_cases he : other = b
    · rw [he, setBroadcast_self]
      exact ⟨hraised, hreturned⟩
    · rw [setBroadcast_of_ne he]
      exact h.delivered other
  · by_cases he : other = b
    · rw [he, setBroadcast_self] at hb
      exact hsending members visited dead ws hb
    · rw [setBroadcast_of_ne he] at hb
      exact h.unchanged other members visited dead ws hb

-- An iteration over the set as it was.
theorem Inv.iterate (h : Inv server) (hmembers : members = server.connections)
    (hstep : server.iterate b members visited ∅ choice = some next) : Inv next := by
  subst hmembers
  cases choice with
  | some ws =>
      simp only [Server.iterate, ne_eq, not_true_eq_false, if_false] at hstep
      split at hstep
      · cases hstep
        refine h.setBroadcast (fun he => nomatch he) (fun _ _ he => nomatch he) ?_
        rintro _ _ _ _ ⟨⟩
        exact ⟨rfl, rfl⟩
      · cases hstep
  | none =>
      simp only [Server.iterate, ne_eq, not_true_eq_false, if_false] at hstep
      split at hstep
      case isFalse => cases hstep
      case isTrue hall =>
        cases hstep
        have hset : { server with connections := server.connections \ ∅ } = server := by
          rw [Finset.sdiff_empty]
        rw [hset, Finset.inter_self]
        refine h.setBroadcast (fun he => nomatch he) ?_ (fun _ _ _ _ he => nomatch he)
        rintro _ _ ⟨⟩
        exact hall trivial

end Broadcasts

theorem Inv.connect {ws : ω} (h : Inv server) (hguard : Guarded server (.connect ws))
    (hstep : step config server (.connect ws) = some next) : Inv next := by
  simp only [step] at hstep
  split at hstep
  case h_2 => cases hstep
  case h_1 hnew =>
    split at hstep
    case isTrue =>
      cases hstep
      exact h.moved (by rw [hnew]; rfl)
    case isFalse hroom =>
      have hlt := Nat.lt_of_not_le hroom
      split at hstep
      · cases hstep
        exact h.admitted (hguard hlt) hlt trivial
      · cases hstep
        exact h.admitted (hguard hlt) hlt trivial

theorem Inv.step {event : Event ω β} (h : Inv server) (hguard : Guarded server event)
    (hstep : step config server event = some next) : Inv next := by
  cases event with
  | connect ws => exact h.connect hguard hstep
  | rejectSend ws raised =>
      simp only [SdkApi.step] at hstep
      split at hstep
      · cases hstep
        refine h.moved ?_
        cases raised <;> simp [*, Handler.Admitted]
      · cases hstep
  | rejectClose ws =>
      simp only [SdkApi.step] at hstep
      split at hstep
      · cases hstep
        exact h.moved (by simp [*, Handler.Admitted])
      · cases hstep
  | refuseSend ws raised =>
      simp only [SdkApi.step] at hstep
      split at hstep
      · cases hstep
        cases (hguard : raised = false)
        exact h.moved (by simp [*, Handler.Admitted])
      · cases hstep
  | refuseClose ws raised =>
      simp only [SdkApi.step] at hstep
      split at hstep
      · obtain ⟨rfl, hquiet⟩ := hguard
        cases hstep
        exact h.ended hquiet
      · cases hstep
  | message ws token =>
      simp only [SdkApi.step] at hstep
      split at hstep
      · cases hstep
        refine h.moved ?_
        split <;> simp [*, Handler.Admitted]
      · cases hstep
        exact h
      · cases hstep
  | leave ws =>
      simp only [SdkApi.step] at hstep
      split at hstep
      · cases hstep
        exact h.ended hguard
      · cases hstep
        exact h.ended hguard
      · cases hstep
  | broadcast b choice =>
      simp only [SdkApi.step] at hstep
      split at hstep
      case h_2 => cases hstep
      case h_1 =>
        split at hstep
        · cases hstep
          refine h.setBroadcast (fun he => nomatch he) ?_ (fun _ _ _ _ he => nomatch he)
          rintro _ _ ⟨⟩
          exact Finset.Subset.refl _
        · exact h.iterate rfl hstep
  | sent b raised choice =>
      simp only [SdkApi.step] at hstep
      split at hstep
      case h_2 => cases hstep
      case h_1 members visited dead ws hb =>
        obtain ⟨hmembers, rfl⟩ := h.unchanged b members visited dead ws hb
        cases (hguard : raised = false)
        exact h.iterate hmembers hstep

omit [DecidableEq ω] [DecidableEq β] in
theorem inv_init : Inv (Server.init : Server ω β) where
  accounted := ⟨fun _ => iff_of_false (Finset.notMem_empty _) (fun h => h), Nat.zero_le _⟩
  delivered _ := ⟨fun he => (nomatch he), fun _ _ he => nomatch he⟩
  unchanged _ _ _ _ _ he := nomatch he

-- The slots are accounted for and broadcasts reach everybody.
theorem accounted_delivered_of_guarded (config : Config) (events : List (Event ω β))
    (hguard : Along (step config) Guarded Server.init events) :
    Always (step config) (fun server => server.Accounted ∧ server.Delivered) Server.init events :=
  hguard.always Inv (fun _ _ _ h hg hstep => h.step hg hstep)
    (fun _ h => ⟨h.accounted, h.delivered⟩) inv_init

-- Two clients, a broadcast to both, and one of them leaves after it.
theorem accounted_delivered_two :
    Always (step ⟨some "secret", false⟩) (fun server => server.Accounted ∧ server.Delivered)
      (Server.init : Server Bool Unit)
      [.connect false, .connect true, .message true (some "secret"), .broadcast () (some true),
        .sent () false (some false), .sent () false none, .leave true] :=
  accounted_delivered_of_guarded _ _ (by decide +kernel)

-- A send that raises on the way to the refusal keeps its slot for ever, and a client that
-- connects while a broadcast is suspended breaks the broadcast off.
theorem leaked_and_broken_off :
    (¬ Always (step ⟨none, false⟩) (fun server => server.Accounted ∧ server.Delivered)
      (Server.init : Server Bool Unit) [.connect false, .refuseSend false true]) ∧
    ¬ Always (step ⟨some "secret", false⟩) (fun server => server.Accounted ∧ server.Delivered)
      (Server.init : Server Bool Unit)
      [.connect false, .broadcast () (some false), .connect true, .sent () false none] := by
  refine ⟨fun h => ?_, fun h => ?_⟩
  · have hslot := (h.2.2.1.1 false).mp (by decide +kernel)
    exact hslot
  · exact (h.2.2.2.2.2 ()).1 (by decide +kernel)

end EvoClaw.SdkApi
