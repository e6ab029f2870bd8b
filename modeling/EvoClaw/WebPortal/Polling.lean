import EvoClaw.EventSystem.Runs
import EvoClaw.WebPortal.Model
import Mathlib.Data.Fintype.Basic

namespace EvoClaw.WebPortal

open EventSystem

variable {ι : Type*} [DecidableEq ι] {portal next : Portal ι} {message : Message}

-- The messages of a response that is under way.
def Thread.answers : Thread → List Message
  | .answered messages => messages
  | _ => []

-- The message is in a response, which the client has handled or will handle.
def Portal.Handed (portal : Portal ι) (message : Message) : Prop :=
  message ∈ portal.received ∨ ∃ t, message ∈ (portal.threads t).answers

-- The stamp is newer than every stamp that the client was handed.
def Portal.Ahead (portal : Portal ι) (ts : ℚ) : Prop :=
  portal.lastTs < ts ∧ ∀ t, ∀ message ∈ (portal.threads t).answers, message.ts < ts

-- No message is got twice. What the session still holds has been handed out, or is newer than
-- the stamp that the client sends with its next poll.
def Portal.Complete (portal : Portal ι) : Prop :=
  portal.received.Nodup ∧ ∀ session, portal.session = some session →
    ∀ message ∈ session.messages, portal.Handed message ∨ portal.lastTs < message.ts

-- A message is appended with a stamp that the client has not passed, and a poll is answered
-- while no message that it asks for has been handed out.
def Guarded (portal : Portal ι) : Event ι → Prop
  | .append t =>
      match portal.threads t with
      | .sending _ ts => portal.Ahead ts
      | _ => True
  | .deliver_reply _ => portal.Ahead portal.now
  | .serve t =>
      match portal.threads t, portal.session with
      | .asked since, some session => ∀ message ∈ session.newer since, ¬ portal.Handed message
      | _, _ => True
  | _ => True

instance [Fintype ι] (portal : Portal ι) (message : Message) : Decidable (portal.Handed message) :=
  inferInstanceAs (Decidable (_ ∨ _))

instance [Fintype ι] (portal : Portal ι) (ts : ℚ) : Decidable (portal.Ahead ts) :=
  inferInstanceAs (Decidable (_ ∧ _))

instance [Fintype ι] (portal : Portal ι) (event : Event ι) : Decidable (Guarded portal event) := by
  unfold Guarded
  split
  · split <;> infer_instance
  · infer_instance
  · split <;> infer_instance
  · infer_instance

section Stamps

variable {messages : List Message} {last ts : ℚ}

theorem le_advance (last : ℚ) (messages : List Message) : last ≤ advance last messages := by
  induction messages generalizing last with
  | nil => exact le_refl _
  | cons head rest ih =>
      refine le_trans ?_ (ih (if last < head.ts then head.ts else last))
      by_cases h : last < head.ts
      · rw [if_pos h]
        exact le_of_lt h
      · rw [if_neg h]

theorem ts_le_advance (last : ℚ) (hmem : message ∈ messages) : message.ts ≤ advance last messages := by
  induction messages generalizing last with
  | nil => cases hmem
  | cons head rest ih =>
      cases List.mem_cons.mp hmem with
      | inl hhead =>
          refine le_trans ?_ (le_advance _ rest)
          rw [hhead]
          show head.ts ≤ if last < head.ts then head.ts else last
          by_cases h : last < head.ts
          · rw [if_pos h]
          · rw [if_neg h]
            exact not_lt.mp h
      | inr hrest => exact ih _ hrest

theorem advance_lt (hlast : last < ts) (hall : ∀ message ∈ messages, message.ts < ts) :
    advance last messages < ts := by
  induction messages generalizing last with
  | nil => exact hlast
  | cons head rest ih =>
      have hhead := hall head List.mem_cons_self
      have hfirst : (if last < head.ts then head.ts else last) < ts := by
        by_cases h : last < head.ts
        · rwa [if_pos h]
        · rwa [if_neg h]
      exact ih hfirst fun other hmem => hall other (List.mem_cons_of_mem head hmem)

end Stamps

-- The responses that are under way and what was received share no message.
structure Inv (portal : Portal ι) : Prop where
  received : portal.received.Nodup
  answers : ∀ t, (portal.threads t).answers.Nodup
  apart : ∀ t, ∀ message ∈ (portal.threads t).answers, message ∉ portal.received
  disjoint : ∀ t u, t ≠ u → ∀ message ∈ (portal.threads t).answers,
    message ∉ (portal.threads u).answers
  held : ∀ session, portal.session = some session → session.messages.Nodup
  heldSerials : ∀ session, portal.session = some session →
    ∀ message ∈ session.messages, message.serial < portal.serial
  handedSerials : ∀ message, portal.Handed message → message.serial < portal.serial
  since : ∀ t since, portal.threads t = .asked since → since ≤ portal.lastTs
  ahead : ∀ session, portal.session = some session →
    ∀ message ∈ session.messages, portal.Handed message ∨ portal.Ahead message.ts

omit [DecidableEq ι] in
theorem Inv.complete (h : Inv portal) : portal.Complete :=
  ⟨h.received, fun session hs message hm => (h.ahead session hs message hm).imp_right (·.1)⟩

section Threads

variable {t u : ι} {thread : Thread}

theorem set_threads_of_ne (hu : u ≠ t) : (portal.set t thread).threads u = portal.threads u :=
  Function.update_of_ne hu ..

@[simp] theorem set_threads_self : (portal.set t thread).threads t = thread :=
  Function.update_self ..

theorem set_answers (hold : (portal.threads t).answers = []) (hnew : thread.answers = []) (u : ι) :
    ((portal.set t thread).threads u).answers = (portal.threads u).answers := by
  by_cases hu : u = t
  · rw [hu, set_threads_self, hold, hnew]
  · rw [set_threads_of_ne hu]

-- A thread that neither was nor becomes a response leaves what was handed out alone.
theorem Inv.set (h : Inv portal) (hold : (portal.threads t).answers = [])
    (hnew : thread.answers = []) (hsince : ∀ since, thread = .asked since → since ≤ portal.lastTs) :
    Inv (portal.set t thread) := by
  have hanswers := set_answers hold hnew
  have hhanded : ∀ message, (portal.set t thread).Handed message ↔ portal.Handed message := by
    intro message
    simp only [Portal.Handed, hanswers]
    rfl
  have hahead : ∀ ts, (portal.set t thread).Ahead ts ↔ portal.Ahead ts := by
    intro ts
    simp only [Portal.Ahead, hanswers]
    rfl
  refine ⟨h.received, ?_, ?_, ?_, h.held, h.heldSerials, ?_, ?_, ?_⟩
  · intro u
    rw [hanswers]
    exact h.answers u
  · intro u
    rw [hanswers]
    exact h.apart u
  · intro u v
    rw [hanswers, hanswers]
    exact h.disjoint u v
  · exact fun message hm => h.handedSerials message ((hhanded message).mp hm)
  · intro u since hu
    by_cases he : u = t
    · rw [he, set_threads_self] at hu
      exact hsince since hu
    · rw [set_threads_of_ne he] at hu
      exact h.since u since hu
  · intro session hs message hm
    rw [hhanded, hahead]
    exact h.ahead session hs message hm

end Threads

theorem mem_of_evict {messages : List Message} (h : message ∈ evict messages) :
    message ∈ messages := by
  unfold evict at h
  split at h
  · exact List.mem_of_mem_tail h
  · exact h

omit [DecidableEq ι] in
theorem append_threads (role : Role) (text : String) (ts : ℚ) :
    (portal.append role text ts).threads = portal.threads := by
  unfold Portal.append
  split <;> rfl

omit [DecidableEq ι] in
theorem Inv.append {ts : ℚ} (h : Inv portal) (role : Role) (text : String)
    (hahead : portal.Ahead ts) : Inv (portal.append role text ts) := by
  unfold Portal.append
  cases hsession : portal.session with
  | none => exact h
  | some session =>
      have hsub : (evict session.messages).Sublist session.messages := by
        unfold evict
        split
        · exact List.tail_sublist _
        · exact List.Sublist.refl _
      have hfresh : ∀ message ∈ session.messages, message.serial < portal.serial :=
        h.heldSerials session hsession
      refine ⟨h.received, h.answers, h.apart, h.disjoint, ?_, ?_,
        fun m hm => Nat.lt_succ_of_lt (h.handedSerials m hm), h.since, ?_⟩
      · intro other he
        cases he
        refine List.nodup_append.mpr ⟨(h.held session hsession).sublist hsub,
          List.nodup_singleton _, fun m hm new hnew he => ?_⟩
        have hlt := hfresh m (mem_of_evict hm)
        rw [he, List.mem_singleton.mp hnew] at hlt
        exact Nat.lt_irrefl _ hlt
      · intro other he m hm
        cases he
        cases List.mem_append.mp hm with
        | inl hold => exact Nat.lt_succ_of_lt (hfresh m (mem_of_evict hold))
        | inr hnew =>
            rw [List.mem_singleton.mp hnew]
            exact Nat.lt_succ_self _
      · intro other he m hm
        cases he
        cases List.mem_append.mp hm with
        | inl hold => exact h.ahead session hsession m (mem_of_evict hold)
        | inr hnew =>
            rw [List.mem_singleton.mp hnew]
            exact .inr hahead

-- A poll is answered with messages that nobody was handed, all that are newer among them.
theorem Inv.answer {t : ι} {since : ℚ} {messages : List Message} (h : Inv portal)
    (hasked : portal.threads t = .asked since) (hnodup : messages.Nodup)
    (hnew : ∀ message ∈ messages, ¬ portal.Handed message ∧ message.serial < portal.serial)
    (hall : ∀ session, portal.session = some session →
      ∀ message ∈ session.messages, portal.lastTs < message.ts → message ∈ messages) :
    Inv (portal.set t (.answered messages)) := by
  have hself : ((portal.set t (.answered messages)).threads t).answers = messages := by
    rw [set_threads_self]
    rfl
  have hother : ∀ u, u ≠ t → ((portal.set t (.answered messages)).threads u).answers =
      (portal.threads u).answers := fun u hu => by rw [set_threads_of_ne hu]
  have hkept : ∀ message, portal.Handed message →
      (portal.set t (.answered messages)).Handed message := by
    rintro message (hr | ⟨u, hu⟩)
    · exact .inl hr
    · refine .inr ⟨u, ?_⟩
      by_cases he : u = t
      · rw [he, hasked] at hu
        cases hu
      · rwa [hother u he]
  refine ⟨h.received, ?_, ?_, ?_, h.held, h.heldSerials, ?_, ?_, ?_⟩
  · intro u
    by_cases he : u = t
    · rw [he, hself]
      exact hnodup
    · rw [hother u he]
      exact h.answers u
  · intro u message hm
    by_cases he : u = t
    · rw [he, hself] at hm
      exact fun hr => (hnew message hm).1 (.inl hr)
    · rw [hother u he] at hm
      exact h.apart u message hm
  · intro u v hne message hm hm'
    by_cases heu : u = t
    · rw [heu, hself] at hm
      rw [hother v fun hev => hne (heu.trans hev.symm)] at hm'
      exact (hnew message hm).1 (.inr ⟨v, hm'⟩)
    · rw [hother u heu] at hm
      by_cases hev : v = t
      · rw [hev, hself] at hm'
        exact (hnew message hm').1 (.inr ⟨u, hm⟩)
      · rw [hother v hev] at hm'
        exact h.disjoint u v hne message hm hm'
  · rintro message (hr | ⟨u, hu⟩)
    · exact h.handedSerials message (.inl hr)
    · by_cases he : u = t
      · rw [he, hself] at hu
        exact (hnew message hu).2
      · rw [hother u he] at hu
        exact h.handedSerials message (.inr ⟨u, hu⟩)
  · intro u bound hu
    by_cases he : u = t
    · rw [he, set_threads_self] at hu
      cases hu
    · rw [set_threads_of_ne he] at hu
      exact h.since u bound hu
  · intro session hs message hm
    cases h.ahead session hs message hm with
    | inl hhanded => exact .inl (hkept message hhanded)
    | inr hahead =>
        refine .inl (.inr ⟨t, ?_⟩)
        rw [hself]
        exact hall session hs message hm hahead.1

theorem Inv.serve {t : ι} (h : Inv portal) (hguard : Guarded portal (.serve t))
    (hstep : step portal (.serve t) = some next) : Inv next := by
  simp only [step] at hstep
  split at hstep
  case h_2 => cases hstep
  case h_1 since hasked =>
    split at hstep
    case h_1 hnone =>
      cases hstep
      refine h.answer hasked List.nodup_nil (fun _ hm => nomatch hm) fun session hs => ?_
      cases hs.symm.trans hnone
    case h_2 session hsome =>
      cases hstep
      simp only [Guarded, hasked, hsome] at hguard
      have hanswered : Inv (portal.set t (.answered (session.newer since))) := by
        refine h.answer hasked ((h.held session hsome).sublist List.filter_sublist) ?_ ?_
        · intro message hm
          exact ⟨hguard message hm,
            h.heldSerials session hsome message (List.mem_of_mem_filter hm)⟩
        · intro other hs message hm hlast
          cases hsome.symm.trans hs
          refine List.mem_filter.mpr ⟨hm, ?_⟩
          simpa using lt_of_le_of_lt (h.since t since hasked) hlast
      -- last_seen is no part of it
      refine ⟨hanswered.received, hanswered.answers, hanswered.apart, hanswered.disjoint, ?_, ?_,
        hanswered.handedSerials, hanswered.since, ?_⟩
      · rintro _ ⟨⟩
        exact hanswered.held session hsome
      · rintro _ ⟨⟩
        exact hanswered.heldSerials session hsome
      · rintro _ ⟨⟩
        exact hanswered.ahead session hsome

theorem Inv.receive {t : ι} (h : Inv portal) (hstep : step portal (.receive t) = some next) :
    Inv next := by
  simp only [step] at hstep
  split at hstep
  case h_2 => cases hstep
  case h_1 messages hanswered =>
    cases hstep
    have hmessages : (portal.threads t).answers = messages := by
      rw [hanswered]
      rfl
    have hanswers : ∀ u, ∀ message ∈ (Function.update portal.threads t .idle u).answers,
        u ≠ t ∧ message ∈ (portal.threads u).answers := by
      intro u message hm
      by_cases he : u = t
      · rw [he, Function.update_self] at hm
        cases hm
      · rw [Function.update_of_ne he] at hm
        exact ⟨he, hm⟩
    have hkept : ∀ message, portal.Handed message → message ∈ portal.received ++ messages ∨
        ∃ u, message ∈ (Function.update portal.threads t .idle u).answers := by
      rintro message (hr | ⟨u, hu⟩)
      · exact .inl (List.mem_append_left _ hr)
      · by_cases he : u = t
        · rw [he, hmessages] at hu
          exact .inl (List.mem_append_right _ hu)
        · refine .inr ⟨u, ?_⟩
          rwa [Function.update_of_ne he]
    refine ⟨?_, ?_, ?_, ?_, h.held, h.heldSerials, ?_, ?_, ?_⟩
    · refine List.nodup_append.mpr ⟨h.received, hmessages ▸ h.answers t, fun a ha b hb he => ?_⟩
      rw [← hmessages] at hb
      exact h.apart t b hb (he ▸ ha)
    · intro u
      by_cases he : u = t
      · rw [he]
        simp [Portal.set, Thread.answers]
      · show (Function.update portal.threads t .idle u).answers.Nodup
        rw [Function.update_of_ne he]
        exact h.answers u
    · intro u message hm hr
      obtain ⟨hne, hold⟩ := hanswers u message hm
      cases List.mem_append.mp hr with
      | inl hreceived => exact h.apart u message hold hreceived
      | inr hnew => exact h.disjoint u t hne message hold (hmessages.symm ▸ hnew)
    · exact fun u v hne message hm hm' =>
        h.disjoint u v hne message (hanswers u message hm).2 (hanswers v message hm').2
    · rintro message (hr | ⟨u, hu⟩)
      · cases List.mem_append.mp hr with
        | inl hold => exact h.handedSerials message (.inl hold)
        | inr hnew => exact h.handedSerials message (.inr ⟨t, hmessages.symm ▸ hnew⟩)
      · exact h.handedSerials message (.inr ⟨u, (hanswers u message hu).2⟩)
    · intro u since hu
      have hold : portal.threads u = .asked since := by
        have hupdate : Function.update portal.threads t .idle u = .asked since := hu
        by_cases he : u = t
        · rw [he, Function.update_self] at hupdate
          cases hupdate
        · rwa [Function.update_of_ne he] at hupdate
      exact le_trans (h.since u since hold) (le_advance _ _)
    · intro session hs message hm
      refine (h.ahead session hs message hm).imp (hkept message) fun hahead => ?_
      exact ⟨advance_lt hahead.1 (hmessages ▸ hahead.2 t), fun u other hu =>
        hahead.2 u other (hanswers u other hu).2⟩

theorem Inv.step {event : Event ι} (h : Inv portal) (hguard : Guarded portal event)
    (hstep : step portal event = some next) : Inv next := by
  cases event with
  | tick seconds =>
      simp only [WebPortal.step] at hstep
      split at hstep
      · cases hstep
        exact { h with }
      · cases hstep
  | readClock t text =>
      simp only [WebPortal.step] at hstep
      split at hstep
      case h_2 => cases hstep
      case h_1 session hidle hsession =>
        split at hstep
        · cases hstep
          exact h.set (by rw [hidle]; rfl) rfl fun _ he => by cases he
        · cases hstep
  | append t =>
      simp only [WebPortal.step] at hstep
      split at hstep
      case h_2 => cases hstep
      case h_1 text ts hsending =>
        cases hstep
        simp only [Guarded, hsending] at hguard
        have happended := h.append .user text hguard
        exact happended.set (by rw [append_threads, hsending]; rfl) rfl fun _ he => by cases he
  | deliver_reply text =>
      cases hstep
      exact h.append .assistant text hguard
  | ask t =>
      simp only [WebPortal.step] at hstep
      split at hstep
      case h_2 => cases hstep
      case h_1 hidle =>
        cases hstep
        refine h.set (by rw [hidle]; rfl) rfl fun since he => ?_
        cases he
        exact le_refl _
  | serve t => exact h.serve hguard hstep
  | receive t => exact h.receive hstep
  | expire =>
      simp only [WebPortal.step] at hstep
      split at hstep
      · split at hstep
        · cases hstep
          exact { h with
            held := fun _ hs => by cases hs
            heldSerials := fun _ hs => by cases hs
            ahead := fun _ hs => by cases hs }
        · cases hstep
      · cases hstep

omit [DecidableEq ι] in
theorem not_handed_init (now : ℚ) (message : Message) :
    ¬ (Portal.init now : Portal ι).Handed message := by
  rintro (hr | ⟨t, ht⟩)
  · cases hr
  · cases ht

omit [DecidableEq ι] in
theorem inv_init (now : ℚ) : Inv (Portal.init now : Portal ι) where
  received := List.nodup_nil
  answers _ := List.nodup_nil
  apart _ _ hm := nomatch hm
  disjoint _ _ _ _ hm := nomatch hm
  held := by
    rintro _ ⟨⟩
    exact List.nodup_nil
  heldSerials := by
    rintro _ ⟨⟩ message hm
    cases hm
  handedSerials message hm := absurd hm (not_handed_init now message)
  since _ _ ht := nomatch ht
  ahead := by
    rintro _ ⟨⟩ message hm
    cases hm

-- Polling is complete for as long as stamps come into the session ahead of what the client got.
theorem complete_of_guarded (now : ℚ) (events : List (Event ι))
    (hguard : Along step Guarded (Portal.init now) events) :
    Always step Portal.Complete (Portal.init now) events :=
  hguard.always Inv (fun _ _ _ h hg hstep => h.step hg hstep) (fun _ h => h.complete) (inv_init now)

section Sequential

variable {t : ι} {thread : Thread} {event : Event ι}

-- The client has a poll under way on this thread.
def Thread.Polls : Thread → Prop
  | .asked _ | .answered _ => True
  | _ => False

-- A message is appended with a stamp that the client has not passed, and a poll is sent only while
-- no other is under way.
def Sequential (portal : Portal ι) : Event ι → Prop
  | .append t =>
      match portal.threads t with
      | .sending _ ts => portal.Ahead ts
      | _ => True
  | .deliver_reply _ => portal.Ahead portal.now
  | .ask _ => ∀ u, ¬ (portal.threads u).Polls
  | _ => True

structure OnePoll (portal : Portal ι) : Prop where
  one : ∀ t u, (portal.threads t).Polls → (portal.threads u).Polls → t = u
  since : ∀ t since, portal.threads t = .asked since → since = portal.lastTs
  received : ∀ message ∈ portal.received, message.ts ≤ portal.lastTs

-- What the poll asks for is newer than all that has been handed out.
omit [DecidableEq ι] in
theorem OnePoll.guarded (h : OnePoll portal) (hsequential : Sequential portal event) :
    Guarded portal event := by
  cases event with
  | append t => exact hsequential
  | deliver_reply text => exact hsequential
  | serve t =>
      simp only [Guarded]
      split
      next since session hasked hsession =>
        intro message hm hhanded
        have hnewer : since < message.ts := by simpa using (List.mem_filter.mp hm).2
        rw [h.since t since hasked] at hnewer
        obtain hr | ⟨u, hu⟩ := hhanded
        · exact absurd (h.received message hr) (not_le.mpr hnewer)
        · cases hthread : portal.threads u with
          | answered messages =>
              have htu := h.one t u (by rw [hasked]; trivial) (by rw [hthread]; trivial)
              rw [htu, hthread] at hasked
              cases hasked
          | _ =>
              rw [hthread] at hu
              cases hu
      · trivial
  | _ => trivial

-- The thread is no new poll, or the one that was.
theorem OnePoll.set (h : OnePoll portal) (hpolls : thread.Polls → (portal.threads t).Polls)
    (hasked : ∀ since, thread ≠ .asked since) : OnePoll (portal.set t thread) := by
  have hold : ∀ u, ((portal.set t thread).threads u).Polls → (portal.threads u).Polls := by
    intro u hu
    by_cases he : u = t
    · rw [he, set_threads_self] at hu
      exact he ▸ hpolls hu
    · rwa [set_threads_of_ne he] at hu
  refine ⟨fun u v hu hv => h.one u v (hold u hu) (hold v hv), fun u since hu => ?_, h.received⟩
  by_cases he : u = t
  · rw [he, set_threads_self] at hu
    exact absurd hu (hasked since)
  · rw [set_threads_of_ne he] at hu
    exact h.since u since hu

omit [DecidableEq ι] in
theorem OnePoll.append (h : OnePoll portal) (role : Role) (text : String) (ts : ℚ) :
    OnePoll (portal.append role text ts) := by
  unfold Portal.append
  split
  · exact h
  · exact ⟨h.one, h.since, h.received⟩

theorem OnePoll.ask (h : OnePoll portal) (hsequential : Sequential portal (.ask t)) :
    OnePoll (portal.set t (.asked portal.lastTs)) := by
  have hself : ∀ u, ((portal.set t (.asked portal.lastTs)).threads u).Polls → u = t := by
    intro u hu
    by_contra he
    rw [set_threads_of_ne he] at hu
    exact hsequential u hu
  refine ⟨fun u v hu hv => (hself u hu).trans (hself v hv).symm, fun u since hu => ?_, h.received⟩
  rw [hself u (by rw [hu]; trivial), set_threads_self] at hu
  cases hu
  rfl

-- No other thread has a poll, so none has asked with the old lastTs.
theorem OnePoll.receive {messages : List Message} (h : OnePoll portal)
    (hanswered : portal.threads t = .answered messages) :
    OnePoll ({ portal with
      lastTs := advance portal.lastTs messages
      received := portal.received ++ messages }.set t .idle) := by
  have hset : OnePoll (portal.set t .idle) := h.set (fun hp => hp.elim) fun _ he => by cases he
  refine ⟨hset.one, fun u since hu => ?_, fun message hm => ?_⟩
  · have hasked : (portal.set t .idle).threads u = .asked since := hu
    by_cases he : u = t
    · rw [he, set_threads_self] at hasked
      cases hasked
    · rw [set_threads_of_ne he] at hasked
      exact absurd (h.one u t (by rw [hasked]; trivial) (by rw [hanswered]; trivial)) he
  · cases List.mem_append.mp hm with
    | inl hold => exact le_trans (h.received message hold) (le_advance _ _)
    | inr hnew => exact ts_le_advance _ hnew

theorem OnePoll.step (h : OnePoll portal) (hsequential : Sequential portal event)
    (hstep : step portal event = some next) : OnePoll next := by
  cases event with
  | tick seconds =>
      simp only [WebPortal.step] at hstep
      split at hstep
      · cases hstep
        exact ⟨h.one, h.since, h.received⟩
      · cases hstep
  | readClock t text =>
      simp only [WebPortal.step] at hstep
      split at hstep
      case h_2 => cases hstep
      case h_1 session hidle hsession =>
        split at hstep
        · cases hstep
          exact h.set (fun hp => hp.elim) fun _ he => by cases he
        · cases hstep
  | append t =>
      simp only [WebPortal.step] at hstep
      split at hstep
      case h_2 => cases hstep
      case h_1 text ts hsending =>
        cases hstep
        exact (h.append .user text ts).set (fun hp => hp.elim) fun _ he => by cases he
  | deliver_reply text =>
      cases hstep
      exact h.append .assistant text portal.now
  | ask t =>
      simp only [WebPortal.step] at hstep
      split at hstep
      case h_2 => cases hstep
      case h_1 hidle =>
        cases hstep
        exact h.ask hsequential
  | serve t =>
      simp only [WebPortal.step] at hstep
      split at hstep
      case h_2 => cases hstep
      case h_1 since hasked =>
        have hpolls : (portal.threads t).Polls := by
          rw [hasked]
          trivial
        split at hstep
        case h_1 hnone =>
          cases hstep
          exact h.set (fun _ => hpolls) fun _ he => by cases he
        case h_2 session hsome =>
          cases hstep
          have hset : OnePoll (portal.set t (.answered (session.newer since))) :=
            h.set (fun _ => hpolls) fun _ he => by cases he
          exact ⟨hset.one, hset.since, hset.received⟩
  | receive t =>
      simp only [WebPortal.step] at hstep
      split at hstep
      case h_2 => cases hstep
      case h_1 messages hanswered =>
        cases hstep
        exact h.receive hanswered
  | expire =>
      simp only [WebPortal.step] at hstep
      split at hstep
      · split at hstep
        · cases hstep
          exact ⟨h.one, h.since, h.received⟩
        · cases hstep
      · cases hstep

omit [DecidableEq ι] in
theorem onePoll_init (now : ℚ) : OnePoll (Portal.init now : Portal ι) where
  one _ _ hp := hp.elim
  since _ _ he := nomatch he
  received _ hm := nomatch hm

-- One poll at a time asks for nothing that has been handed out.
theorem complete_of_sequential (now : ℚ) (events : List (Event ι))
    (hsequential : Along step Sequential (Portal.init now) events) :
    Always step Portal.Complete (Portal.init now) events :=
  hsequential.always (fun portal => Inv portal ∧ OnePoll portal)
    (fun _ _ _ h hs hstep => ⟨h.1.step (h.2.guarded hs) hstep, h.2.step hs hstep⟩)
    (fun _ h => h.1.complete) ⟨inv_init now, onePoll_init now⟩

end Sequential

-- What Complete is for: a poll that finds no other under way leaves nothing of the session
-- ungot.
theorem Portal.Complete.poll_gets {t : ι} {asked served : Portal ι} {session : Session}
    (h : portal.Complete) (hsession : portal.session = some session)
    (hquiet : ∀ u, (portal.threads u).answers = [])
    (hask : step portal (.ask t) = some asked) (hserve : step asked (.serve t) = some served)
    (hreceive : step served (.receive t) = some next) :
    ∀ message ∈ session.messages, message ∈ next.received := by
  simp only [step] at hask
  split at hask
  case h_2 => cases hask
  case h_1 hidle =>
    cases hask
    have hsession' : (portal.set t (.asked portal.lastTs)).session = some session := hsession
    simp only [step, set_threads_self, hsession'] at hserve
    cases hserve
    simp only [step, set_threads_self] at hreceive
    cases hreceive
    intro message hm
    cases h.2 session hsession message hm with
    | inl hhanded =>
        obtain hr | ⟨u, hu⟩ := hhanded
        · exact List.mem_append_left _ hr
        · rw [hquiet u] at hu
          cases hu
    | inr hlast =>
        refine List.mem_append_right _ (List.mem_filter.mpr ⟨hm, ?_⟩)
        simpa using hlast

-- Two messages with a poll after each of them.
theorem complete_one_by_one :
    Always step Portal.Complete (Portal.init 1 : Portal Bool)
      [.readClock false "a", .append false, .ask true, .serve true, .receive true, .tick 1,
        .deliver_reply "b", .ask true, .serve true, .receive true] :=
  complete_of_guarded 1 _ (by decide +kernel)

-- A thread reads the clock, a reply comes in and is polled, and only then does the thread append.
def overtaken : List (Event Bool) :=
  [.readClock false "a", .tick 1, .deliver_reply "b", .ask true, .serve true, .receive true,
    .append false]

theorem overtaken_lost : ¬ Always step Portal.Complete (Portal.init 1) overtaken := by
  intro h
  have hsession : (run step (Portal.init 1) overtaken).map
      (fun portal => (portal.session, portal.lastTs, portal.received.map (·.serial),
        portal.threads false, portal.threads true)) =
      some (some ⟨[⟨0, .assistant, "b", 2⟩, ⟨1, .user, "a", 1⟩], 2⟩, 2, [0], .idle, .idle) := by
    decide +kernel
  obtain ⟨final, hrun, hfinal⟩ := Option.map_eq_some_iff.mp hsession
  simp only [Prod.mk.injEq] at hfinal
  obtain ⟨hfinal, hlast, hserials, hfalse, htrue⟩ := hfinal
  cases (h.reached hrun).2 _ hfinal ⟨1, .user, "a", 1⟩ (by simp) with
  | inl hhanded =>
      obtain hr | ⟨t, ht⟩ := hhanded
      · have hserial := List.mem_map_of_mem (f := Message.serial) hr
        rw [hserials] at hserial
        simp at hserial
      · cases t with
        | false => simp [hfalse, Thread.answers] at ht
        | true => simp [htrue, Thread.answers] at ht
  | inr hlt =>
      rw [hlast] at hlt
      exact absurd hlt (by decide)

end EvoClaw.WebPortal
