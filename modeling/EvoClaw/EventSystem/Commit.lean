import EvoClaw.EventSystem.Script

-- Scripts that take effect with one operation, and are to leave everything as it was if they do
-- not get there.
namespace Script

open EventSystem

variable {Op : Type → Type} {ε α β σ : Type}

-- The script can be made to end in this way by failures only.
def Fails (sem : Semantics Op ε σ) (kept : σ → σ → Prop) (bad : Except ε α → Prop) :
    Script Op ε α → Prop
  | done result => bad result
  | act false op next => ∃ e, sem.mayFail op e ∧ Fails sem kept bad (next (.error e))
  | act true op next =>
      (∀ state, kept state (sem.perform op state).2) ∧ ∀ answer, Fails sem kept bad (next answer)

-- Nothing but a good end is left.
def Settled (sem : Semantics Op ε σ) (good : α → Prop) : Script Op ε α → Prop
  | done (.ok a) => good a
  | done (.error _) => False
  | act sure op next => sure = true ∧
      ∀ state, ∃ a, sem.perform op state = (.ok a, state) ∧ Settled sem good (next (.ok a))

-- The script can still go wrong after every operation that changes something, except after one
-- that commits.
inductive Exposed (sem : Semantics Op ε σ) (kept : σ → σ → Prop)
    (commits : (β : Type) → Op β → Prop) (good : α → Prop) : Script Op ε α → Prop
  | done (result : Except ε α) : Exposed sem kept commits good (done result)
  | calm {β : Type} {sure : Bool} {op : Op β} {next : Except ε β → Script Op ε α}
      (hcalm : ∀ state, kept state (sem.perform op state).2)
      (hnext : ∀ answer, Exposed sem kept commits good (next answer)) :
      Exposed sem kept commits good (act sure op next)
  | change {β : Type} {sure : Bool} {op : Op β} {next : Except ε β → Script Op ε α}
      (hcommits : ¬ commits β op)
      (hfails : ∀ answer, Fails sem kept (fun result => ∀ a, result = .ok a → ¬ good a) (next answer))
      (hnext : ∀ answer, Exposed sem kept commits good (next answer)) :
      Exposed sem kept commits good (act sure op next)
  | commit {β : Type} {sure : Bool} {op : Op β} {next : Except ε β → Script Op ε α}
      (hcommits : commits β op)
      (herror : ∀ e, Exposed sem kept commits good (next (.error e)))
      (hok : ∀ state, ∃ a, (sem.perform op state).1 = .ok a ∧ Settled sem good (next (.ok a))) :
      Exposed sem kept commits good (act sure op next)

-- The operation changes nothing that is to be kept, or commits.
def Idle (sem : Semantics Op ε σ) (kept : σ → σ → Prop) (commits : (β : Type) → Op β → Prop) :
    Guard Op ε σ
  | _, op, .proceed, state => commits _ op ∨ kept state (sem.perform op state).2
  | _, _, .fail _, _ => True

-- A script that has ended without a good result has kept everything.
def KeptUnlessGood (kept : σ → σ → Prop) (good : α → Prop) (start : σ)
    (config : Config Op ε α σ) : Prop :=
  ∀ result, config.script = done result → (∀ a, result = .ok a → ¬ good a) →
    kept start config.state

variable {sem : Semantics Op ε σ} {kept : σ → σ → Prop} {commits : (β : Type) → Op β → Prop}

section Failing

variable {bad : Except ε α → Prop} {x : Script Op ε α}

namespace Fails

theorem bind {bad : Except ε β → Prop} {f : α → Script Op ε β}
    (h : Fails sem kept (fun result => match result with
      | .ok a => Fails sem kept bad (f a)
      | .error e => bad (.error e)) x) :
    Fails sem kept bad (x.bind f) := by
  induction x with
  | done result => cases result <;> exact h
  | act sure op next ih =>
      cases sure with
      | false =>
          obtain ⟨e, hmay, hfails⟩ := h
          exact ⟨e, hmay, ih _ hfails⟩
      | true => exact ⟨h.1, fun answer => ih answer (h.2 answer)⟩

-- Failures alone lead to some end.
theorem of_within (h : Within (fun sure _ op => sure = false ∧ ∃ e, sem.mayFail op e) x)
    (hbad : ∀ result, bad result) : Fails sem kept bad x := by
  induction x with
  | done result => exact hbad result
  | act sure op next ih =>
      obtain ⟨rfl, e, hmay⟩ := h.1
      exact ⟨e, hmay, ih _ (h.2 _)⟩

theorem op_bind {o : Op α} {e : ε} {f : α → Script Op ε β} {bad : Except ε β → Prop}
    (hmay : sem.mayFail o e) (hbad : bad (.error e)) :
    Fails sem kept bad ((op o).bind f) :=
  ⟨e, hmay, hbad⟩

theorem tryFinally {cleanup : Script Op ε PUnit} (h : Fails sem kept bad x)
    (hcleanup : Fails sem kept (fun _ => True) cleanup.surely) (herror : ∀ e, bad (.error e)) :
    Fails sem kept bad (x.tryFinally cleanup) := by
  induction x with
  | done result =>
      refine bind ?_
      generalize cleanup.surely = script at hcleanup
      induction script with
      | done ended =>
          cases ended with
          | ok _ => exact h
          | error e => exact herror e
      | act sure op next ih =>
          cases sure with
          | false =>
              obtain ⟨e, hmay, hfails⟩ := hcleanup
              exact ⟨e, hmay, ih _ hfails⟩
          | true => exact ⟨hcleanup.1, fun answer => ih answer (hcleanup.2 answer)⟩
  | act sure op next ih =>
      cases sure with
      | false =>
          obtain ⟨e, hmay, hfails⟩ := h
          exact ⟨e, hmay, ih _ hfails⟩
      | true => exact ⟨h.1, fun answer => ih answer (h.2 answer)⟩

-- The failures, as a run.
theorem reaches (hkept : Equivalence kept) (h : Fails sem kept bad x) (state : σ) :
    ∃ events result final, run (step sem) ⟨x, state⟩ events = some ⟨done result, final⟩ ∧
      bad result ∧ kept state final := by
  induction x generalizing state with
  | done result => exact ⟨[], result, state, rfl, h, hkept.refl state⟩
  | act sure op next ih =>
      cases sure with
      | false =>
          obtain ⟨e, hmay, hfails⟩ := h
          obtain ⟨events, result, final, hrun, hbad, hfinal⟩ := ih _ hfails state
          refine ⟨.fail e :: events, result, final, ?_, hbad, hfinal⟩
          rw [@run_cons_of_step _ _ _ _ ⟨next (.error e), state⟩]
          · exact hrun
          · simp [step, hmay]
      | true =>
          obtain ⟨events, result, final, hrun, hbad, hfinal⟩ :=
            ih _ (h.2 _) (sem.perform op state).2
          exact ⟨.proceed :: events, result, final, hrun, hbad, hkept.trans (h.1 state) hfinal⟩

end Fails

end Failing

section Exposing

variable {good : α → Prop} {x : Script Op ε α}

-- A script whose operations can all fail, before one that can.
theorem Exposed.bind {good : β → Prop} {f : α → Script Op ε β}
    (h : Within (fun sure _ op => sure = false ∧ (∃ e, sem.mayFail op e) ∧ ¬ commits _ op) x)
    (hfails : ∀ a, Fails sem kept (fun result => ∀ b, result = .ok b → ¬ good b) (f a))
    (hf : ∀ a, Exposed sem kept commits good (f a)) :
    Exposed sem kept commits good (x.bind f) := by
  induction x with
  | done result =>
      cases result with
      | ok a => exact hf a
      | error e => exact .done _
  | act sure op next ih =>
      refine .change h.1.2.2 (fun answer => .bind (.of_within ((h.2 answer).mono ?_) ?_))
        fun answer => ih answer (h.2 answer)
      · exact fun _ _ _ hop => ⟨hop.1, hop.2.1⟩
      · rintro (e | a)
        · exact fun _ => nofun
        · exact hfails a

-- A script that changes nothing.
theorem Exposed.bind_calm {good : β → Prop} {f : α → Script Op ε β}
    (h : Within (fun _ _ op => ∀ state, kept state (sem.perform op state).2) x)
    (hf : ∀ a, Exposed sem kept commits good (f a)) :
    Exposed sem kept commits good (x.bind f) := by
  induction x with
  | done result =>
      cases result with
      | ok a => exact hf a
      | error e => exact .done _
  | act sure op next ih => exact .calm h.1 fun answer => ih answer (h.2 answer)

theorem Settled.tryFinally {cleanup : Script Op ε PUnit} (h : Settled sem good x)
    (hcleanup : Settled sem (fun _ => True) cleanup.surely) :
    Settled sem good (x.tryFinally cleanup) := by
  induction x with
  | done result =>
      rw [Script.tryFinally]
      generalize cleanup.surely = script at hcleanup
      induction script with
      | done ended =>
          cases ended with
          | ok _ => exact h
          | error e => exact hcleanup.elim
      | act sure op next ih =>
          refine ⟨hcleanup.1, fun state => ?_⟩
          obtain ⟨a, hperform, hnext⟩ := hcleanup.2 state
          exact ⟨a, hperform, ih _ hnext⟩
  | act sure op next ih =>
      refine ⟨h.1, fun state => ?_⟩
      obtain ⟨a, hperform, hnext⟩ := h.2 state
      exact ⟨a, hperform, ih _ hnext⟩

theorem Exposed.tryFinally {cleanup : Script Op ε PUnit}
    (h : Exposed sem kept commits good x)
    (hcalm : Within (fun _ _ op => ∀ state, kept state (sem.perform op state).2) cleanup.surely)
    (hfails : Fails sem kept (fun _ => True) cleanup.surely)
    (hcleanup : Settled sem (fun _ => True) cleanup.surely) :
    Exposed sem kept commits good (x.tryFinally cleanup) := by
  induction h with
  | done result => exact .bind_calm hcalm fun _ => .done result
  | calm hop _ ih => exact .calm hop ih
  | change hcommits hafter _ ih =>
      exact .change hcommits (fun answer => (hafter answer).tryFinally hfails fun e => nofun) ih
  | commit hcommits _ hok ih =>
      refine .commit hcommits ih fun state => ?_
      obtain ⟨a, hperform, hsettled⟩ := hok state
      exact ⟨a, hperform, hsettled.tryFinally hcleanup⟩

end Exposing

section Exactness

variable {good : α → Prop} {x : Script Op ε α} {start state : σ}

theorem Settled.wp {guard : Guard Op ε σ} {post : Except ε α → σ → Prop}
    (h : Settled sem good x) (hpost : ∀ a state, good a → post (.ok a) state) :
    wp sem guard post x state := by
  induction x generalizing state with
  | done result =>
      cases result with
      | ok a => exact hpost a state h
      | error e => exact h.elim
  | act sure op next ih =>
      obtain ⟨rfl, hnext⟩ := h
      obtain ⟨a, hperform, hsettled⟩ := hnext state
      refine ⟨fun _ => ?_, fun e hsure => absurd hsure (by simp)⟩
      rw [hperform]
      exact ih _ hsettled

-- While every operation is idle, nothing is lost before the commitment.
theorem Exposed.wp (hkept : Equivalence kept) (h : Exposed sem kept commits good x)
    (hstart : kept start state) :
    wp sem (Idle sem kept commits)
      (fun result after => (∀ a, result = .ok a → ¬ good a) → kept start after) x state := by
  induction h generalizing state with
  | done result => exact fun _ => hstart
  | calm hcalm _ ih =>
      exact ⟨fun _ => ih _ (hkept.trans hstart (hcalm state)), fun e _ _ _ => ih _ hstart⟩
  | change hcommits _ _ ih =>
      refine ⟨fun hidle => ih _ (hkept.trans hstart ?_), fun e _ _ _ => ih _ hstart⟩
      exact hidle.resolve_left hcommits
  | commit _ _ hok ih =>
      refine ⟨fun _ => ?_, fun e _ _ _ => ih _ hstart⟩
      obtain ⟨a, hperform, hsettled⟩ := hok state
      rw [hperform]
      exact hsettled.wp fun a _ hgood hbad => absurd hgood (hbad a rfl)

theorem Settled.idle (hkept : Equivalence kept) (h : Settled sem good x)
    (events : List (Event ε)) :
    Along (step sem) (Idle sem kept commits).onStep ⟨x, state⟩ events := by
  induction events generalizing x state with
  | nil => trivial
  | cons event events ih =>
      cases x with
      | done result => trivial
      | act sure op next =>
          obtain ⟨rfl, hnext⟩ := h
          obtain ⟨a, hperform, hsettled⟩ := hnext state
          cases event with
          | proceed =>
              have hstep : step sem ⟨act true op next, state⟩ .proceed =
                  some ⟨next (.ok a), state⟩ := by
                simp [step, hperform]
              rw [along_cons_of_step hstep]
              refine ⟨.inr ?_, ih hsettled⟩
              rw [hperform]
              exact hkept.refl state
          | fail e => exact along_cons_of_none (by simp [step])

theorem along_fail {guard : Guard Op ε σ} {sure : Bool} {o : Op β} {e : ε}
    {next : Except ε β → Script Op ε α} {events : List (Event ε)}
    (hguard : guard β o (.fail e) state)
    (h : step sem ⟨act sure o next, state⟩ (.fail e) = some ⟨next (.error e), state⟩ →
      Along (step sem) guard.onStep ⟨next (.error e), state⟩ events) :
    Along (step sem) guard.onStep ⟨act sure o next, state⟩ (.fail e :: events) := by
  by_cases hmay : sure = false ∧ sem.mayFail o e
  · have hstep : step sem ⟨act sure o next, state⟩ (.fail e) = some ⟨next (.error e), state⟩ :=
      if_pos hmay
    exact (along_cons_of_step hstep).mpr ⟨hguard, h hstep⟩
  · exact along_cons_of_none (if_neg hmay)

-- Any other operation that changes something can be followed by failures only.
theorem Exposed.idle (hkept : Equivalence kept) (h : Exposed sem kept commits good x)
    (hstart : kept start state)
    (halways : ∀ events, Always (step sem) (KeptUnlessGood kept good start) ⟨x, state⟩ events)
    (events : List (Event ε)) :
    Along (step sem) (Idle sem kept commits).onStep ⟨x, state⟩ events := by
  induction h generalizing state events with
  | done result => cases events <;> trivial
  | @calm β sure op next hcalm hnext ih =>
      cases events with
      | nil => trivial
      | cons event events =>
          cases event with
          | proceed =>
              refine ⟨.inr (hcalm state), ih _ (hkept.trans hstart (hcalm state)) ?_ events⟩
              exact fun more => (halways (.proceed :: more)).2
          | fail e =>
              refine along_fail trivial fun hstep => ih _ hstart (fun more => ?_) events
              exact ((always_cons_of_step hstep).mp (halways (.fail e :: more))).2
  | @change β sure op next hcommits hfails hnext ih =>
      cases events with
      | nil => trivial
      | cons event events =>
          cases event with
          | proceed =>
              have hchanged : kept state (sem.perform op state).2 := by
                obtain ⟨more, result, final, hrun, hbad, hfinal⟩ :=
                  (hfails (sem.perform op state).1).reaches hkept (sem.perform op state).2
                have hlast : kept start final :=
                  (halways (.proceed :: more)).reached hrun result rfl hbad
                exact hkept.trans (hkept.trans (hkept.symm hstart) hlast) (hkept.symm hfinal)
              refine ⟨.inr hchanged, ih _ (hkept.trans hstart hchanged) ?_ events⟩
              exact fun more => (halways (.proceed :: more)).2
          | fail e =>
              refine along_fail trivial fun hstep => ih _ hstart (fun more => ?_) events
              exact ((always_cons_of_step hstep).mp (halways (.fail e :: more))).2
  | @commit β sure op next hcommits herror hok ih =>
      cases events with
      | nil => trivial
      | cons event events =>
          cases event with
          | proceed =>
              obtain ⟨a, hperform, hsettled⟩ := hok state
              have hstep : step sem ⟨act sure op next, state⟩ .proceed =
                  some ⟨next (.ok a), (sem.perform op state).2⟩ := by
                simp [step, hperform]
              rw [along_cons_of_step hstep]
              exact ⟨.inl hcommits, hsettled.idle hkept events⟩
          | fail e =>
              refine along_fail trivial fun hstep => ih _ hstart (fun more => ?_) events
              exact ((always_cons_of_step hstep).mp (halways (.fail e :: more))).2

-- Every run keeps everything unless it ends well, exactly if every operation that does not
-- commit is idle in every run.
theorem Exposed.kept_iff_idle (hkept : Equivalence kept) (h : Exposed sem kept commits good x)
    (state : σ) :
    (∀ events, Always (step sem) (KeptUnlessGood kept good state) ⟨x, state⟩ events) ↔
      ∀ events, Along (step sem) (Idle sem kept commits).onStep ⟨x, state⟩ events :=
  ⟨fun halways => h.idle hkept (hkept.refl state) halways,
    fun hidle events => (h.wp hkept (hkept.refl state)).always (hidle events)⟩

end Exactness

end Script
