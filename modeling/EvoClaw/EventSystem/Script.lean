import EvoClaw.EventSystem.Runs

open EventSystem

-- Programs that carry out operations one by one, each of which can be made to fail.
inductive Script (Op : Type → Type) (ε α : Type) : Type 1 where
  | done (result : Except ε α)
  -- A sure operation does not fail from outside.
  | act {β : Type} (sure : Bool) (op : Op β) (next : Except ε β → Script Op ε α)

namespace Script

variable {Op : Type → Type} {ε α β γ σ : Type}

def bind : Script Op ε α → (α → Script Op ε β) → Script Op ε β
  | done (.ok a), f => f a
  | done (.error e), _ => done (.error e)
  | act sure op next, f => act sure op fun answer => (next answer).bind f

instance : Monad (Script Op ε) where
  pure a := done (.ok a)
  bind := bind

def op (o : Op α) : Script Op ε α := act false o done

def fail (e : ε) : Script Op ε α := done (.error e)

def orFail (e : ε) : Option α → Script Op ε α
  | some a => done (.ok a)
  | none => fail e

-- Nothing in it fails from outside.
def surely : Script Op ε α → Script Op ε α
  | done result => done result
  | act _ op next => act true op fun answer => (next answer).surely

-- try: ... except
def tryCatch : Script Op ε α → (ε → Script Op ε α) → Script Op ε α
  | done (.ok a), _ => done (.ok a)
  | done (.error e), handler => handler e
  | act sure op next, handler => act sure op fun answer => (next answer).tryCatch handler

-- try: ... finally
def tryFinally : Script Op ε α → Script Op ε PUnit → Script Op ε α
  | done result, cleanup => cleanup.surely.bind fun _ => done result
  | act sure op next, cleanup => act sure op fun answer => (next answer).tryFinally cleanup

@[simp] theorem pure_eq (a : α) : (pure a : Script Op ε α) = done (.ok a) := rfl

@[simp] theorem bind_eq (x : Script Op ε α) (f : α → Script Op ε β) : x >>= f = x.bind f := rfl

@[simp] theorem done_ok_bind (a : α) (f : α → Script Op ε β) : (done (.ok a)).bind f = f a := rfl

@[simp] theorem done_error_bind (e : ε) (f : α → Script Op ε β) :
    (done (.error e)).bind f = done (.error e) := rfl

theorem surely_bind (x : Script Op ε α) (f : α → Script Op ε β) :
    (x.bind f).surely = x.surely.bind fun a => (f a).surely := by
  induction x with
  | done result => cases result <;> rfl
  | act sure op next ih => simp only [bind, surely, ih]

theorem surely_forM (g : γ → Script Op ε PUnit) (items : List γ) :
    (items.forM g).surely = items.forM fun item => (g item).surely := by
  induction items with
  | nil => rfl
  | cons item items ih => simp only [List.forM, bind_eq, surely_bind, ih]

-- What an operation does, and the errors with which it may fail from outside.
structure Semantics (Op : Type → Type) (ε σ : Type) where
  perform : {β : Type} → Op β → σ → Except ε β × σ
  mayFail : {β : Type} → Op β → ε → Bool

structure Config (Op : Type → Type) (ε α σ : Type) : Type 1 where
  script : Script Op ε α
  state : σ

inductive Event (ε : Type) where
  | proceed
  | fail (error : ε)
deriving DecidableEq

abbrev Guard (Op : Type → Type) (ε σ : Type) : Type 1 :=
  (β : Type) → Op β → Event ε → σ → Prop

variable (sem : Semantics Op ε σ)

-- A step carries out the next operation, or makes it fail.
def step : Config Op ε α σ → Event ε → Option (Config Op ε α σ)
  | ⟨done _, _⟩, _ => none
  | ⟨act _ op next, state⟩, .proceed =>
      some ⟨next (sem.perform op state).1, (sem.perform op state).2⟩
  | ⟨act sure op next, state⟩, .fail e =>
      if sure = false ∧ sem.mayFail op e then some ⟨next (.error e), state⟩ else none

def Guard.onStep (guard : Guard Op ε σ) : Config Op ε α σ → Event ε → Prop
  | ⟨done _, _⟩, _ => True
  | ⟨act _ op _, state⟩, event => guard _ op event state

instance (guard : Guard Op ε σ) [∀ β (op : Op β) event state, Decidable (guard β op event state)]
    (config : Config Op ε α σ) (event : Event ε) : Decidable (guard.onStep config event) :=
  match config with
  | ⟨done _, _⟩ => isTrue trivial
  | ⟨act _ op _, state⟩ => inferInstanceAs (Decidable (guard _ op event state))

section Undisturbed

-- What a script does when nothing fails from outside.
def exec : Script Op ε α → σ → Except ε α × σ
  | done result, state => (result, state)
  | act _ op next, state => exec (next (sem.perform op state).1) (sem.perform op state).2

def undisturbed : Script Op ε α → σ → List (Event ε)
  | done _, _ => []
  | act _ op next, state =>
      .proceed :: undisturbed (next (sem.perform op state).1) (sem.perform op state).2

theorem run_undisturbed (x : Script Op ε α) (state : σ) :
    run (step sem) ⟨x, state⟩ (undisturbed sem x state) =
      some ⟨done (exec sem x state).1, (exec sem x state).2⟩ := by
  induction x generalizing state with
  | done result => rfl
  | act sure op next ih => exact ih _ _

end Undisturbed

section WeakestPrecondition

variable (guard : Guard Op ε σ)

-- Every run from here whose steps meet the guard ends as `post` says, if it ends.
def wp (post : Except ε α → σ → Prop) : Script Op ε α → σ → Prop
  | done result, state => post result state
  | act sure op next, state =>
      (guard _ op .proceed state →
        wp post (next (sem.perform op state).1) (sem.perform op state).2) ∧
      ∀ e, sure = false → sem.mayFail op e → guard _ op (.fail e) state →
        wp post (next (.error e)) state

variable {sem guard} {post weaker : Except ε α → σ → Prop} {x : Script Op ε α} {state : σ}

theorem wp.mono (himp : ∀ result state, post result state → weaker result state)
    (h : wp sem guard post x state) : wp sem guard weaker x state := by
  induction x generalizing state with
  | done result => exact himp result state h
  | act sure op next ih =>
      exact ⟨fun hg => ih _ (h.1 hg), fun e hs hm hg => ih _ (h.2 e hs hm hg)⟩

theorem wp.of_forall (h : ∀ result state, post result state) : wp sem guard post x state := by
  induction x generalizing state with
  | done result => exact h result state
  | act sure op next ih => exact ⟨fun _ => ih _, fun e _ _ _ => ih _⟩

-- What has to hold after `x` for `f` to go on.
def andThen (sem : Semantics Op ε σ) (guard : Guard Op ε σ) (post : Except ε β → σ → Prop)
    (f : α → Script Op ε β) : Except ε α → σ → Prop
  | .ok a, state => wp sem guard post (f a) state
  | .error e, state => post (.error e) state

theorem wp_bind {post : Except ε β → σ → Prop} {f : α → Script Op ε β} :
    wp sem guard post (x.bind f) state ↔
      wp sem guard (andThen sem guard post f) x state := by
  induction x generalizing state with
  | done result => cases result <;> rfl
  | act sure op next ih => simp only [bind, wp, ih]

theorem wp_tryCatch {handler : ε → Script Op ε α} :
    wp sem guard post (x.tryCatch handler) state ↔
      wp sem guard (fun result state =>
        match result with
        | .ok a => post (.ok a) state
        | .error e => wp sem guard post (handler e) state) x state := by
  induction x generalizing state with
  | done result => cases result <;> rfl
  | act sure op next ih => simp only [tryCatch, wp, ih]

theorem wp.surely (h : wp sem guard post x state) : wp sem guard post x.surely state := by
  induction x generalizing state with
  | done result => exact h
  | act sure op next ih =>
      exact ⟨fun hg => ih _ (h.1 hg), fun e hs => absurd hs (by simp)⟩

theorem wp_tryFinally {cleanup : Script Op ε PUnit} :
    wp sem guard post (x.tryFinally cleanup) state ↔
      wp sem guard (fun result state =>
        wp sem guard (andThen sem guard post fun _ => done result) cleanup.surely state) x state := by
  induction x generalizing state with
  | done result => exact wp_bind
  | act sure op next ih => simp only [tryFinally, wp, ih]

-- An operation that does not fail from outside.
theorem wp_sure {o : Op β} {next : Except ε β → Script Op ε α} :
    wp sem guard post (act true o next) state ↔ (guard _ o .proceed state →
      wp sem guard post (next (sem.perform o state).1) (sem.perform o state).2) := by
  simp [wp]

-- A script of which the end is known, before another one.
theorem wp_bind_ok {a : α} {after : σ → Prop} {post : Except ε β → σ → Prop}
    {f : α → Script Op ε β}
    (h : wp sem guard (fun result state => result = .ok a ∧ after state) x state)
    (hf : ∀ state, after state → wp sem guard post (f a) state) :
    wp sem guard post (x.bind f) state := by
  rw [wp_bind]
  refine h.mono ?_
  rintro _ state ⟨rfl, hafter⟩
  exact hf state hafter

-- A run that ends after steps that meet the guard.
theorem wp.always {events : List (Event ε)} (h : wp sem guard post x state)
    (hguard : Along (step sem) guard.onStep ⟨x, state⟩ events) :
    Always (step sem) (fun config => ∀ result, config.script = done result →
      post result config.state) ⟨x, state⟩ events := by
  refine hguard.always (fun config => wp sem guard post config.script config.state) ?_ ?_ h
  · rintro ⟨x, state⟩ event next hwp hg he
    cases x with
    | done result => cases he
    | act sure op k =>
        cases event with
        | proceed =>
            cases he
            exact hwp.1 hg
        | fail e =>
            simp only [step] at he
            split at he
            · rename_i hmay
              cases he
              exact hwp.2 e hmay.1 hmay.2 hg
            · cases he
  · rintro ⟨x, state⟩ hwp result rfl
    exact hwp

end WeakestPrecondition

section Keeping

variable (sem : Semantics Op ε σ) (guard : Guard Op ε σ) (inv : σ → Prop)

-- Along the guard the script keeps the invariant, however it ends.
def Keeps (x : Script Op ε α) : Prop :=
  ∀ state, inv state → wp sem guard (fun _ state => inv state) x state

variable {sem guard inv} {x : Script Op ε α}

namespace Keeps

theorem done (result : Except ε α) : Keeps sem guard inv (done result) := fun _ h => h

theorem bind {f : α → Script Op ε β} (h : Keeps sem guard inv x)
    (hf : ∀ a, Keeps sem guard inv (f a)) : Keeps sem guard inv (x.bind f) := by
  intro state hstate
  rw [wp_bind]
  refine (h state hstate).mono fun result state hstate => ?_
  cases result with
  | ok a => exact hf a state hstate
  | error e => exact hstate

theorem forM {g : γ → Script Op ε PUnit} (items : List γ)
    (h : ∀ item ∈ items, Keeps sem guard inv (g item)) : Keeps sem guard inv (items.forM g) := by
  induction items with
  | nil => exact done _
  | cons item items ih =>
      rw [List.forM]
      exact (h item (by simp)).bind fun _ => ih fun i hi => h i (by simp [hi])

theorem tryCatch {handler : ε → Script Op ε α} (h : Keeps sem guard inv x)
    (hhandler : ∀ e, Keeps sem guard inv (handler e)) :
    Keeps sem guard inv (x.tryCatch handler) := by
  intro state hstate
  rw [wp_tryCatch]
  refine (h state hstate).mono fun result state hstate => ?_
  cases result with
  | ok a => exact hstate
  | error e => exact hhandler e state hstate

theorem ite {c : Prop} [Decidable c] {y : Script Op ε α} (hx : Keeps sem guard inv x)
    (hy : Keeps sem guard inv y) : Keeps sem guard inv (if c then x else y) := by
  split
  · exact hx
  · exact hy

end Keeps

end Keeping

section PartialCorrectness

-- Whatever fails from outside, a result of `x` is as `post` says.
def Yields (sem : Semantics Op ε σ) (post : α → σ → Prop) (x : Script Op ε α) (state : σ) : Prop :=
  wp sem (fun _ _ _ _ => True) (fun result state => ∀ a, result = .ok a → post a state) x state

variable {sem : Semantics Op ε σ} {post weaker : α → σ → Prop} {x : Script Op ε α} {state : σ}

namespace Yields

theorem mono (himp : ∀ a state, post a state → weaker a state) (h : Yields sem post x state) :
    Yields sem weaker x state :=
  wp.mono (fun _ _ hpost a ha => himp a _ (hpost a ha)) h

theorem any (x : Script Op ε α) (state : σ) : Yields sem (fun _ _ => True) x state :=
  wp.of_forall fun _ _ _ _ => trivial

theorem ok {a : α} (h : post a state) : Yields sem post (done (.ok a)) state := by
  rintro b ⟨⟩
  exact h

theorem error (e : ε) : Yields sem post (done (.error e)) state := nofun

theorem bind {post : β → σ → Prop} {f : α → Script Op ε β}
    (h : Yields sem (fun a state => Yields sem post (f a) state) x state) :
    Yields sem post (x.bind f) state := by
  unfold Yields at h ⊢
  rw [wp_bind]
  refine h.mono fun result state hpost => ?_
  cases result with
  | ok a => exact hpost a rfl
  | error e => exact nofun

theorem op {o : Op α}
    (h : ∀ a, (sem.perform o state).1 = .ok a → post a (sem.perform o state).2) :
    Yields sem post (Script.op o) state :=
  ⟨fun _ => h, fun _ _ _ _ => nofun⟩

theorem orFail {e : ε} {a : Option α} (h : ∀ b, a = some b → post b state) :
    Yields sem post (Script.orFail e a) state := by
  cases a with
  | none => exact nofun
  | some b => exact ok (h b rfl)

theorem tryCatch {handler : ε → Script Op ε α} (h : Yields sem post x state)
    (hhandler : ∀ e state, Yields sem post (handler e) state) :
    Yields sem post (x.tryCatch handler) state := by
  unfold Yields at h ⊢
  rw [wp_tryCatch]
  refine h.mono fun result state hpost => ?_
  cases result with
  | ok a => exact hpost
  | error e => exact hhandler e state

theorem surely (h : Yields sem post x state) : Yields sem post x.surely state :=
  wp.surely h

theorem tryFinally {cleanup : Script Op ε PUnit}
    (h : Yields sem (fun a state => Yields sem (fun _ state => post a state) cleanup state) x state) :
    Yields sem post (x.tryFinally cleanup) state := by
  unfold Yields at h ⊢
  rw [wp_tryFinally]
  refine h.mono fun result state hpost => ?_
  cases result with
  | ok a =>
      refine (wp.surely (hpost a rfl)).mono fun result state h => ?_
      cases result with
      | ok _ => exact ok (h _ rfl)
      | error e => exact nofun
  | error e =>
      refine wp.of_forall fun result state => ?_
      cases result with
      | ok _ => exact error e
      | error e => exact nofun

end Yields

-- A run that ends with a result.
theorem Yields.returns {events : List (Event ε)} {a : α} {final : σ} (h : Yields sem post x state)
    (hrun : run (step sem) ⟨x, state⟩ events = some ⟨done (.ok a), final⟩) : post a final := by
  have halways := h.always (along_of_forall (fun config event => ?_) _ events)
  · exact halways.reached hrun (.ok a) rfl a rfl
  · cases config with
    | mk script state => cases script <;> trivial

end PartialCorrectness

section Within

-- Every operation of the script is one of these, whatever the answers are.
def Within (allowed : Bool → (β : Type) → Op β → Prop) : Script Op ε α → Prop
  | done _ => True
  | act sure op next => allowed sure _ op ∧ ∀ answer, Within allowed (next answer)

variable {allowed more : Bool → (β : Type) → Op β → Prop} {x : Script Op ε α}
  {f : α → Script Op ε β}

namespace Within

theorem mono (himp : ∀ sure β (op : Op β), allowed sure β op → more sure β op)
    (h : Within allowed x) : Within more x := by
  induction x with
  | done result => trivial
  | act sure op next ih => exact ⟨himp _ _ _ h.1, fun answer => ih answer (h.2 answer)⟩

theorem bind (h : Within allowed x) (hf : ∀ a, Within allowed (f a)) :
    Within allowed (x.bind f) := by
  induction x with
  | done result =>
      cases result with
      | ok a => exact hf a
      | error e => trivial
  | act sure op next ih => exact ⟨h.1, fun answer => ih answer (h.2 answer)⟩

theorem tryCatch {handler : ε → Script Op ε α} (h : Within allowed x)
    (hhandler : ∀ e, Within allowed (handler e)) : Within allowed (x.tryCatch handler) := by
  induction x with
  | done result =>
      cases result with
      | ok a => trivial
      | error e => exact hhandler e
  | act sure op next ih => exact ⟨h.1, fun answer => ih answer (h.2 answer)⟩

theorem surely (hsure : ∀ sure β (op : Op β), allowed sure β op → allowed true β op)
    (h : Within allowed x) : Within allowed x.surely := by
  induction x with
  | done result => trivial
  | act sure op next ih => exact ⟨hsure _ _ _ h.1, fun answer => ih answer (h.2 answer)⟩

theorem tryFinally {cleanup : Script Op ε PUnit} (h : Within allowed x)
    (hcleanup : Within allowed cleanup.surely) : Within allowed (x.tryFinally cleanup) := by
  induction x with
  | done result => exact hcleanup.bind fun _ => trivial
  | act sure op next ih => exact ⟨h.1, fun answer => ih answer (h.2 answer)⟩

theorem forM {γ : Type} {g : γ → Script Op ε PUnit} (items : List γ)
    (h : ∀ item ∈ items, Within allowed (g item)) : Within allowed (items.forM g) := by
  induction items with
  | nil => trivial
  | cons item items ih =>
      rw [List.forM]
      exact (h item (by simp)).bind fun _ => ih fun i hi => h i (by simp [hi])

theorem ite {c : Prop} [Decidable c] {y : Script Op ε α} (hx : Within allowed x)
    (hy : Within allowed y) : Within allowed (if c then x else y) := by
  split
  · exact hx
  · exact hy

theorem op {o : Op α} (h : allowed false α o) : Within allowed (op o : Script Op ε α) :=
  ⟨h, fun _ => trivial⟩

theorem orFail (e : ε) (a : Option α) : Within allowed (orFail e a : Script Op ε α) := by
  cases a <;> trivial

variable {sem : Semantics Op ε σ} {guard : Guard Op ε σ} {inv : σ → Prop} {state : σ}

-- What every operation of a script keeps, the script keeps.
theorem wp (h : Within allowed x)
    (hkeep : ∀ sure β (op : Op β) state, allowed sure β op → inv state →
      guard β op .proceed state → inv (sem.perform op state).2)
    (hinv : inv state) : Script.wp sem guard (fun _ state => inv state) x state := by
  induction x generalizing state with
  | done result => exact hinv
  | act sure op next ih =>
      exact ⟨fun hg => ih _ (h.2 _) (hkeep _ _ op state h.1 hinv hg),
        fun e _ _ _ => ih _ (h.2 _) hinv⟩

theorem keeps (h : Within allowed x)
    (hkeep : ∀ sure β (op : Op β) state, allowed sure β op → inv state →
      guard β op .proceed state → inv (sem.perform op state).2) : Keeps sem guard inv x :=
  fun _ hinv => h.wp hkeep hinv

theorem yields (h : Within allowed x)
    (hkeep : ∀ sure β (op : Op β) state, allowed sure β op → inv state →
      inv (sem.perform op state).2)
    (hinv : inv state) : Yields sem (fun _ state => inv state) x state :=
  (h.wp (fun sure β op state ha hs _ => hkeep sure β op state ha hs) hinv).mono
    fun _ _ hs _ _ => hs

end Within

end Within

end Script

-- What holds of every operation that a script carries out, in every run of it.
namespace Script

open EventSystem

variable {Op : Type → Type} {ε α β σ : Type}

-- The state is the one that the operation begins in.
def Throughout (sem : Semantics Op ε σ) (holds : {β : Type} → Op β → σ → Prop) :
    Script Op ε α → σ → Prop
  | done _, _ => True
  | act sure op next, state => holds op state ∧
      Throughout sem holds (next (sem.perform op state).1) (sem.perform op state).2 ∧
      ∀ e, sure = false → sem.mayFail op e → Throughout sem holds (next (.error e)) state

-- An operation that is carried out, and does not fail from outside, is as `holds` says.
def Performs (holds : {β : Type} → Op β → σ → Prop) : Guard Op ε σ :=
  fun _ op event state => event = .proceed → holds op state

variable {sem : Semantics Op ε σ} {holds : {β : Type} → Op β → σ → Prop} {x : Script Op ε α}
  {state : σ}

theorem throughout_iff :
    (∀ events, Along (step sem) (Performs holds).onStep ⟨x, state⟩ events) ↔
      Throughout sem holds x state := by
  induction x generalizing state with
  | done result =>
      refine iff_of_true (fun events => ?_) trivial
      cases events with
      | nil => trivial
      | cons event rest => exact along_cons_of_none rfl
  | act sure op next ih =>
      refine ⟨fun h => ⟨?_, (ih _).mp fun events => ?_, fun e hsure hmay => (ih _).mp fun events => ?_⟩,
        fun h events => ?_⟩
      · exact ((along_cons_of_step rfl).mp (h [.proceed])).1 rfl
      · exact ((along_cons_of_step rfl).mp (h (.proceed :: events))).2
      · refine ((along_cons_of_step ?_).mp (h (.fail e :: events))).2
        exact if_pos ⟨hsure, hmay⟩
      · cases events with
        | nil => trivial
        | cons event rest =>
            cases event with
            | proceed =>
                exact (along_cons_of_step rfl).mpr ⟨fun _ => h.1, (ih _).mpr h.2.1 rest⟩
            | fail e =>
                by_cases hmay : sure = false ∧ sem.mayFail op e
                · refine (along_cons_of_step (if_pos hmay)).mpr ⟨nofun, ?_⟩
                  exact (ih _).mpr (h.2.2 e hmay.1 hmay.2) rest
                · exact along_cons_of_none (if_neg hmay)

namespace Throughout

theorem bind {f : α → Script Op ε β} (h : Throughout sem holds x state)
    (hf : ∀ a state, Throughout sem holds (f a) state) : Throughout sem holds (x.bind f) state := by
  induction x generalizing state with
  | done result =>
      cases result with
      | ok a => exact hf a state
      | error e => trivial
  | act sure op next ih =>
      exact ⟨h.1, ih _ h.2.1, fun e hsure hmay => ih _ (h.2.2 e hsure hmay)⟩

theorem tryCatch {handler : ε → Script Op ε α} (h : Throughout sem holds x state)
    (hhandler : ∀ e state, Throughout sem holds (handler e) state) :
    Throughout sem holds (x.tryCatch handler) state := by
  induction x generalizing state with
  | done result =>
      cases result with
      | ok a => trivial
      | error e => exact hhandler e state
  | act sure op next ih =>
      exact ⟨h.1, ih _ h.2.1, fun e hsure hmay => ih _ (h.2.2 e hsure hmay)⟩

theorem of_tryCatch {handler : ε → Script Op ε α}
    (h : Throughout sem holds (x.tryCatch handler) state) : Throughout sem holds x state := by
  induction x generalizing state with
  | done result => trivial
  | act sure op next ih =>
      exact ⟨h.1, ih _ h.2.1, fun e hsure hmay => ih _ (h.2.2 e hsure hmay)⟩

theorem of_bind {f : α → Script Op ε β} (h : Throughout sem holds (x.bind f) state) :
    Throughout sem holds x state := by
  induction x generalizing state with
  | done result => trivial
  | act sure op next ih =>
      exact ⟨h.1, ih _ h.2.1, fun e hsure hmay => ih _ (h.2.2 e hsure hmay)⟩

-- What follows the run in which nothing fails from outside.
theorem behind {f : α → Script Op ε β} (h : Throughout sem holds (x.bind f) state) {a : α}
    {after : σ} (hexec : exec sem x state = (.ok a, after)) : Throughout sem holds (f a) after := by
  induction x generalizing state with
  | done result =>
      cases hexec
      exact h
  | act sure op next ih => exact ih _ h.2.1 hexec

end Throughout

-- A handler that always has a result leaves no error.
theorem exec_tryCatch_ok {handler : ε → Script Op ε α} {b : α} (hhandler : ∀ e, handler e = done (.ok b)) :
    ∃ a, (exec sem (x.tryCatch handler) state).1 = .ok a := by
  induction x generalizing state with
  | done result =>
      cases result with
      | ok a => exact ⟨a, rfl⟩
      | error e =>
          rw [Script.tryCatch, hhandler]
          exact ⟨b, rfl⟩
  | act sure op next ih => exact ih _

end Script
