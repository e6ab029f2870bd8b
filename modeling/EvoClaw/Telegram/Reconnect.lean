import EvoClaw.EventSystem.Runs
import EvoClaw.Telegram.Watchdog

namespace EvoClaw.Telegram

open EventSystem

variable {watchdog next : Watchdog} {await : Await}

-- The coroutine ends only after a connect that succeeded, after an error that connecting again
-- does not help, or after a disconnect by another task.
def Watchdog.EndedWell (watchdog : Watchdog) : Prop :=
  ∀ reason, watchdog.pc = .ended reason →
    reason = .connected ∨ reason = .unrecoverable ∨ watchdog.disconnected = true

-- The check after the sleep does not find the application or its updater stopped, unless
-- another task has called disconnect.
def Guarded (watchdog : Watchdog) : Event → Prop
  | .resume _ =>
      watchdog.pc = .sleeping → watchdog.disconnected = true ∨
        watchdog.app.all App.isHealthy = true
  | _ => True

instance (watchdog : Watchdog) : ∀ event, Decidable (Guarded watchdog event)
  | .resume _ => inferInstanceAs (Decidable (_ → _))
  | .stop _ _ | .cancelSelf _ | .reconnect _ _ | .disconnect | .teardown => isTrue trivial

-- In the reconnect loop, or ended by it.
def Pc.reconnects : Pc → Bool
  | .reconnecting _ | .backingOff _ | .ended .connected | .ended .unrecoverable => true
  | .head | .sleeping | .disconnecting _ | .ended .appGone | .ended .cancelled => false

-- A step leaves the flag of the other tasks' disconnect set, and nothing outside of the
-- reconnect loop leads into it.
structure Kept (watchdog next : Watchdog) : Prop where
  disconnected : watchdog.disconnected = true → next.disconnected = true
  reconnects : next.pc.reconnects = true → watchdog.pc.reconnects = true

theorem Kept.of_pc (hdisconnected : next.disconnected = watchdog.disconnected)
    (hpc : next.pc.reconnects = false) : Kept watchdog next :=
  ⟨fun h => hdisconnected.trans h, fun h => by rw [hpc] at h; cases h⟩

theorem settle_disconnected (watchdog : Watchdog) (await : Await) :
    (watchdog.settle await).1.disconnected = watchdog.disconnected := by
  unfold Watchdog.settle
  split
  · rfl
  · split <;> rfl

theorem kept_resume (hstep : step watchdog (.resume await) = some next) : Kept watchdog next := by
  have hsettle := settle_disconnected watchdog await
  simp only [step] at hstep
  split at hstep
  case h_1 => split at hstep <;> cases hstep <;> exact .of_pc rfl rfl
  case h_2 =>
    split at hstep
    · cases hstep
      exact .of_pc rfl rfl
    · split at hstep
      · cases hstep
        exact .of_pc rfl rfl
      · split at hstep <;> cases hstep <;> exact .of_pc rfl rfl
  case h_3 => cases hstep
  -- updater.stop and shutdown let a cancellation through, app.stop does not
  case h_4 => split at hstep <;> rename_i he <;> rw [he] at hsettle <;> cases hstep <;>
    exact .of_pc hsettle rfl
  case h_5 =>
    cases hstep
    exact .of_pc hsettle rfl
  case h_6 => split at hstep <;> rename_i he <;> rw [he] at hsettle <;> cases hstep <;>
    exact .of_pc hsettle rfl
  case h_7 => cases hstep
  case h_8 backoff hpc => split at hstep <;> cases hstep <;> exact ⟨id, fun _ => by rw [hpc]; rfl⟩
  case h_9 => cases hstep

theorem kept_step {event : Event} (hstep : step watchdog event = some next) :
    Kept watchdog next := by
  cases event with
  | stop app updater =>
      cases hstep
      exact ⟨id, id⟩
  | resume await => exact kept_resume hstep
  | cancelSelf takesUp =>
      simp only [step] at hstep
      split at hstep
      · split at hstep <;> cases hstep <;> split <;> exact .of_pc rfl rfl
      · cases hstep
  | reconnect attempts suspends =>
      simp only [step] at hstep
      split at hstep
      case h_2 => cases hstep
      case h_1 backoff hpc =>
        have hfrom : watchdog.pc.reconnects = true := by rw [hpc]; rfl
        split at hstep
        · cases hstep
          exact ⟨id, fun _ => hfrom⟩
        · split at hstep
          · cases hstep
            exact ⟨id, fun _ => hfrom⟩
          · split at hstep
            · cases hstep
              exact ⟨id, fun _ => hfrom⟩
            · split at hstep <;> cases hstep <;> exact ⟨id, fun _ => hfrom⟩
  | disconnect =>
      cases hstep
      exact ⟨fun _ => rfl, id⟩
  | teardown =>
      simp only [step] at hstep
      split at hstep
      · cases hstep
        exact ⟨id, id⟩
      · cases hstep

-- Until another task disconnects, the watchdog sleeps and wakes.
structure Undisturbed (watchdog : Watchdog) : Prop where
  app : watchdog.app.isSome
  cancelling : watchdog.cancelling = false
  pc : watchdog.pc = .head ∨ watchdog.pc = .sleeping

def Inv (watchdog : Watchdog) : Prop := watchdog.disconnected = true ∨ Undisturbed watchdog

theorem Undisturbed.resume (h : Undisturbed watchdog)
    (hhealthy : watchdog.pc = .sleeping → watchdog.app.all App.isHealthy = true)
    (hstep : step watchdog (.resume await) = some next) : Undisturbed next := by
  obtain ⟨app, happ⟩ := Option.isSome_iff_exists.mp h.app
  cases h.pc with
  | inl hpc =>
      simp only [step, hpc, happ] at hstep
      cases hstep
      exact ⟨rfl, h.cancelling, .inr rfl⟩
  | inr hpc =>
      have hok : app.isHealthy = true := by
        have hall := hhealthy hpc
        rwa [happ] at hall
      simp only [step, hpc, happ, h.cancelling] at hstep
      rw [if_neg (by simp), if_pos hok] at hstep
      cases hstep
      exact ⟨rfl, rfl, .inl rfl⟩

theorem Undisturbed.no_disconnecting (h : Undisturbed watchdog) {stage : Stage} :
    watchdog.pc ≠ .disconnecting stage := by
  intro he
  cases h.pc with
  | inl hpc => cases hpc.symm.trans he
  | inr hpc => cases hpc.symm.trans he

theorem Undisturbed.no_reconnecting (h : Undisturbed watchdog) {backoff : Nat} :
    watchdog.pc ≠ .reconnecting backoff := by
  intro he
  cases h.pc with
  | inl hpc => cases hpc.symm.trans he
  | inr hpc => cases hpc.symm.trans he

theorem inv_step {event : Event} (h : Inv watchdog) (hguard : Guarded watchdog event)
    (hstep : step watchdog event = some next) : Inv next := by
  by_cases hdisconnected : watchdog.disconnected = true
  · exact .inl ((kept_step hstep).disconnected hdisconnected)
  · have hu : Undisturbed watchdog := h.resolve_left hdisconnected
    cases event with
    | stop app updater =>
        cases hstep
        exact .inr ⟨by simpa using hu.app, hu.cancelling, hu.pc⟩
    | resume await =>
        exact .inr (hu.resume (fun hpc => (hguard hpc).resolve_left hdisconnected) hstep)
    | cancelSelf takesUp =>
        simp only [step] at hstep
        split at hstep
        case h_1 hpc => exact absurd hpc hu.no_disconnecting
        case h_2 => cases hstep
    | reconnect attempts suspends =>
        simp only [step] at hstep
        split at hstep
        case h_1 hpc => exact absurd hpc hu.no_reconnecting
        case h_2 => cases hstep
    | disconnect =>
        cases hstep
        exact .inl rfl
    | teardown =>
        simp only [step, hdisconnected] at hstep
        simp at hstep

theorem endedWell_of_inv (h : Inv watchdog) : watchdog.EndedWell := by
  intro reason hpc
  cases h with
  | inl hdisconnected => exact .inr (.inr hdisconnected)
  | inr hu =>
      cases hu.pc with
      | inl hhead => cases hhead.symm.trans hpc
      | inr hsleeping => cases hsleeping.symm.trans hpc

-- As long as it never finds the updater dead, the watchdog ends well.
theorem endedWell_of_guarded (events : List Event)
    (hguard : Along step Guarded Watchdog.started events) :
    Always step Watchdog.EndedWell Watchdog.started events :=
  hguard.always Inv (fun _ _ _ h hg hstep => inv_step h hg hstep) (fun _ h => endedWell_of_inv h)
    (.inr ⟨rfl, rfl, .inl rfl⟩)

-- No run comes to the reconnect loop: a watchdog that has ended was disconnected by another
-- task, or it has left a dead updater behind.
theorem never_reconnects {events : List Event} {final : Watchdog}
    (hrun : run step Watchdog.started events = some final) :
    final.pc.reconnects = false ∧
      (final.EndedWell ↔ (final.pc.isEnded = true → final.disconnected = true)) := by
  have hpc : final.pc.reconnects = false :=
    run_invariant (fun watchdog => watchdog.pc.reconnects = false)
      (fun _ _ _ h hstep => by
        rw [Bool.eq_false_iff] at h ⊢
        exact fun hnext => h ((kept_step hstep).reconnects hnext)) rfl hrun
  refine ⟨hpc, fun h hended => ?_, fun h reason hreason => .inr (.inr (h (by rw [hreason]; rfl)))⟩
  cases hreason : final.pc with
  | ended reason =>
      rw [hreason] at hpc
      obtain rfl | rfl | hdisconnected := h reason hreason
      · cases hpc
      · cases hpc
      · exact hdisconnected
  | head => rw [hreason] at hended; cases hended
  | sleeping => rw [hreason] at hended; cases hended
  | disconnecting stage => rw [hreason] at hended; cases hended
  | reconnecting backoff => rw [hreason] at hended; cases hended
  | backingOff backoff => rw [hreason] at hended; cases hended

-- A healthy updater and the shutdown of the process.
theorem endedWell_shutdown :
    Always step Watchdog.EndedWell Watchdog.started
      [.resume ⟨false, none⟩, .resume ⟨true, none⟩, .resume ⟨false, none⟩, .disconnect,
        .resume ⟨true, none⟩, .teardown] :=
  endedWell_of_guarded _ (by decide)

-- The updater stops. The cancellation of the own task comes up in updater.stop, and neither
-- disconnect nor the watchdog catches it.
theorem dead_updater_left :
    ¬ Always step Watchdog.EndedWell Watchdog.started
      [.resume ⟨false, none⟩, .stop false true, .resume ⟨true, none⟩, .cancelSelf false,
        .resume ⟨true, none⟩] := by
  intro h
  have hended := h.2.2.2.2.2 .cancelled rfl
  revert hended
  decide

end EvoClaw.Telegram
