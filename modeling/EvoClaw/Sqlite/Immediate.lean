import EvoClaw.Sqlite.Transaction

namespace Sqlite

variable {σ : Type*}

-- A connection in autocommit mode. `pending` is what an open transaction has made of the
-- committed state.
structure Session (σ : Type*) where
  committed : σ
  pending : Option σ
deriving DecidableEq

inductive Outcome
  | committed
  | rolledBack
  | raised
deriving DecidableEq

-- Which statement raises for a reason of its surroundings, and whether the rollback raises as
-- well. BEGIN has the place 0, and the commit the place after the last statement.
structure Fault where
  place : Option Nat
  rollbackRaises : Bool
deriving DecidableEq

-- The statements up to the one that raises, and whether the commit behind them succeeds.
def attempt : List (Statement σ) → Option Nat → σ → σ × Bool
  | [], some 0, state => (state, false)
  | [], _, state => (state, true)
  | _ :: _, some 0, state => (state, false)
  | statement :: rest, place, state =>
      match statement state with
      | none => (state, false)
      | some next => attempt rest (place.map (· - 1)) next

namespace Session

def idle (state : σ) : Session σ where
  committed := state
  pending := none

def working (session : Session σ) : σ := session.pending.getD session.committed

-- except: rollback. Without an open transaction it does nothing, and cannot raise.
def handle (session : Session σ) (rollbackRaises : Bool) : Session σ × Outcome :=
  if rollbackRaises ∧ session.pending.isSome then (session, .raised)
  else (idle session.committed, .rolledBack)

-- try: BEGIN IMMEDIATE, statements, commit / except: rollback. BEGIN raises within a transaction.
def immediate (session : Session σ) (statements : List (Statement σ)) (fault : Fault) :
    Session σ × Outcome :=
  if session.pending.isSome ∨ fault.place = some 0 then session.handle fault.rollbackRaises
  else
    match attempt statements (fault.place.map (· - 1)) session.committed with
    | (last, true) => (idle last, .committed)
    | (last, false) => { session with pending := some last }.handle fault.rollbackRaises

-- No transaction is open, and the fault, if there is one, is behind the commit.
def Unhindered (session : Session σ) (statements : List (Statement σ)) (fault : Fault) : Prop :=
  session.pending = none ∧ fault.place ≠ some 0 ∧
    Undisturbed statements (fault.place.map (· - 1))

instance (session : Session σ) (statements : List (Statement σ)) (fault : Fault) [DecidableEq σ] :
    Decidable (session.Unhindered statements fault) :=
  inferInstanceAs (Decidable (_ ∧ _))

-- What a transaction that was not rolled back has left: what was open before, or what the
-- statements before the failing one made.
def Left (session : Session σ) (statements : List (Statement σ)) (fault : Fault) (left : σ) :
    Prop :=
  session.pending = some left ∨
    session.pending = none ∧ ∃ count ≤ statements.length,
      perform (statements.take count) session.committed = some left ∧
        (fault.place = some (count + 1) ∨
          perform (statements.take (count + 1)) session.committed = none)

end Session

theorem attempt_nil {place : Option Nat} (hp : place ≠ some 0) (state : σ) :
    attempt [] place state = (state, true) := by
  rw [attempt]
  exact hp

theorem attempt_cons {place : Option Nat} (hp : place ≠ some 0) (statement : Statement σ)
    (rest : List (Statement σ)) (state : σ) :
    attempt (statement :: rest) place state =
      (statement state).elim (state, false) (attempt rest (place.map (· - 1))) := by
  rw [attempt]
  · cases statement state <;> rfl
  · exact hp

-- All of the statements, or those before the one that raises.
theorem attempt_cases (statements : List (Statement σ)) (place : Option Nat) (state : σ) :
    (∃ last, attempt statements place state = (last, true) ∧ Undisturbed statements place ∧
        perform statements state = some last) ∨
      ∃ last, attempt statements place state = (last, false) ∧
        ¬ (Undisturbed statements place ∧ (perform statements state).isSome) ∧
        ∃ count ≤ statements.length, perform (statements.take count) state = some last ∧
          (place = some count ∨ perform (statements.take (count + 1)) state = none) := by
  induction statements generalizing place state with
  | nil =>
      by_cases hp : place = some 0
      · subst hp
        exact .inr ⟨state, rfl, by simp [Undisturbed], 0, Nat.le_refl 0, rfl, .inl rfl⟩
      · refine .inl ⟨state, attempt_nil hp state, fun other hother => ?_, rfl⟩
        subst hother
        exact Nat.pos_of_ne_zero fun h0 => hp (by rw [h0])
  | cons statement rest ih =>
      by_cases hp : place = some 0
      · subst hp
        exact .inr ⟨state, rfl, by simp [Undisturbed], 0, Nat.zero_le _, rfl, .inl rfl⟩
      · rw [attempt_cons hp]
        cases hs : statement state with
        | none =>
            refine .inr ⟨state, rfl, by simp [perform, hs], 0, Nat.zero_le _, rfl, .inr ?_⟩
            simp [perform, hs]
        | some next =>
            simp only [perform, hs, Option.bind_some, undisturbed_cons]
            obtain ⟨last, ha, hu, hl⟩ | ⟨last, ha, hnot, count, hcount, hl, hwhy⟩ :=
              ih (place.map (· - 1)) next
            · exact .inl ⟨last, ha, ⟨hp, hu⟩, hl⟩
            · refine .inr ⟨last, ha, fun h => hnot ⟨h.1.2, h.2⟩, count + 1,
                Nat.succ_le_succ hcount, ?_, ?_⟩
              · simpa [perform, hs] using hl
              · refine hwhy.imp (fun h => ?_) fun h => by simpa [perform, hs] using h
                cases place with
                | none => cases h
                | some place =>
                    have hpos : place ≠ 0 := fun h0 => hp (by rw [h0])
                    simp only [Option.map_some, Option.some.injEq] at h ⊢
                    omega

namespace Session

variable {session : Session σ} {statements : List (Statement σ)} {fault : Fault}

@[simp] theorem committed_idle (state : σ) : (idle state).committed = state := rfl

@[simp] theorem working_idle (state : σ) : (idle state).working = state := rfl

theorem handle_cases (session : Session σ) (rollbackRaises : Bool) :
    session.handle rollbackRaises = (idle session.committed, .rolledBack) ∨
      rollbackRaises = true ∧ session.pending.isSome = true ∧
        session.handle rollbackRaises = (session, .raised) := by
  unfold handle
  split
  · rename_i h
    exact .inr ⟨h.1, h.2, rfl⟩
  · exact .inl rfl

-- Everything is committed, or nothing is: it is rolled back, or it stays open.
theorem immediate_cases (session : Session σ) (statements : List (Statement σ)) (fault : Fault) :
    (∃ last, session.Unhindered statements fault ∧
        perform statements session.committed = some last ∧
        session.immediate statements fault = (idle last, .committed)) ∨
      ¬ (session.Unhindered statements fault ∧
          (perform statements session.committed).isSome) ∧
        (session.immediate statements fault = (idle session.committed, .rolledBack) ∨
          fault.rollbackRaises = true ∧ ∃ left, session.Left statements fault left ∧
            session.immediate statements fault =
              ({ session with pending := some left }, .raised)) := by
  unfold immediate
  split
  · rename_i hbegin
    refine .inr ⟨fun h => ?_, ?_⟩
    · rcases hbegin with hopen | hplace
      · simp [h.1.1] at hopen
      · exact h.1.2.1 hplace
    · refine (session.handle_cases fault.rollbackRaises).imp id fun ⟨hraises, hopen, heq⟩ => ?_
      obtain ⟨left, hleft⟩ := Option.isSome_iff_exists.mp hopen
      exact ⟨hraises, left, .inl hleft, by rw [heq, ← hleft]⟩
  · rename_i hbegin
    rw [not_or, Option.not_isSome_iff_eq_none] at hbegin
    obtain ⟨last, ha, hu, hl⟩ | ⟨last, ha, hnot, count, hcount, hl, hwhy⟩ :=
      attempt_cases statements (fault.place.map (· - 1)) session.committed
    · rw [ha]
      exact .inl ⟨last, ⟨hbegin.1, hbegin.2, hu⟩, hl, rfl⟩
    · rw [ha]
      refine .inr ⟨fun h => hnot ⟨h.1.2.2, h.2⟩, ?_⟩
      refine (handle_cases { session with pending := some last } fault.rollbackRaises).imp id
        fun ⟨hraises, _, heq⟩ =>
          ⟨hraises, last, .inr ⟨hbegin.1, count, hcount, hl, hwhy.imp_left fun h => ?_⟩, heq⟩
      cases hp : fault.place with
      | none => simp [hp] at h
      | some place =>
          have hpos : place ≠ 0 := fun h0 => hbegin.2 (by rw [hp, h0])
          simp only [hp, Option.map_some, Option.some.injEq] at h ⊢
          omega

end Session

end Sqlite
