import Mathlib.Data.Option.Basic

namespace Sqlite

variable {σ : Type*}

-- One connection: what is committed, and what its statements see.
structure Connection (σ : Type*) where
  committed : σ
  working : σ
deriving DecidableEq

-- A statement that raises has changed nothing.
abbrev Statement (σ : Type*) := σ → Option σ

def opened (state : σ) : Connection σ where
  committed := state
  working := state

namespace Connection

def commit (db : Connection σ) : Connection σ where
  committed := db.working
  working := db.working

def rollback (db : Connection σ) : Connection σ where
  committed := db.committed
  working := db.committed

-- What is on disk and what is pending on top of it.
def Both (holds : σ → Prop) (db : Connection σ) : Prop := holds db.committed ∧ holds db.working

end Connection

-- try: statements, commit / except: rollback. `fault` is the place of the statement that
-- fails for a reason of its surroundings; the commit has the place after the last one.
def transact : List (Statement σ) → Option Nat → Connection σ → Connection σ
  | [], some 0, db => db.rollback
  | [], _, db => db.commit
  | _ :: _, some 0, db => db.rollback
  | statement :: rest, fault, db =>
      match statement db.working with
      | none => db.rollback
      | some next => transact rest (fault.map (· - 1)) { db with working := next }

-- The statements one after the other, none of them raising.
def perform : List (Statement σ) → σ → Option σ
  | [], state => some state
  | statement :: rest, state => (statement state).bind (perform rest)

-- The fault, if there is one, is behind the commit.
def Undisturbed (statements : List (Statement σ)) (fault : Option Nat) : Prop :=
  ∀ place, fault = some place → statements.length < place

instance (statements : List (Statement σ)) (fault : Option Nat) :
    Decidable (Undisturbed statements fault) :=
  match fault with
  | none => isTrue fun _ h => nomatch h
  | some place =>
      decidable_of_iff (statements.length < place)
        ⟨fun h _ he => Option.some.inj he ▸ h, fun h => h place rfl⟩

theorem undisturbed_cons {statement : Statement σ} {rest : List (Statement σ)} {fault : Option Nat} :
    Undisturbed (statement :: rest) fault ↔
      fault ≠ some 0 ∧ Undisturbed rest (fault.map (· - 1)) := by
  cases fault with
  | none => simp [Undisturbed]
  | some place => simp [Undisturbed]; omega

theorem transact_nil {fault : Option Nat} (hf : fault ≠ some 0) (db : Connection σ) :
    transact [] fault db = db.commit := by
  match fault, hf with
  | none, _ => rfl
  | some (_ + 1), _ => rfl

theorem transact_cons {fault : Option Nat} (hf : fault ≠ some 0) (statement : Statement σ)
    (rest : List (Statement σ)) (db : Connection σ) :
    transact (statement :: rest) fault db =
      match statement db.working with
      | none => db.rollback
      | some next => transact rest (fault.map (· - 1)) { db with working := next } := by
  match fault, hf with
  | none, _ => rfl
  | some (_ + 1), _ => rfl

-- All of the statements, or none of them and nothing that was pending before.
theorem transact_eq (statements : List (Statement σ)) (fault : Option Nat) (db : Connection σ) :
    (∃ final, Undisturbed statements fault ∧ perform statements db.working = some final ∧
        transact statements fault db = opened final) ∨
      (¬ (Undisturbed statements fault ∧ (perform statements db.working).isSome) ∧
        transact statements fault db = opened db.committed) := by
  induction statements generalizing fault db with
  | nil =>
      by_cases hf : fault = some 0
      · subst hf
        exact .inr ⟨by simp [Undisturbed], rfl⟩
      · have hu : Undisturbed ([] : List (Statement σ)) fault := by
          intro place he
          subst he
          exact Nat.pos_of_ne_zero fun h0 => hf (by rw [h0])
        exact .inl ⟨db.working, hu, rfl, transact_nil hf db⟩
  | cons statement rest ih =>
      by_cases hf : fault = some 0
      · subst hf
        exact .inr ⟨by simp [Undisturbed], rfl⟩
      · rw [transact_cons hf]
        cases hs : statement db.working with
        | none => exact .inr ⟨by simp [perform, hs], rfl⟩
        | some next =>
            simp only [perform, hs, Option.bind_some, undisturbed_cons]
            obtain ⟨final, hu, hp, ht⟩ | ⟨hnot, ht⟩ :=
              ih (fault.map (· - 1)) { db with working := next }
            · exact .inl ⟨final, ⟨hf, hu⟩, hp, ht⟩
            · exact .inr ⟨fun h => hnot ⟨h.1.2, h.2⟩, ht⟩

theorem both_opened {holds : σ → Prop} {state : σ} :
    (opened state).Both holds ↔ holds state := and_self_iff

-- A transaction keeps what its statements together keep.
theorem transact_both {holds : σ → Prop} {statements : List (Statement σ)} {fault : Option Nat}
    {db : Connection σ} (h : db.Both holds)
    (hstep : ∀ final, Undisturbed statements fault →
      perform statements db.working = some final → holds final) :
    (transact statements fault db).Both holds := by
  obtain ⟨final, hu, hp, ht⟩ | ⟨-, ht⟩ := transact_eq statements fault db
  · rw [ht, both_opened]
    exact hstep final hu hp
  · rw [ht, both_opened]
    exact h.1

theorem transact_of_perform {statements : List (Statement σ)} {fault : Option Nat} {final : σ}
    {db : Connection σ} (hu : Undisturbed statements fault)
    (hp : perform statements db.working = some final) :
    transact statements fault db = opened final := by
  obtain ⟨other, -, ho, ht⟩ | ⟨hnot, -⟩ := transact_eq statements fault db
  · have heq : some other = some final := ho.symm.trans hp
    rw [ht, Option.some.inj heq]
  · have hsome : (perform statements db.working).isSome := by rw [hp]; rfl
    exact absurd ⟨hu, hsome⟩ hnot

end Sqlite
