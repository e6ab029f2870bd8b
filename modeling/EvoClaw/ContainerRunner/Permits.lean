import EvoClaw.EventSystem.Runs
import Mathlib.Data.Finset.Insert
import Mathlib.Data.Finset.Erase

-- The permits and the entries of concurrent calls of run_container_agent.
namespace EvoClaw.ContainerRunner

open EventSystem

-- The statements between the acquired permit and the try, in their order.
inductive Preparation where
  | jid
  | buildVolumeMounts
  | evolutionHints
  | readSecrets
  | historyCutoff
  | getMessagesSince
  | convHistory
  | getAllTasks
  | getHotMemory
  | getAgentId
  | inputJson
  | promptMetrics
  | logMetrics
  | register
  | command
  | logContainerStart
  | inputBytes
deriving DecidableEq

def Preparation.next : Preparation → Option Preparation
  | jid => some buildVolumeMounts
  | buildVolumeMounts => some evolutionHints
  | evolutionHints => some readSecrets
  | readSecrets => some historyCutoff
  | historyCutoff => some getMessagesSince
  | getMessagesSince => some convHistory
  | convHistory => some getAllTasks
  | getAllTasks => some getHotMemory
  | getHotMemory => some getAgentId
  | getAgentId => some inputJson
  | inputJson => some promptMetrics
  | promptMetrics => some logMetrics
  | logMetrics => some register
  | register => some command
  | command => some logContainerStart
  | logContainerStart => some inputBytes
  | inputBytes => none

-- The entry in _active_containers has been made.
def Preparation.registered : Preparation → Bool
  | command | logContainerStart | inputBytes => true
  | _ => false

-- Where a call is. It has a container name once it has its permit. `running` is the body of
-- the try, `handling` are its except clauses, and `finishing` is its finally.
inductive CallState where
  | waiting
  | preparing (name : String) (statement : Preparation)
  | running (name : String)
  | handling (name : String)
  | finishing (name : String)
  | ended
deriving DecidableEq

-- `leaves` is every end before the permit: an open circuit, an exception, or a cancellation
-- of the wait. An asyncio.TimeoutError is one of the exceptions.
inductive Move where
  | leaves
  | acquires (name : String)
  | proceeds
  | raises
  | cancelled
deriving DecidableEq

-- _container_semaphore and the keys of _active_containers.
structure Shared where
  permits : Nat
  active : Finset String := ∅
deriving DecidableEq

namespace CallState

-- A task is cancelled where it is suspended. No body under _active_lock awaits, so nothing
-- suspends between the permit and the try, or in the finally, which is one move.
def move (shared : Shared) : CallState → Move → Option (Shared × CallState)
  | waiting, .leaves => some (shared, ended)
  | waiting, .acquires name =>
      if 0 < shared.permits then
        some ({ shared with permits := shared.permits - 1 }, preparing name .jid)
      else none
  | preparing name statement, .proceeds =>
      some (if statement = .register then { shared with active := insert name shared.active }
        else shared,
        match statement.next with
        | some next => preparing name next
        | none => running name)
  | preparing _ statement, .raises => if statement = .register then none else some (shared, ended)
  | running name, .proceeds => some (shared, finishing name)
  | running name, .raises => some (shared, handling name)
  | running name, .cancelled => some (shared, handling name)
  | handling name, .proceeds => some (shared, finishing name)
  | handling name, .raises => some (shared, finishing name)
  | handling name, .cancelled => some (shared, finishing name)
  | finishing name, .proceeds =>
      some (⟨shared.permits + 1, shared.active.erase name⟩, ended)
  | _, _ => none

def holds : CallState → Bool
  | waiting | ended => false
  | _ => true

def name : CallState → Option String
  | preparing name _ | running name | handling name | finishing name => some name
  | waiting | ended => none

-- The name under which the call is in _active_containers.
def entry : CallState → Option String
  | preparing name statement => if statement.registered then some name else none
  | running name | handling name | finishing name => some name
  | waiting | ended => none

end CallState

structure Pool where
  shared : Shared
  calls : List CallState := []
deriving DecidableEq

inductive PoolEvent where
  | called
  | moves (i : Nat) (move : Move)
deriving DecidableEq

namespace Pool

def fresh (capacity : Nat) : Pool :=
  { shared := { permits := capacity } }

def step (pool : Pool) : PoolEvent → Option Pool
  | .called => some { pool with calls := pool.calls ++ [.waiting] }
  | .moves i move =>
      pool.calls[i]?.bind fun call =>
        (call.move pool.shared move).map fun (shared, moved) =>
          { shared := shared, calls := pool.calls.set i moved }

-- The permits that are out are those of the calls that have not ended, and so are the entries.
structure Accounted (capacity : Nat) (pool : Pool) : Prop where
  permits : pool.shared.permits + pool.calls.countP CallState.holds = capacity
  active : ∀ name ∈ pool.shared.active, ∃ call ∈ pool.calls, call.entry = some name

-- A call that ends leaves no entry under its name.
def EndsClean (pool : Pool) : PoolEvent → Prop
  | .called => True
  | .moves i move =>
      ∀ next, pool.step (.moves i move) = some next → next.calls[i]? = some .ended →
        ∀ call name, pool.calls[i]? = some call → call.name = some name →
          name ∉ next.shared.active

-- No statement raises between the permit and the try.
def Covered (pool : Pool) : PoolEvent → Prop
  | .called => True
  | .moves i move =>
      ∀ name statement, pool.calls[i]? = some (.preparing name statement) → move ≠ .raises

end Pool

section Moves

variable {shared after : Shared} {call moved : CallState} {move : Move} {name : String}

-- A move that the finally covers, or that has no permit yet.
def CallState.Covered (call : CallState) (move : Move) : Prop :=
  ∀ name statement, call = .preparing name statement → move ≠ .raises

-- What a move does to the shared state. Most statements leave it alone.
inductive Effect : Shared → CallState → Move → Shared → CallState → Prop where
  | keeps (shared : Shared) {call moved : CallState} {move : Move} (hcovered : call.Covered move)
      (hholds : moved.holds = call.holds) (hentry : moved.entry = call.entry)
      (hended : moved = .ended → call = .waiting) : Effect shared call move shared moved
  | acquires (shared : Shared) (name : String) (hfree : 0 < shared.permits) :
      Effect shared .waiting (.acquires name) { shared with permits := shared.permits - 1 }
        (.preparing name .jid)
  | registers (shared : Shared) (name : String) :
      Effect shared (.preparing name .register) .proceeds
        { shared with active := insert name shared.active } (.preparing name .command)
  | finishes (shared : Shared) (name : String) :
      Effect shared (.finishing name) .proceeds ⟨shared.permits + 1, shared.active.erase name⟩ .ended
  | leaks (shared : Shared) (name : String) (statement : Preparation) :
      Effect shared (.preparing name statement) .raises shared .ended

theorem covered_of_ne (h : move ≠ .raises) : call.Covered move :=
  fun _ _ _ => h

theorem covered_of_entered (h : ∀ name statement, call ≠ .preparing name statement) :
    call.Covered move :=
  fun name statement hcall => absurd hcall (h name statement)

theorem effect_move (h : call.move shared move = some (after, moved)) :
    Effect shared call move after moved := by
  cases call with
  | waiting =>
      cases move with
      | leaves => cases h; exact .keeps _ (covered_of_ne nofun) rfl rfl fun _ => rfl
      | acquires name =>
          simp only [CallState.move] at h
          split_ifs at h with hfree
          cases h
          exact .acquires _ name hfree
      | _ => cases h
  | preparing name statement =>
      cases move with
      | proceeds =>
          by_cases hregister : statement = .register
          · subst hregister
            cases h
            exact .registers _ name
          · cases statement with
            | register => exact absurd rfl hregister
            | _ => cases h; exact .keeps _ (covered_of_ne nofun) rfl rfl nofun
      | raises =>
          simp only [CallState.move] at h
          split_ifs at h
          cases h
          exact .leaks _ name statement
      | _ => cases h
  | running name | handling name =>
      cases move with
      | proceeds | raises | cancelled =>
          cases h
          exact .keeps _ (covered_of_entered nofun) rfl rfl nofun
      | _ => cases h
  | finishing name =>
      cases move with
      | proceeds => cases h; exact .finishes _ name
      | _ => cases h
  | ended => cases move <;> cases h

-- A covered move gives back what it takes.
theorem Effect.permits_eq (h : Effect shared call move after moved) (hcovered : call.Covered move) :
    after.permits + moved.holds.toNat = shared.permits + call.holds.toNat := by
  cases h with
  | keeps _ hholds => rw [hholds]
  | acquires name hfree =>
      simp only [CallState.holds, Bool.toNat_true, Bool.toNat_false]
      omega
  | registers name => rfl
  | finishes name => rfl
  | leaks name statement => exact absurd rfl (hcovered name statement rfl)

theorem Effect.permits_lt (h : Effect shared call move after moved) (hleak : ¬ call.Covered move) :
    after.permits + moved.holds.toNat < shared.permits + call.holds.toNat := by
  cases h with
  | keeps hcovered => exact (hleak hcovered).elim
  | acquires name => exact (hleak (covered_of_ne nofun)).elim
  | registers name => exact (hleak (covered_of_ne nofun)).elim
  | finishes name => exact (hleak (covered_of_ne nofun)).elim
  | leaks name statement =>
      simp only [CallState.holds, Bool.toNat_true, Bool.toNat_false]
      omega

-- An entry belongs to the call that moves, or is none that it gives up.
theorem Effect.active_entry (h : Effect shared call move after moved) (hcovered : call.Covered move)
    (hname : name ∈ after.active) :
    moved.entry = some name ∨ name ∈ shared.active ∧ call.entry ≠ some name := by
  cases h with
  | keeps _ _ hentry _ =>
      by_cases hcall : call.entry = some name
      · exact .inl (hentry.trans hcall)
      · exact .inr ⟨hname, hcall⟩
  | acquires other => exact .inr ⟨hname, nofun⟩
  | registers other =>
      rcases Finset.mem_insert.mp hname with heq | hname
      · exact .inl (congrArg some heq.symm)
      · exact .inr ⟨hname, nofun⟩
  | finishes other =>
      obtain ⟨hne, hname⟩ := Finset.mem_erase.mp hname
      exact .inr ⟨hname, fun heq => hne (Option.some.inj heq).symm⟩
  | leaks other statement => exact absurd rfl (hcovered other statement rfl)

theorem Effect.ended_clean (h : Effect shared call move after .ended) (hcovered : call.Covered move)
    (hname : call.name = some name) : name ∉ after.active := by
  cases h with
  | keeps _ _ _ hended =>
      rw [hended rfl] at hname
      cases hname
  | finishes other =>
      rw [← Option.some.inj hname]
      exact Finset.notMem_erase other _
  | leaks other statement => exact absurd rfl (hcovered other statement rfl)

end Moves

namespace Pool

variable {pool next : Pool} {event : PoolEvent} {capacity i : Nat} {move : Move}

theorem step_moves (h : pool.step (.moves i move) = some next) :
    ∃ call moved, pool.calls[i]? = some call ∧
      Effect pool.shared call move next.shared moved ∧ next.calls = pool.calls.set i moved := by
  obtain ⟨call, hcall, h⟩ := Option.bind_eq_some_iff.mp h
  obtain ⟨⟨shared, moved⟩, hmove, rfl⟩ := Option.map_eq_some_iff.mp h
  exact ⟨call, moved, hcall, effect_move hmove, rfl⟩

theorem countP_set_add {calls : List CallState} {call : CallState} (moved : CallState)
    (hcall : calls[i]? = some call) :
    (calls.set i moved).countP CallState.holds + call.holds.toNat =
      calls.countP CallState.holds + moved.holds.toNat := by
  obtain ⟨hi, hget⟩ := List.getElem?_eq_some_iff.mp hcall
  have hle : call.holds.toNat ≤ calls.countP CallState.holds := by
    have h := List.boole_getElem_le_countP (p := CallState.holds) hi
    rw [hget] at h
    cases hholds : call.holds <;> simp_all
  rw [List.countP_set hi, hget]
  cases hholds : call.holds <;> cases hmoved : moved.holds <;> simp_all

-- The guard of the event is the one of its call.
theorem covered_moves_iff {call : CallState} (hcall : pool.calls[i]? = some call) :
    Covered pool (.moves i move) ↔ call.Covered move := by
  simp only [Covered, CallState.Covered, hcall, Option.some.injEq]

theorem accounted_fresh (capacity : Nat) : Accounted capacity (fresh capacity) where
  permits := rfl
  active := fun name hname => absurd hname (Finset.notMem_empty name)

theorem accounted_step (h : Accounted capacity pool) (hcovered : pool.Covered event)
    (hstep : pool.step event = some next) : Accounted capacity next := by
  cases event with
  | called =>
      cases hstep
      refine ⟨?_, fun name hname => ?_⟩
      · rw [List.countP_append, List.countP_singleton, if_neg (by decide), Nat.add_zero]
        exact h.permits
      · obtain ⟨call, hcall, hentry⟩ := h.active name hname
        exact ⟨call, List.mem_append_left _ hcall, hentry⟩
  | moves i move =>
      obtain ⟨call, moved, hcall, heffect, hcalls⟩ := step_moves hstep
      rw [covered_moves_iff hcall] at hcovered
      refine ⟨?_, fun name hname => ?_⟩
      · have hpermits := heffect.permits_eq hcovered
        have hcount := countP_set_add moved hcall
        have hbefore := h.permits
        rw [hcalls]
        omega
      · obtain ⟨hi, hget⟩ := List.getElem?_eq_some_iff.mp hcall
        rw [hcalls]
        rcases heffect.active_entry hcovered hname with hmoved | ⟨hactive, hne⟩
        · exact ⟨moved, List.mem_set hi moved, hmoved⟩
        · obtain ⟨other, hother, hentry⟩ := h.active name hactive
          obtain ⟨j, hj⟩ := List.getElem?_of_mem hother
          have hij : i ≠ j := by
            rintro rfl
            rw [hcall, Option.some.injEq] at hj
            exact hne (hj ▸ hentry)
          refine ⟨other, List.mem_of_getElem? (i := j) ?_, hentry⟩
          rw [List.getElem?_set_ne hij]
          exact hj

theorem covered_of_accounted (h : Accounted capacity pool) (hstep : pool.step event = some next)
    (hnext : Accounted capacity next) : pool.Covered event := by
  cases event with
  | called => trivial
  | moves i move =>
      obtain ⟨call, moved, hcall, heffect, hcalls⟩ := step_moves hstep
      rw [covered_moves_iff hcall]
      by_contra hleak
      have hpermits := heffect.permits_lt hleak
      have hcount := countP_set_add moved hcall
      have hbefore := h.permits
      have hafter := hnext.permits
      rw [hcalls] at hafter
      omega

theorem endsClean_of_covered (hcovered : pool.Covered event) : pool.EndsClean event := by
  cases event with
  | called => trivial
  | moves i move =>
      intro next hstep hended call name hcall hname
      obtain ⟨other, moved, hother, heffect, hcalls⟩ := step_moves hstep
      obtain rfl := Option.some.inj (hcall.symm.trans hother)
      rw [covered_moves_iff hcall] at hcovered
      obtain ⟨hi, -⟩ := List.getElem?_eq_some_iff.mp hcall
      rw [hcalls, List.getElem?_set_self hi, Option.some.injEq] at hended
      exact (hended ▸ heffect).ended_clean hcovered hname

-- All permits are accounted for, and no ended call leaves its entry, exactly if nothing
-- raises between a permit and the try that gives it back.
theorem permits_accounted_iff (capacity : Nat) (events : List PoolEvent) :
    Always step (Accounted capacity) (fresh capacity) events ∧
        Along step EndsClean (fresh capacity) events ↔
      Along step Covered (fresh capacity) events := by
  have haccounted : Always step (Accounted capacity) (fresh capacity) events ↔
      Along step Covered (fresh capacity) events :=
    always_iff_along (Accounted capacity) (fun _ _ _ => accounted_step) (fun _ h => h)
      (fun _ _ _ => covered_of_accounted) (accounted_fresh capacity)
  rw [haccounted]
  refine and_iff_left_of_imp fun hcovered => ?_
  exact hcovered.along (fun _ => True) (fun _ _ _ _ _ _ => trivial)
    (fun _ _ _ => endsClean_of_covered) trivial

-- The prompt of a subagent has a lone surrogate. The metrics encode it after eleven other
-- statements, and the only permit is lost.
def surrogatePrompt : List PoolEvent :=
  [.called, .moves 0 (.acquires "evoclaw-main-1b9d6bcd")] ++
    List.replicate 11 (.moves 0 .proceeds) ++ [.moves 0 .raises]

theorem surrogate_prompt_leaks_permit :
    ¬ (Always step (Accounted 1) (fresh 1) surrogatePrompt ∧
      Along step EndsClean (fresh 1) surrogatePrompt) := by
  rintro ⟨halways, -⟩
  have hrun : run step (fresh 1) surrogatePrompt =
      some { shared := { permits := 0 }, calls := [.ended] } := by decide
  exact absurd (halways.reached hrun).permits (by decide)

end Pool

end EvoClaw.ContainerRunner
