import EvoClaw.Json
import EvoClaw.Text.Search
import Mathlib.Data.Int.CardIntervalMod
import Mathlib.Data.Rat.Defs
import Mathlib.Tactic.Ring

-- _KeyPool and _llm_call_with_retry of container/agent-runner/_utils.py, and the holder of the
-- client in agent.py.
namespace EvoClaw.AgentLoop.Llm

open Text

structure KeyPool where
  keys : List (List Char)
  idx : Nat := 0
deriving DecidableEq

namespace KeyPool

def ofCsv (keysCsv : List Char) : KeyPool where
  keys := ((keysCsv.splitOn ',').map strip).filter (· ≠ [])

-- The key that a pool has after so many rotations.
def keyAt (pool : KeyPool) (count : Nat) : List Char :=
  pool.keys.getD (count % pool.keys.length) []

def current (pool : KeyPool) : List Char := pool.keyAt pool.idx

def rotate (pool : KeyPool) : KeyPool :=
  if pool.keys = [] then pool else { pool with idx := (pool.idx + 1) % pool.keys.length }

end KeyPool

def RETRYABLE_STATUS : List (List Char) :=
  ["429", "500", "502", "503", "529"].map String.toList

def RATE_LIMIT_KW : List (List Char) :=
  ["rate limit", "resource exhausted", "too many requests", "quota"].map String.toList

def OUTAGE_KW : List (List Char) :=
  ["overloaded", "service unavailable", "bad gateway", "timeout"].map String.toList

-- An exception is known by its text. `lower` is str.lower.
def isRateLimit (lower : List Char → List Char) (error : List Char) : Bool :=
  Text.contains error "429".toList ∨ RATE_LIMIT_KW.any (Text.contains (lower error))

def isRetryable (lower : List Char → List Char) (error : List Char) : Bool :=
  isRateLimit lower error ∨ RETRYABLE_STATUS.any (Text.contains error) ∨
    OUTAGE_KW.any (Text.contains (lower error))

-- What a call of fn sent: the key of the client at that time, and the answer.
structure Request (R : Type*) where
  key : List Char
  answer : Except (List Char) R
  -- whether the key was changed because of the answer
  rotated : Bool

-- One pool and the client that was made with its key. Without apply_key_fn the client stays.
structure Session where
  pool : KeyPool
  applyKey : Bool
  client : List Char

structure Call (R : Type*) where
  fn : Nat → Except (List Char) R
  maxAttempts : Nat := 3
  baseDelay : ℚ := 1

structure Entry (R : Type*) where
  call : Call R
  requests : List (Request R)
  result : Except (List Char) R
  slept : ℚ

section Calling

variable {R : Type*} (lower : List Char → List Char)

def Session.start (pool : KeyPool) (applyKey : Bool) : Session := ⟨pool, applyKey, pool.current⟩

def Session.rotates (session : Session) (error : List Char) : Bool :=
  isRateLimit lower error ∧ session.applyKey ∧ 1 < session.pool.keys.length

def Session.rotate (session : Session) : Session :=
  { session with pool := session.pool.rotate, client := session.pool.rotate.current }

-- The attempts that are left. What the loop raises after none at all is the TypeError of
-- `raise None`.
def attempts (call : Call R) : Nat → Session → List (Request R) × Except (List Char) R × ℚ × Session
  | 0, session => ([], .error "exceptions must derive from BaseException".toList, 0, session)
  | left + 1, session =>
      let attempt := call.maxAttempts - (left + 1)
      match call.fn attempt with
      | .ok response => ([⟨session.client, .ok response, false⟩], .ok response, 0, session)
      | .error error =>
          if isRetryable lower error = false ∨ left = 0 then
            ([⟨session.client, .error error, false⟩], .error error, 0, session)
          else
            let rotates := session.rotates lower error
            let rest := attempts call left (if rotates then session.rotate else session)
            (⟨session.client, .error error, rotates⟩ :: rest.1, rest.2.1,
              call.baseDelay * 2 ^ attempt + rest.2.2.1, rest.2.2.2)

-- _llm_call_with_retry
def llmCallWithRetry (session : Session) (call : Call R) : Entry R × Session :=
  let done := attempts lower call call.maxAttempts session
  (⟨call, done.1, done.2.1, done.2.2.1⟩, done.2.2.2)

def Session.run (session : Session) : List (Call R) → List (Entry R) × Session
  | [] => ([], session)
  | call :: calls =>
      let done := llmCallWithRetry lower session call
      let rest := done.2.run calls
      (done.1 :: rest.1, rest.2)

end Calling

-- Each request is made with the key that the rotations before it have led to.
def Turns {R : Type*} (pool : KeyPool) : Nat → List (Request R) → Prop
  | _, [] => True
  | count, request :: rest =>
      request.key = pool.keyAt count ∧ Turns pool (count + request.rotated.toNat) rest

-- How many requests with a key made it go.
def burned {R : Type*} (requests : List (Request R)) (key : List Char) : Nat :=
  requests.countP fun request => request.rotated ∧ request.key = key

-- A session that stands at the turn with this number.
structure Session.At (session origin : Session) (count : Nat) : Prop where
  applyKey : session.applyKey = origin.applyKey
  keys : session.pool.keys = origin.pool.keys
  idx : session.pool.idx % origin.pool.keys.length = count % origin.pool.keys.length
  client : session.client = origin.pool.keyAt count

-- A failed request that is worth another one, with another key if it met a rate limit.
def Request.Worth {R : Type*} (lower : List Char → List Char) (origin : Session)
    (request : Request R) : Prop :=
  ∃ error, request.answer = .error error ∧ isRetryable lower error = true ∧
    request.rotated = origin.rotates lower error

-- A request with which the attempts end.
def Request.Final {R : Type*} (lower : List Char → List Char) (maxAttempts number : Nat)
    (request : Request R) : Prop :=
  request.rotated = false ∧ ∀ error, request.answer = .error error →
    isRetryable lower error = false ∨ number = maxAttempts

def Entry.Bounded {R : Type*} (lower : List Char → List Char) (origin : Session)
    (entry : Entry R) : Prop :=
  ∃ failed last, entry.requests = failed ++ [last] ∧ failed.length < entry.call.maxAttempts ∧
    (∀ request ∈ failed, request.Worth lower origin) ∧
    last.Final lower entry.call.maxAttempts (failed.length + 1) ∧ entry.result = last.answer ∧
    entry.slept = entry.call.baseDelay * (2 ^ failed.length - 1)

section Turning

variable {R : Type*} {pool : KeyPool} {count : Nat} {origin session : Session}
  {requests more : List (Request R)}

theorem turns_append : Turns pool count (requests ++ more) ↔
    Turns pool count requests ∧ Turns pool (count + requests.countP Request.rotated) more := by
  induction requests generalizing count with
  | nil => simp [Turns]
  | cons request requests ih =>
      have hcount : count + request.rotated.toNat + requests.countP Request.rotated =
          count + (request :: requests).countP Request.rotated := by
        rw [List.countP_cons]
        cases request.rotated with
        | false => simp
        | true =>
            simp only [Bool.toNat_true, if_true]
            omega
      rw [List.cons_append, Turns, Turns, ih, hcount, and_assoc]

theorem Turns.key (h : Turns pool count requests) {before after : List (Request R)}
    {request : Request R} (hsplit : requests = before ++ request :: after) :
    request.key = pool.keyAt (count + before.countP Request.rotated) := by
  rw [hsplit, turns_append] at h
  exact h.2.1

-- The keys that go are the keys of the pool in their order.
theorem Turns.burned_keys (h : Turns pool count requests) :
    (requests.filter Request.rotated).map Request.key =
      (List.range (requests.countP Request.rotated)).map fun turn => pool.keyAt (count + turn) := by
  induction requests generalizing count with
  | nil => rfl
  | cons request requests ih =>
      obtain ⟨hkey, hrest⟩ := h
      have hlater := ih hrest
      cases hrotated : request.rotated with
      | false =>
          rw [hrotated, Bool.toNat_false, Nat.add_zero] at hlater
          rw [List.filter_cons_of_neg (by simp [hrotated]), List.countP_cons_of_neg (by simp [hrotated])]
          exact hlater
      | true =>
          rw [hrotated, Bool.toNat_true] at hlater
          rw [List.filter_cons_of_pos hrotated, List.countP_cons_of_pos hrotated, List.map_cons, hlater,
            List.range_succ_eq_map, List.map_cons, List.map_map, hkey]
          refine congrArg _ (List.map_congr_left fun turn _ => ?_)
          rw [Function.comp_apply, Nat.succ_eq_add_one, Nat.add_assoc, Nat.add_comm 1]

theorem Session.At.rotates (h : session.At origin count) (lower : List Char → List Char)
    (error : List Char) : session.rotates lower error = origin.rotates lower error := by
  rw [Session.rotates, Session.rotates, h.applyKey, h.keys]

theorem Session.At.rotate (h : session.At origin count) (hmany : 1 < session.pool.keys.length) :
    session.rotate.At origin (count + 1) := by
  obtain ⟨happly, hkeys, hidx, -⟩ := h
  have hne : session.pool.keys ≠ [] := List.ne_nil_of_length_pos (Nat.zero_lt_of_lt hmany)
  have hpool : session.pool.rotate =
      { session.pool with idx := (session.pool.idx + 1) % session.pool.keys.length } := if_neg hne
  have hturn : (session.pool.idx + 1) % origin.pool.keys.length % origin.pool.keys.length =
      (count + 1) % origin.pool.keys.length := by
    rw [Nat.mod_mod, Nat.add_mod, hidx, ← Nat.add_mod]
  refine ⟨happly, ?_, ?_, ?_⟩
  · rw [Session.rotate, hpool]
    exact hkeys
  · rw [Session.rotate, hpool, hkeys]
    exact hturn
  · rw [Session.rotate, hpool]
    unfold KeyPool.current KeyPool.keyAt
    dsimp only
    rw [hkeys, hturn]

theorem attempts_turns (lower : List Char → List Char) (call : Call R) (left : Nat)
    (h : session.At origin count) :
    Turns origin.pool count (attempts lower call left session).1 ∧
      (attempts lower call left session).2.2.2.At origin
        (count + (attempts lower call left session).1.countP Request.rotated) := by
  induction left generalizing session count with
  | zero => exact ⟨trivial, h⟩
  | succ left ih =>
      rw [attempts]
      dsimp only
      split
      · exact ⟨⟨h.client, trivial⟩, h⟩
      · next error _ =>
          split
          · exact ⟨⟨h.client, trivial⟩, h⟩
          · cases hrotates : session.rotates lower error with
            | false =>
                obtain ⟨hturns, hat⟩ := ih h
                exact ⟨⟨h.client, hturns⟩, hat⟩
            | true =>
                have hmany : 1 < session.pool.keys.length := (of_decide_eq_true hrotates).2.2
                obtain ⟨hturns, hat⟩ := ih (h.rotate hmany)
                have hlater (total : Nat) : count + 1 + total = count + (total + 1) := by omega
                refine ⟨⟨h.client, hturns⟩, ?_⟩
                rw [hlater] at hat
                rw [List.countP_cons_of_pos rfl]
                exact hat

theorem attempts_bounded (lower : List Char → List Char) (call : Call R)
    (h : session.At origin count) {left : Nat} (hpos : 0 < left) (hle : left ≤ call.maxAttempts) :
    ∃ failed last, (attempts lower call left session).1 = failed ++ [last] ∧ failed.length < left ∧
      (∀ request ∈ failed, request.Worth lower origin) ∧
      last.Final lower left (failed.length + 1) ∧
      (attempts lower call left session).2.1 = last.answer ∧
      (attempts lower call left session).2.2.1 =
        call.baseDelay * 2 ^ (call.maxAttempts - left) * (2 ^ failed.length - 1) := by
  induction left generalizing session count with
  | zero => exact absurd hpos (Nat.lt_irrefl 0)
  | succ left ih =>
      rw [attempts]
      dsimp only
      split
      · next response _ =>
          exact ⟨[], ⟨session.client, .ok response, false⟩, rfl, hpos, by simp, ⟨rfl, by simp⟩, rfl,
            by simp⟩
      · next error _ =>
          split
          · next hstop =>
              refine ⟨[], ⟨session.client, .error error, false⟩, rfl, hpos, by simp, ⟨rfl, ?_⟩, rfl,
                by simp⟩
              rintro _ ⟨⟩
              exact hstop.imp_right fun hleft => by rw [hleft]; rfl
          · next hagain =>
              rw [not_or, Bool.not_eq_false] at hagain
              obtain ⟨hretryable, hleft⟩ := hagain
              have hnext : ∃ count,
                  (if session.rotates lower error then session.rotate else session).At origin count := by
                split
                · next hrotates => exact ⟨_, h.rotate (of_decide_eq_true hrotates).2.2⟩
                · exact ⟨_, h⟩
              obtain ⟨_, hnext⟩ := hnext
              obtain ⟨failed, last, hrequests, hlength, hfailed, hlast, hresult, hslept⟩ :=
                ih hnext (Nat.pos_of_ne_zero hleft) (Nat.le_of_succ_le hle)
              refine ⟨⟨session.client, .error error, session.rotates lower error⟩ :: failed, last,
                ?_, Nat.succ_lt_succ hlength, ?_, ⟨hlast.1, ?_⟩, hresult, ?_⟩
              · rw [hrequests]
                rfl
              · rw [List.forall_mem_cons]
                exact ⟨⟨error, rfl, hretryable, h.rotates lower error⟩, hfailed⟩
              · intro error herror
                exact (hlast.2 error herror).imp_right (congrArg Nat.succ)
              · have hexponent : call.maxAttempts - left = call.maxAttempts - (left + 1) + 1 := by
                  omega
                rw [hslept, hexponent, List.length_cons, pow_succ, pow_succ]
                ring

theorem run_turns (lower : List Char → List Char) (calls : List (Call R))
    (h : session.At origin count) :
    Turns origin.pool count ((session.run lower calls).1.flatMap Entry.requests) := by
  induction calls generalizing session count with
  | nil => trivial
  | cons call calls ih =>
      obtain ⟨hturns, hat⟩ := attempts_turns lower call call.maxAttempts h
      rw [Session.run, List.flatMap_cons, turns_append]
      exact ⟨hturns, ih hat⟩

theorem run_bounded (lower : List Char → List Char) {calls : List (Call R)}
    (h : session.At origin count) :
    ∀ entry ∈ (session.run lower calls).1, 0 < entry.call.maxAttempts → entry.Bounded lower origin := by
  induction calls generalizing session count with
  | nil => simp [Session.run]
  | cons call calls ih =>
      rw [Session.run, List.forall_mem_cons]
      refine ⟨fun (hpos : 0 < call.maxAttempts) => ?_,
        ih (attempts_turns lower call call.maxAttempts h).2⟩
      obtain ⟨failed, last, hrequests, hlength, hfailed, hlast, hresult, hslept⟩ :=
        attempts_bounded lower call h hpos (le_refl _)
      refine ⟨failed, last, hrequests, hlength, hfailed, hlast, hresult, ?_⟩
      rw [Nat.sub_self, pow_zero, mul_one] at hslept
      exact hslept

end Turning

section Sharing

variable {R : Type*} {pool : KeyPool} {count : Nat} {requests : List (Request R)} {key other : List Char}

-- Of so many numbers in a row, about the same share has each remainder.
theorem count_modEq_bounds {size : Nat} (hsize : 0 < size) (remainder turns : Nat) :
    turns / size ≤ turns.count (· ≡ remainder [MOD size]) ∧
      turns.count (· ≡ remainder [MOD size]) ≤ turns / size + 1 := by
  rw [Nat.count_modEq_card turns hsize]
  split
  · exact ⟨Nat.le_succ _, le_refl _⟩
  · exact ⟨le_refl _, Nat.le_succ _⟩

theorem burned_eq (h : Turns pool count requests) (key : List Char) :
    burned requests key =
      (requests.countP Request.rotated).count fun turn => pool.keyAt (count + turn) = key := by
  have hkeys : ((requests.filter Request.rotated).map Request.key).countP (· = key) =
      ((List.range (requests.countP Request.rotated)).map
        fun turn => pool.keyAt (count + turn)).countP (· = key) := by rw [h.burned_keys]
  rw [List.countP_map, List.countP_filter, List.countP_map] at hkeys
  rw [Nat.count]
  refine Eq.trans (List.countP_congr fun request _ => ?_) hkeys
  simp [and_comm]

theorem keyAt_eq_iff (hnodup : pool.keys.Nodup) {place turn : Nat} (hplace : place < pool.keys.length) :
    pool.keyAt turn = pool.keys[place] ↔ turn % pool.keys.length = place := by
  have hturn : turn % pool.keys.length < pool.keys.length := Nat.mod_lt _ (Nat.zero_lt_of_lt hplace)
  rw [KeyPool.keyAt, List.getD_eq_getElem?_getD, List.getElem?_eq_getElem hturn, Option.getD_some]
  exact hnodup.getElem_inj_iff

-- The turns of a key are those with one remainder.
theorem exists_remainder (count : Nat) (hnodup : pool.keys.Nodup) (hkey : key ∈ pool.keys) :
    ∃ remainder, ∀ turn,
      pool.keyAt (count + turn) = key ↔ turn ≡ remainder [MOD pool.keys.length] := by
  obtain ⟨place, hplace, rfl⟩ := List.mem_iff_getElem.mp hkey
  have hcount : count % pool.keys.length < pool.keys.length :=
    Nat.mod_lt _ (Nat.zero_lt_of_lt hplace)
  refine ⟨place + (pool.keys.length - count % pool.keys.length), fun turn => ?_⟩
  have hround : count + (place + (pool.keys.length - count % pool.keys.length)) =
      place + pool.keys.length * (count / pool.keys.length + 1) := by
    have hdiv := Nat.div_add_mod count pool.keys.length
    rw [Nat.mul_succ]
    omega
  rw [keyAt_eq_iff hnodup hplace]
  constructor
  · intro hturn
    refine Nat.ModEq.add_left_cancel' count ?_
    rw [hround, Nat.ModEq, Nat.add_mul_mod_self_left, hturn, Nat.mod_eq_of_lt hplace]
  · intro hturn
    have hsum := hturn.add_left count
    rw [hround, Nat.ModEq, Nat.add_mul_mod_self_left, Nat.mod_eq_of_lt hplace] at hsum
    exact hsum

theorem burned_le (h : Turns pool count requests) (hnodup : pool.keys.Nodup)
    (hkey : key ∈ pool.keys) (hother : other ∈ pool.keys) :
    burned requests key ≤ burned requests other + 1 := by
  have hsize : 0 < pool.keys.length := List.length_pos_of_mem hkey
  obtain ⟨first, hfirst⟩ := exists_remainder count hnodup hkey
  obtain ⟨second, hsecond⟩ := exists_remainder count hnodup hother
  rw [burned_eq h key, burned_eq h other]
  simp only [hfirst, hsecond]
  have hupper := (count_modEq_bounds hsize first (requests.countP Request.rotated)).2
  have hlower := (count_modEq_bounds hsize second (requests.countP Request.rotated)).1
  omega

-- Whatever a client is asked and whatever it answers: the keys take turns, at each retried rate
-- limit the next one, and no key is given up more than once oftener than another.
theorem rate_limits_take_turns (lower : List Char → List Char) (pool : KeyPool) (applyKey : Bool)
    (calls : List (Call R)) (hnodup : pool.keys.Nodup) :
    (∀ before request after, ((Session.start pool applyKey).run lower calls).1.flatMap Entry.requests =
        before ++ request :: after →
      request.key = pool.keyAt (pool.idx + before.countP Request.rotated)) ∧
    (∀ key ∈ pool.keys, ∀ other ∈ pool.keys,
      burned (((Session.start pool applyKey).run lower calls).1.flatMap Entry.requests) key ≤
        burned (((Session.start pool applyKey).run lower calls).1.flatMap Entry.requests) other + 1) ∧
    ∀ entry ∈ ((Session.start pool applyKey).run lower calls).1, 0 < entry.call.maxAttempts →
      entry.Bounded lower (Session.start pool applyKey) := by
  have hstart : (Session.start pool applyKey).At (Session.start pool applyKey) pool.idx :=
    ⟨rfl, rfl, rfl, rfl⟩
  have hturns := run_turns lower calls hstart
  exact ⟨fun before request after hsplit => hturns.key hsplit,
    fun key hkey other hother => burned_le hturns hnodup hkey hother, run_bounded lower hstart⟩

-- Two keys that are used up one after the other, and then an answer.
def twoKeys : KeyPool := .ofCsv "a, b".toList

def busyTwice : Call Nat where
  fn attempt := if attempt < 2 then .error "Error code: 429".toList else .ok attempt

def busyRun : List (Request Nat) :=
  ((Session.start twoKeys true).run id [busyTwice]).1.flatMap Entry.requests

theorem two_keys_take_turns : twoKeys.keys.Nodup ∧
    busyRun.map Request.key = ["a".toList, "b".toList, "a".toList] ∧
    burned busyRun "a".toList ≤ burned busyRun "b".toList + 1 :=
  ⟨by decide, by decide,
    (rate_limits_take_turns id twoKeys true [busyTwice] (by decide)).2.1 _ (by decide) _ (by decide)⟩

end Sharing

end EvoClaw.AgentLoop.Llm
