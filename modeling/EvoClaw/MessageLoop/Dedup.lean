import EvoClaw.RecencyTable
import EvoClaw.Text.Search
import Mathlib.Algebra.Order.Ring.Rat
import Mathlib.Tactic.NormNum

-- The fence against messages that are delivered twice.
namespace EvoClaw.MessageLoop

open RecencyTable

def DEDUP_MAX : Nat := 1000

-- In seconds.
def DEDUP_TTL_SECS : ℚ := 300

def nul : Char := Char.ofNat 0

structure Incoming where
  jid : List Char
  sender : List Char
  content : List Char
  jid_plain : nul ∉ jid
  sender_plain : nul ∉ sender
deriving DecidableEq

-- The text whose digest is the fingerprint.
def Incoming.raw (msg : Incoming) : List Char :=
  msg.jid ++ nul :: (msg.sender ++ nul :: msg.content)

structure Fence (Fp : Type*) where
  -- _dedup_lock is set
  locked : Bool
  -- _seen_msg_fingerprints, the least recently used one first
  seen : List (Fp × ℚ)

-- What main() has set up before the channels connect.
def Fence.ready (Fp : Type*) : Fence Fp := ⟨true, []⟩

section Calls

variable {Fp : Type*} [DecidableEq Fp] (sha256 : List Char → Fp)

-- Nothing awaits while the lock is held, so that a call is one step.
def isDuplicateMessage (fence : Fence Fp) (msg : Incoming) (now : ℚ) : Bool × Fence Fp :=
  let fp := sha256 msg.raw
  let insert (seen : List (Fp × ℚ)) :=
    let seen := seen ++ [(fp, now)]
    { fence with seen := if DEDUP_MAX < seen.length then seen.tail else seen }
  if fence.locked then
    match fence.seen.lookup fp with
    | some insertedAt =>
        if now - insertedAt < DEDUP_TTL_SECS then
          (true, { fence with seen := others fence.seen fp ++ [(fp, insertedAt)] })
        else (false, insert (others fence.seen fp))
    | none => (false, insert fence.seen)
  else (false, fence)

def fenceAnswers : Fence Fp → List (Incoming × ℚ) → List (RecencyTable.Answer Incoming ℚ)
  | _, [] => []
  | fence, (msg, now) :: rest =>
      let (duplicate, fence) := isDuplicateMessage sha256 fence msg now
      ⟨msg, now, duplicate⟩ :: fenceAnswers fence rest

-- A message is a duplicate only of one that was admitted within the time to live, and it is one
-- unless as many other messages as the table holds came in between.
structure Fences (calls : List (Incoming × ℚ)) : Prop where
  sound : ∀ before answer after,
    fenceAnswers sha256 (Fence.ready Fp) calls = before ++ answer :: after →
      answer.found = true → ∃ earlier ∈ before, earlier.subject = answer.subject ∧
        earlier.found = false ∧ answer.time - earlier.time < DEDUP_TTL_SECS
  complete : ∀ before earlier between answer after,
    fenceAnswers sha256 (Fence.ready Fp) calls =
      before ++ earlier :: (between ++ answer :: after) →
      earlier.subject = answer.subject → earlier.found = false →
      answer.time - earlier.time < DEDUP_TTL_SECS →
      ((between.map fun other => sha256 other.subject.raw).toFinset.erase
        (sha256 answer.subject.raw)).card < DEDUP_MAX →
      answer.found = true

variable {sha256}

theorem isDuplicateMessage_ready (seen : List (Fp × ℚ)) (msg : Incoming) (now : ℚ) :
    isDuplicateMessage sha256 ⟨true, seen⟩ msg now =
      ((present DEDUP_MAX DEDUP_TTL_SECS now seen (sha256 msg.raw)).1,
        ⟨true, (present DEDUP_MAX DEDUP_TTL_SECS now seen (sha256 msg.raw)).2⟩) := by
  unfold isDuplicateMessage present
  simp only [if_true]
  cases hlookup : seen.lookup (sha256 msg.raw) with
  | some insertedAt =>
      simp only
      split
      · rfl
      · rfl
  | none =>
      have hnew : sha256 msg.raw ∉ seen.map Prod.fst := by
        intro hmem
        obtain ⟨entry, hentry, heq⟩ := List.mem_map.mp hmem
        have hne := List.lookup_eq_none_iff.mp hlookup entry hentry
        rw [heq] at hne
        simp at hne
      simp only [RecencyTable.insert, others_eq_self hnew]
      rfl

theorem fenceAnswers_ready (seen : List (Fp × ℚ)) (calls : List (Incoming × ℚ)) :
    fenceAnswers sha256 ⟨true, seen⟩ calls =
      RecencyTable.answers DEDUP_MAX DEDUP_TTL_SECS (fun msg : Incoming => sha256 msg.raw) seen calls := by
  induction calls generalizing seen with
  | nil => rfl
  | cons call rest ih =>
      obtain ⟨msg, now⟩ := call
      rw [fenceAnswers, isDuplicateMessage_ready, RecencyTable.answers_cons, ← ih]

end Calls

-- The ids end at their first NUL.
theorem Incoming.raw_injective : Function.Injective Incoming.raw := by
  intro msg other h
  obtain ⟨jid, sender, content, hjid, hsender⟩ := msg
  obtain ⟨jid', sender', content', hjid', hsender'⟩ := other
  simp only [Incoming.raw] at h
  obtain ⟨rfl, hrest⟩ := Text.split_unique hjid hjid' h
  obtain ⟨rfl, rfl⟩ := Text.split_unique hsender hsender' hrest
  rfl

theorem duplicates_fenced {Fp : Type*} [DecidableEq Fp] (sha256 : List Char → Fp)
    (calls : List (Incoming × ℚ))
    (hinjective : Set.InjOn sha256 {text | ∃ call ∈ calls, text = call.1.raw})
    (hsorted : calls.Pairwise fun call later => call.2 ≤ later.2) : Fences sha256 calls := by
  have hready : fenceAnswers sha256 (Fence.ready Fp) calls = _ := fenceAnswers_ready [] calls
  refine ⟨fun before answer after hsplit hfound => ?_,
    fun before earlier between answer after hsplit hsame hmissed hfresh hroom => ?_⟩
  · rw [hready] at hsplit
    have hempty : Inserted (fun msg : Incoming => sha256 msg.raw) ([] : List (RecencyTable.Answer Incoming ℚ))
        ([] : List (Fp × ℚ)) := fun _ h => nomatch h
    obtain ⟨earlier, hmem, hkey, hmissed, hfresh⟩ := hempty.sound hsplit hfound
    rw [List.nil_append] at hmem
    obtain ⟨first, more, rfl⟩ := List.append_of_mem hmem
    rw [List.append_assoc, List.cons_append] at hsplit
    have hearlier : (earlier.subject, earlier.time) ∈ calls := mem_calls hsplit
    rw [List.append_cons, ← List.append_assoc] at hsplit
    have hanswer : (answer.subject, answer.time) ∈ calls := mem_calls hsplit
    have hraw : earlier.subject.raw = answer.subject.raw :=
      hinjective ⟨_, hearlier, rfl⟩ ⟨_, hanswer, rfl⟩ hkey
    exact ⟨earlier, hmem, Incoming.raw_injective hraw, hmissed, hfresh⟩
  · rw [hready] at hsplit
    exact RecencyTable.complete (by decide) hsorted hsplit (by rw [hsame]) hmissed hfresh hroom

-- A message that is delivered again after a second, and again after the time to live.
def redelivered : List (Incoming × ℚ) :=
  [(⟨['g'], ['u'], ['h', 'i'], by decide, by decide⟩, 0),
    (⟨['g'], ['u'], ['h', 'i'], by decide, by decide⟩, 1),
    (⟨['g'], ['u'], ['h', 'i'], by decide, by decide⟩, 300)]

theorem redelivered_fenced : Fences id redelivered :=
  duplicates_fenced id redelivered (Set.injOn_id _) (by decide +kernel)

example : (fenceAnswers id (Fence.ready (List Char)) redelivered).map RecencyTable.Answer.found =
    [false, true, false] := by
  decide +kernel

end EvoClaw.MessageLoop
