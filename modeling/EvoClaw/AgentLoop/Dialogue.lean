import Mathlib.Data.List.Basic
import Mathlib.Data.List.Nodup
import Mathlib.Data.List.TakeWhile

-- Messages that issue calls and messages that carry the results of calls.
namespace Dialogue

variable {μ ι : Type*}

structure Protocol (μ ι : Type*) where
  calls : μ → List ι
  results : μ → List ι

namespace Protocol

variable (protocol : Protocol μ ι)

def isResult [DecidableEq ι] (msg : μ) : Bool :=
  protocol.results msg ≠ []

-- Every result comes after the message that issued its call, with only results of the same
-- message in between, and every call has exactly one result there.
structure Paired [DecidableEq ι] (msgs : List μ) : Prop where
  issued : ∀ before msg after, msgs = before ++ msg :: after → ∀ id ∈ protocol.results msg,
    ∃ earlier issuer between, before = earlier ++ issuer :: between ∧ id ∈ protocol.calls issuer ∧
      ∀ other ∈ between, protocol.results other ≠ [] ∧
        ∀ taken ∈ protocol.results other, taken ∈ protocol.calls issuer
  answered : ∀ before msg after, msgs = before ++ msg :: after → ∀ id ∈ protocol.calls msg,
    ((after.takeWhile protocol.isResult).flatMap protocol.results).count id = 1

-- The messages begin with the results of `pending`, and everything after them is paired.
def Awaits : List ι → List μ → Prop
  | pending, [] => pending = []
  | [], msg :: rest =>
      protocol.results msg = [] ∧ (protocol.calls msg).Nodup ∧ Awaits (protocol.calls msg) rest
  | pending@(_ :: _), msg :: rest =>
      protocol.calls msg = [] ∧ protocol.results msg ≠ [] ∧
        ∃ left, pending = protocol.results msg ++ left ∧ Awaits left rest

variable {protocol} {pending : List ι} {msgs rest : List μ} {msg : μ}

theorem awaits_plain (hcalls : protocol.calls msg = []) (hresults : protocol.results msg = []) :
    protocol.Awaits [] (msg :: rest) ↔ protocol.Awaits [] rest := by
  simp [Awaits, hcalls, hresults]

theorem Awaits.append (h : protocol.Awaits pending msgs) (hrest : protocol.Awaits [] rest) :
    protocol.Awaits pending (msgs ++ rest) := by
  induction msgs generalizing pending with
  | nil =>
      have hp : pending = [] := by simpa [Awaits] using h
      simpa [hp] using hrest
  | cons msg msgs ih =>
      cases pending with
      | nil => exact ⟨h.1, h.2.1, ih h.2.2⟩
      | cons id pending =>
          obtain ⟨hc, hr, left, heq, hleft⟩ := h
          exact ⟨hc, hr, left, heq, ih hleft⟩

theorem Awaits.tail (h : protocol.Awaits pending (msg :: msgs)) :
    ∃ left, protocol.Awaits left msgs := by
  cases pending with
  | nil => exact ⟨_, h.2.2⟩
  | cons id pending =>
      obtain ⟨-, -, left, -, hleft⟩ := h
      exact ⟨left, hleft⟩

theorem Awaits.drop (h : protocol.Awaits pending msgs) (n : Nat) :
    ∃ left, protocol.Awaits left (msgs.drop n) := by
  induction n generalizing pending msgs with
  | zero => exact ⟨pending, h⟩
  | succ n ih =>
      cases msgs with
      | nil => exact ⟨pending, h⟩
      | cons msg msgs =>
          obtain ⟨left, hleft⟩ := h.tail
          exact ih hleft

-- An issuer with the results of all its calls is a turn.
theorem awaits_turn {issuer : μ} {results : List μ} (hissuer : protocol.results issuer = [])
    (hnodup : (protocol.calls issuer).Nodup)
    (hcalls : ∀ msg ∈ results, protocol.calls msg = [])
    (hresults : ∀ msg ∈ results, protocol.results msg ≠ [])
    (hall : protocol.calls issuer = results.flatMap protocol.results) :
    protocol.Awaits [] (issuer :: results) := by
  refine ⟨hissuer, hnodup, ?_⟩
  rw [hall]
  clear hall hnodup
  induction results with
  | nil => rfl
  | cons msg results ih =>
      have hne := hresults msg (by simp)
      have hrest := ih (fun m hm => hcalls m (by simp [hm])) fun m hm => hresults m (by simp [hm])
      rw [List.flatMap_cons]
      cases hp : protocol.results msg with
      | nil => exact absurd hp hne
      | cons id ids =>
          exact ⟨hcalls msg (by simp), hne, results.flatMap protocol.results, by simp [hp], hrest⟩

-- A result at the front answers a pending call, any other one a call of an earlier message.
theorem Awaits.issued (h : protocol.Awaits pending msgs) {before after : List μ}
    (heq : msgs = before ++ msg :: after) {id : ι} (hid : id ∈ protocol.results msg) :
    (id ∈ pending ∧ ∀ other ∈ before, protocol.results other ≠ [] ∧
        ∀ taken ∈ protocol.results other, taken ∈ pending) ∨
      ∃ earlier issuer between, before = earlier ++ issuer :: between ∧
        id ∈ protocol.calls issuer ∧ ∀ other ∈ between, protocol.results other ≠ [] ∧
          ∀ taken ∈ protocol.results other, taken ∈ protocol.calls issuer := by
  induction before generalizing pending msgs with
  | nil =>
      subst heq
      cases pending with
      | nil =>
          rw [h.1] at hid
          cases hid
      | cons p pending =>
          obtain ⟨-, -, left, heq, -⟩ := h
          exact .inl ⟨heq ▸ List.mem_append_left _ hid, by simp⟩
  | cons first before ih =>
      subst heq
      cases pending with
      | nil =>
          rcases ih h.2.2 rfl with ⟨hmem, hbetween⟩ | ⟨earlier, issuer, between, heq, hrest⟩
          · exact .inr ⟨[], first, before, rfl, hmem, hbetween⟩
          · exact .inr ⟨first :: earlier, issuer, between, by rw [heq]; rfl, hrest⟩
      | cons p pending =>
          obtain ⟨-, hr, left, heq, hleft⟩ := h
          rcases ih hleft rfl with ⟨hmem, hbetween⟩ | ⟨earlier, issuer, between, hb, hrest⟩
          · refine .inl ⟨heq ▸ List.mem_append_right _ hmem, fun other ho => ?_⟩
            rcases List.mem_cons.mp ho with rfl | ho
            · exact ⟨hr, fun taken ht => heq ▸ List.mem_append_left _ ht⟩
            · exact ⟨(hbetween other ho).1, fun taken ht =>
                heq ▸ List.mem_append_right _ ((hbetween other ho).2 taken ht)⟩
          · exact .inr ⟨first :: earlier, issuer, between, by rw [hb]; rfl, hrest⟩

section Exchange

-- Calls that have a name only: the message behind the one that issues calls carries the results
-- of exactly these, in their order, and no other message carries results.
structure Exchanged (protocol : Protocol μ ι) (msgs : List μ) : Prop where
  answered : ∀ before msg after, msgs = before ++ msg :: after → protocol.calls msg ≠ [] →
    ∃ answer behind, after = answer :: behind ∧ protocol.results answer = protocol.calls msg
  issued : ∀ before msg after, msgs = before ++ msg :: after → protocol.results msg ≠ [] →
    ∃ earlier issuer, before = earlier ++ [issuer] ∧ protocol.calls issuer = protocol.results msg

-- The first message answers `pending`, when there is any.
def Expects (protocol : Protocol μ ι) : List ι → List μ → Prop
  | pending, [] => pending = []
  | [], msg :: rest => protocol.results msg = [] ∧ Expects protocol (protocol.calls msg) rest
  | pending@(_ :: _), msg :: rest =>
      protocol.calls msg = [] ∧ protocol.results msg = pending ∧ Expects protocol [] rest

theorem expects_plain (hcalls : protocol.calls msg = []) (hresults : protocol.results msg = []) :
    protocol.Expects [] (msg :: rest) ↔ protocol.Expects [] rest := by
  simp [Expects, hcalls, hresults]

theorem expects_exchange {answer : μ} (hresults : protocol.results msg = [])
    (hne : protocol.calls msg ≠ []) (hcalls : protocol.calls answer = [])
    (hanswer : protocol.results answer = protocol.calls msg) :
    protocol.Expects [] (msg :: answer :: rest) ↔ protocol.Expects [] rest := by
  obtain ⟨name, names, heq⟩ := List.exists_cons_of_ne_nil hne
  rw [heq] at hanswer
  simp [Expects, hresults, heq, hcalls, hanswer]

theorem Expects.append (h : protocol.Expects pending msgs) (hrest : protocol.Expects [] rest) :
    protocol.Expects pending (msgs ++ rest) := by
  induction msgs generalizing pending with
  | nil =>
      have hp : pending = [] := by simpa [Expects] using h
      simpa [hp] using hrest
  | cons msg msgs ih =>
      cases pending with
      | nil => exact ⟨h.1, ih h.2⟩
      | cons name names => exact ⟨h.1, h.2.1, ih h.2.2⟩

theorem Expects.drop (h : protocol.Expects pending msgs) (n : Nat) :
    ∃ left, protocol.Expects left (msgs.drop n) := by
  induction n generalizing pending msgs with
  | zero => exact ⟨pending, h⟩
  | succ n ih =>
      cases msgs with
      | nil => exact ⟨pending, h⟩
      | cons msg msgs =>
          cases pending with
          | nil => exact ih h.2
          | cons name names => exact ih h.2.2

-- Without an answer at their front the messages wait for nothing.
theorem Expects.dropWhile [DecidableEq ι] (h : protocol.Expects pending msgs) :
    protocol.Expects [] (msgs.dropWhile protocol.isResult) := by
  induction msgs generalizing pending with
  | nil => rfl
  | cons msg msgs ih =>
      cases pending with
      | nil =>
          rw [List.dropWhile_cons_of_neg (by simp [isResult, h.1])]
          exact h
      | cons name names =>
          rw [List.dropWhile_cons_of_pos (by simp [isResult, h.2.1])]
          exact ih h.2.2

theorem Expects.answered (h : protocol.Expects pending msgs) {before after : List μ}
    (heq : msgs = before ++ msg :: after) (hne : protocol.calls msg ≠ []) :
    ∃ answer behind, after = answer :: behind ∧ protocol.results answer = protocol.calls msg := by
  obtain ⟨left, hleft⟩ := h.drop before.length
  rw [heq, List.drop_left] at hleft
  cases left with
  | nil =>
      obtain ⟨name, names, hcalls⟩ := List.exists_cons_of_ne_nil hne
      have hbehind := hleft.2
      rw [hcalls] at hbehind
      cases after with
      | nil => cases hbehind
      | cons answer behind => exact ⟨answer, behind, rfl, hbehind.2.1.trans hcalls.symm⟩
  | cons name names => exact absurd hleft.1 hne

-- Results at the front answer `pending`, any other ones the message in front of them.
theorem Expects.issued (h : protocol.Expects pending msgs) {before after : List μ}
    (heq : msgs = before ++ msg :: after) (hne : protocol.results msg ≠ []) :
    (before = [] ∧ protocol.results msg = pending) ∨
      ∃ earlier issuer, before = earlier ++ [issuer] ∧
        protocol.calls issuer = protocol.results msg := by
  induction before generalizing pending msgs with
  | nil =>
      subst heq
      cases pending with
      | nil => exact absurd h.1 hne
      | cons name names => exact .inl ⟨rfl, h.2.1⟩
  | cons first before ih =>
      subst heq
      cases pending with
      | nil =>
          rcases ih h.2 rfl with ⟨rfl, hcalls⟩ | ⟨earlier, issuer, rfl, hcalls⟩
          · exact .inr ⟨[], first, rfl, hcalls.symm⟩
          · exact .inr ⟨first :: earlier, issuer, rfl, hcalls⟩
      | cons name names =>
          rcases ih h.2.2 rfl with ⟨-, hnone⟩ | ⟨earlier, issuer, rfl, hcalls⟩
          · exact absurd hnone hne
          · exact .inr ⟨first :: earlier, issuer, rfl, hcalls⟩

theorem Expects.exchanged (h : protocol.Expects [] msgs) : protocol.Exchanged msgs where
  answered := by
    intro before msg after heq hne
    exact h.answered heq hne
  issued := by
    intro before msg after heq hne
    rcases h.issued heq hne with ⟨-, hnone⟩ | hissuer
    · exact absurd hnone hne
    · exact hissuer

end Exchange

variable [DecidableEq ι]

-- What is left after the leading results starts a turn.
theorem Awaits.dropWhile (h : protocol.Awaits pending msgs) :
    protocol.Awaits [] (msgs.dropWhile protocol.isResult) := by
  induction msgs generalizing pending with
  | nil => simp [Awaits]
  | cons msg msgs ih =>
      cases pending with
      | nil =>
          rw [List.dropWhile_cons_of_neg (by simp [isResult, h.1])]
          exact h
      | cons id pending =>
          obtain ⟨-, hr, left, -, hleft⟩ := h
          rw [List.dropWhile_cons_of_pos (by simpa [isResult] using hr)]
          exact ih hleft

theorem Awaits.suffix (h : protocol.Awaits pending msgs) (n : Nat) :
    protocol.Awaits [] ((msgs.drop n).dropWhile protocol.isResult) := by
  obtain ⟨left, hleft⟩ := h.drop n
  exact hleft.dropWhile

omit [DecidableEq ι] in
theorem dropWhile_congr {test other : μ → Bool} (h : ∀ msg ∈ msgs, test msg = other msg) :
    msgs.dropWhile test = msgs.dropWhile other := by
  induction msgs with
  | nil => rfl
  | cons msg msgs ih =>
      rw [List.dropWhile_cons, List.dropWhile_cons, h msg (by simp),
        ih fun m hm => h m (by simp [hm])]

-- A trim keeps the first message and a suffix that does not begin with results.
theorem Awaits.trim {first : μ} {test : μ → Bool} (h : protocol.Awaits [] (first :: msgs))
    (hfirst : protocol.calls first = [])
    (htest : ∀ msg ∈ first :: msgs, test msg = protocol.isResult msg) (n : Nat) :
    protocol.Awaits [] (first :: ((first :: msgs).drop n).dropWhile test) := by
  rw [awaits_plain hfirst h.1, dropWhile_congr fun m hm => htest m (List.mem_of_mem_drop hm)]
  exact h.suffix n

-- The leading results are those of the pending calls.
theorem Awaits.leading (h : protocol.Awaits pending msgs) :
    (msgs.takeWhile protocol.isResult).flatMap protocol.results = pending := by
  induction msgs generalizing pending with
  | nil =>
      have hp : pending = [] := by simpa [Awaits] using h
      simp [hp]
  | cons msg msgs ih =>
      cases pending with
      | nil =>
          rw [List.takeWhile_cons_of_neg (by simp [isResult, h.1])]
          rfl
      | cons id pending =>
          obtain ⟨-, hr, left, heq, hleft⟩ := h
          rw [List.takeWhile_cons_of_pos (by simpa [isResult] using hr), List.flatMap_cons,
            ih hleft, heq]

theorem Awaits.answered (h : protocol.Awaits pending msgs) {before after : List μ}
    (heq : msgs = before ++ msg :: after) {id : ι} (hid : id ∈ protocol.calls msg) :
    ((after.takeWhile protocol.isResult).flatMap protocol.results).count id = 1 := by
  obtain ⟨left, hleft⟩ := h.drop before.length
  rw [heq, List.drop_left] at hleft
  cases left with
  | nil =>
      rw [hleft.2.2.leading]
      exact List.count_eq_one_of_mem hleft.2.1 hid
  | cons id' left =>
      rw [hleft.1] at hid
      cases hid

theorem Awaits.paired (h : protocol.Awaits [] msgs) : protocol.Paired msgs where
  issued := by
    intro before msg after heq id hid
    rcases h.issued heq hid with ⟨hmem, -⟩ | hissuer
    · cases hmem
    · exact hissuer
  answered := by
    intro before msg after heq id hid
    exact h.answered heq hid

end Protocol

end Dialogue
