import Mathlib.Algebra.Order.Group.Nat
import Mathlib.Algebra.Order.Group.Defs
import Mathlib.Data.List.Infix

-- A counter of failures with a limit. Who reaches it has to wait for a while after his last
-- failure, and is then relieved of some of them.
namespace Strikes

variable {T : Type*} [AddCommGroup T] [LinearOrder T] [IsOrderedAddMonoid T]
  {limit relief count : Nat} {pause now after : T} {last : Option T} {times : List T}

-- Since any of the failures there were so many reliefs that the counter explains the number of
-- failures, and each of them took a pause.
def Accounts (limit relief : Nat) (pause now : T) (count : Nat) (last : Option T)
    (times : List T) : Prop :=
  ∀ first rest, first :: rest <:+ times → ∃ reliefs : Nat,
    (first :: rest).length ≤ count + relief * reliefs ∧ first + reliefs • pause ≤ now ∧
      (limit ≤ count → ∃ time ∈ last, first + reliefs • pause ≤ time)

omit [IsOrderedAddMonoid T] in
theorem accounts_nil (limit relief : Nat) (pause now : T) (count : Nat) (last : Option T) :
    Accounts limit relief pause now count last [] := by
  intro first rest h
  cases List.suffix_nil.mp h

namespace Accounts

omit [IsOrderedAddMonoid T] in
theorem later (h : Accounts limit relief pause now count last times) (hlater : now ≤ after) :
    Accounts limit relief pause after count last times := by
  intro first rest hsuffix
  obtain ⟨reliefs, hlength, hpast, hlast⟩ := h first rest hsuffix
  exact ⟨reliefs, hlength, hpast.trans hlater, hlast⟩

omit [IsOrderedAddMonoid T] in
theorem failure (h : Accounts limit relief pause now count last times) :
    Accounts limit relief pause now (count + 1) (some now) (times ++ [now]) := by
  intro first rest hsuffix
  rcases rest.eq_nil_or_concat with rfl | ⟨rest, time, rfl⟩
  · -- the failure itself
    obtain ⟨before, hbefore⟩ := hsuffix
    obtain rfl : first = now := by simpa using (List.append_inj' hbefore rfl).2
    exact ⟨0, by simp, by simp, fun _ => ⟨first, rfl, by simp⟩⟩
  · obtain ⟨before, hbefore⟩ := hsuffix
    rw [List.concat_eq_append, ← List.cons_append, ← List.append_assoc] at hbefore
    obtain ⟨hold, hnew⟩ := List.append_inj' hbefore rfl
    obtain rfl : time = now := by simpa using hnew
    obtain ⟨reliefs, hlength, hpast, -⟩ := h first rest ⟨before, hold⟩
    refine ⟨reliefs, ?_, hpast, fun _ => ⟨time, rfl, hpast⟩⟩
    simp only [List.concat_eq_append, List.length_cons, List.length_append,
      List.length_nil] at hlength ⊢
    omega

theorem relieve (h : Accounts limit relief pause now count last times) (hlimit : limit ≤ count)
    (hrelief : relief ≤ count) (hbelow : count - relief < limit)
    (hpause : ∀ time ∈ last, pause ≤ now - time) :
    Accounts limit relief pause now (count - relief) none times := by
  intro first rest hsuffix
  obtain ⟨reliefs, hlength, -, hlast⟩ := h first rest hsuffix
  obtain ⟨time, htime, hle⟩ := hlast hlimit
  refine ⟨reliefs + 1, ?_, ?_, fun hagain => absurd hagain (Nat.not_le_of_lt hbelow)⟩
  · rw [Nat.mul_add, Nat.mul_one]
    omega
  · calc first + (reliefs + 1) • pause = first + reliefs • pause + pause := by
          rw [succ_nsmul, add_assoc]
      _ ≤ time + (now - time) := add_le_add hle (hpause time htime)
      _ = now := add_sub_cancel time now

omit [IsOrderedAddMonoid T] in
-- From one failure on there are at most as many as the limit, and the reliefs for each pause.
theorem bound (h : Accounts limit relief pause now count last times) (hcount : count ≤ limit)
    {first : T} {rest : List T} (hsuffix : first :: rest <:+ times) : ∃ reliefs : Nat,
    (first :: rest).length ≤ limit + relief * reliefs ∧ first + reliefs • pause ≤ now := by
  obtain ⟨reliefs, hlength, hpast, -⟩ := h first rest hsuffix
  exact ⟨reliefs, hlength.trans (Nat.add_le_add_right hcount _), hpast⟩

end Accounts

end Strikes
