import EvoClaw.SelfUpdate.Allowlist
import EvoClaw.SelfUpdate.Attempts

namespace EvoClaw.SelfUpdate

open EventSystem Posix

variable {β : Type} {tools : Tools β} {checkout : Checkout FilePath β} {maxRetries : Nat}
  {state next : State β} {event : Event} {llmText : Option (List Char)} {rc : Int}
  {diff : List Char} {files : Files β}

-- A patch is tested on the checkout and nothing else, and what is pushed is the checkout with the
-- patch of the last attempt, which has passed.
structure NoTrace (tools : Tools β) (checkout : Checkout FilePath β) (state : State β) : Prop where
  tested : ∀ diff files, (diff, files) ∈ state.tested →
    tools.gitApply checkout.files diff = some files
  pushed : ∀ tree, state.pushed = some tree → ∃ attempt files,
    state.attempts.getLast? = some attempt ∧ attempt.passed = true ∧
      tools.gitApply checkout.files attempt.diff = some files ∧
      tree = checkout.stage (tools.ignored files) files

-- A patch that is applied and then reverted has changed no file outside the index.
def RevertsTracked (tools : Tools β) (checkout : Checkout FilePath β) (state : State β) :
    Event → Prop
  | .attempt llmText rc => ∀ diff files, proposal llmText = .ok diff →
      tools.gitApply state.files diff = some files →
      testsUnchanged tools checkout.files files = false ∨ rc ≠ 0 →
      ∀ path ∉ checkout.index, files.lookup path = state.files.lookup path
  | .finish _ _ => True

structure Clean (tools : Tools β) (checkout : Checkout FilePath β) (state : State β) : Prop where
  noTrace : NoTrace tools checkout state
  restored : state.stopped = false → state.files = checkout.files
  applied : ∀ attempt, state.attempts.getLast? = some attempt → attempt.passed = true →
    tools.gitApply checkout.files attempt.diff = some state.files
  unpushed : state.finished = false → state.pushed = none

theorem not_passed_of_proposal {attempt : Attempt} (h : proposal llmText = .error attempt) :
    attempt.passed = false := by
  unfold proposal at h
  simp only at h
  split at h
  · cases h
    rfl
  · split at h
    · cases h
      rfl
    · split at h
      · cases h
        rfl
      · split at h
        · cases h
        · cases h
          rfl

-- How an attempt ends: before git apply, in git apply, after it, or in pytest.
theorem attempt_cases :
    (∃ attempt stopped, attempt.passed = false ∧ state.attempt tools checkout llmText rc =
      { state.record attempt with stopped := stopped }) ∨
    ∃ diff, proposal llmText = .ok diff ∧
      ((tools.gitApply state.files diff = none ∧ state.attempt tools checkout llmText rc =
        (state.revert checkout).reject diff .applyFailed) ∨
      ∃ files, tools.gitApply state.files diff = some files ∧
        ((testsUnchanged tools checkout.files files = false ∧
          state.attempt tools checkout llmText rc =
            (State.revert checkout { state with files := files }).reject diff .modifiedTests) ∨
        state.attempt tools checkout llmText rc =
          State.test checkout { state with files := files } diff rc)) := by
  unfold State.attempt
  cases hproposal : proposal llmText with
  | error attempt => exact .inl ⟨attempt, _, not_passed_of_proposal hproposal, rfl⟩
  | ok diff =>
      refine .inr ⟨diff, rfl, ?_⟩
      dsimp only
      cases happly : tools.gitApply state.files diff with
      | none => exact .inl ⟨rfl, rfl⟩
      | some files =>
          refine .inr ⟨files, rfl, ?_⟩
          cases htests : testsUnchanged tools checkout.files files with
          | false => exact .inl ⟨rfl, by simp [htests]⟩
          | true => exact .inr (by simp [htests])

section Steps

-- An attempt that has not passed leaves the checkout.
theorem Clean.rejected (h : Clean tools checkout state) (hfinished : state.finished = false)
    {attempt : Attempt} {tested : List (List Char × Files β)} {stopped : Bool}
    (hpassed : attempt.passed = false) (hfiles : files = checkout.files)
    (htested : ∀ diff files, (diff, files) ∈ tested →
      tools.gitApply checkout.files diff = some files) :
    Clean tools checkout { state with
      files := files
      attempts := state.attempts ++ [attempt]
      stopped := stopped
      tested := tested } := by
  refine ⟨⟨htested, fun tree hpushed => ?_⟩, fun _ => hfiles, fun last hlast hpass => ?_, h.unpushed⟩
  · rw [show state.pushed = none from h.unpushed hfinished] at hpushed
    cases hpushed
  · rw [List.getLast?_concat] at hlast
    rw [← Option.some.inj hlast, hpassed] at hpass
    cases hpass

theorem Clean.attempt (h : Clean tools checkout state) (hstopped : state.stopped = false)
    (hfinished : state.finished = false)
    (hguard : RevertsTracked tools checkout state (.attempt llmText rc)) :
    Clean tools checkout (state.attempt tools checkout llmText rc) := by
  have hfiles := h.restored hstopped
  rcases @attempt_cases β tools checkout state llmText rc with ⟨attempt, stopped, hpassed, heq⟩ |
    ⟨diff, hproposal, ⟨-, heq⟩ | ⟨files, happly, hrest⟩⟩
  · rw [heq]
    exact h.rejected hfinished hpassed hfiles h.noTrace.tested
  · rw [heq]
    refine h.rejected hfinished rfl ?_ h.noTrace.tested
    rw [show (state.revert checkout).files = checkout.revert state.files from rfl, hfiles]
    exact checkout.revert_files
  · have hreverted (hreason : testsUnchanged tools checkout.files files = false ∨ rc ≠ 0) :
        checkout.revert files = checkout.files := by
      refine Checkout.revert_eq_iff.mpr fun path hpath => ?_
      rw [hguard diff files hproposal happly hreason path hpath, hfiles]
    rw [hfiles] at happly
    rcases hrest with ⟨htests, heq⟩ | heq
    · rw [heq]
      exact h.rejected hfinished rfl (hreverted (.inl htests)) h.noTrace.tested
    · have htested : ∀ diff' files', (diff', files') ∈ state.tested ++ [(diff, files)] →
          tools.gitApply checkout.files diff' = some files' := by
        intro diff' files' hmem
        rcases List.mem_append.mp hmem with hold | hnew
        · exact h.noTrace.tested diff' files' hold
        · obtain ⟨rfl, rfl⟩ := Prod.mk.inj (List.mem_singleton.mp hnew)
          exact happly
      rw [heq, State.test]
      by_cases hrc : rc = 0
      · simp only [hrc, if_true]
        refine ⟨⟨htested, fun tree hpushed => ?_⟩, nofun, fun last hlast _ => ?_, h.unpushed⟩
        · rw [State.record, show state.pushed = none from h.unpushed hfinished] at hpushed
          cases hpushed
        · rw [State.record, List.getLast?_concat] at hlast
          rw [← Option.some.inj hlast]
          exact happly
      · simp only [hrc, if_false]
        exact h.rejected hfinished rfl (hreverted (.inr hrc)) htested

theorem Clean.finish (h : Clean tools checkout state) (requireHumanApprove pushes : Bool) :
    Clean tools checkout (state.finish tools checkout requireHumanApprove pushes) := by
  refine ⟨⟨h.noTrace.tested, fun tree hpushed => ?_⟩, h.restored, h.applied, nofun⟩
  simp only [State.finish] at hpushed ⊢
  split at hpushed
  · rename_i hall
    simp only [Bool.and_eq_true] at hall
    cases hlast : state.attempts.getLast? with
    | none => simp [hlast] at hall
    | some attempt =>
        have hpassed : attempt.passed = true := by simpa [hlast] using hall.1.1
        exact ⟨attempt, state.files, rfl, hpassed, h.applied attempt hlast hpassed,
          (Option.some.inj hpushed).symm⟩
  · cases hpushed

theorem Clean.step (h : Clean tools checkout state)
    (hguard : RevertsTracked tools checkout state event)
    (he : step tools checkout maxRetries state event = some next) :
    Clean tools checkout next := by
  cases event with
  | attempt llmText rc =>
      obtain ⟨⟨hstopped, hfinished, -⟩, ⟨⟩⟩ := Option.ite_none_right_eq_some.mp he
      exact h.attempt hstopped hfinished hguard
  | finish requireHumanApprove pushes =>
      obtain ⟨-, ⟨⟩⟩ := Option.ite_none_right_eq_some.mp he
      exact h.finish requireHumanApprove pushes

theorem clean_initial (checkout : Checkout FilePath β) : Clean tools checkout (initial checkout) :=
  ⟨⟨nofun, nofun⟩, fun _ => rfl, nofun, fun _ => rfl⟩

end Steps

-- As long as every patch that is reverted has kept to the tracked files, the attempts leave no
-- trace of one another.
theorem noTrace_of_revertsTracked (checkout : Checkout FilePath β) (maxRetries : Nat)
    (events : List Event)
    (hguard : Along (step tools checkout maxRetries) (RevertsTracked tools checkout)
      (initial checkout) events) :
    Always (step tools checkout maxRetries) (NoTrace tools checkout) (initial checkout) events :=
  hguard.always (Clean tools checkout) (fun _ _ _ h hg he => h.step hg he) (fun _ h => h.noTrace)
    (clean_initial checkout)

section Examples

def routerPath : FilePath := "host/router.py".toList

def helperPath : FilePath := "host/helper.py".toList

def helperDiff : List Char :=
  ("--- /dev/null\n+++ b/host/helper.py\n@@ -0,0 +1 @@\n+import os\n" ++
    "\\ No newline at end of file").toList

-- A git that is asked for the two patches only.
def sampleTools : Tools String where
  gitApply := fun files diff =>
    if diff = helperDiff then
      if helperPath ∈ files then none else some (files.insert helperPath "import os")
    else if diff = routerDiff then
      if files.lookup routerPath = some "import sys\n" then
        some (files.insert routerPath "import os")
      else none
    else none
  sha256 := id
  ignored := fun _ _ => false

def sampleCheckout : Checkout FilePath String where
  index := Finmap.singleton routerPath "import sys\n"
  untracked := ∅
  apart := fun _ _ hmem => Finmap.notMem_empty hmem

def answer (diff : List Char) : Option (List Char) :=
  some ("```diff\n".toList ++ diff ++ "\n```".toList)

-- The first patch creates a file and fails, the second one passes.
theorem created_file_pushed :
    let events : List Event :=
      [.attempt (answer helperDiff) 1, .attempt (answer routerDiff) 0, .finish true true]
    ¬ Always (step sampleTools sampleCheckout 3) (NoTrace sampleTools sampleCheckout)
        (initial sampleCheckout) events ∧
    ∃ final, run (step sampleTools sampleCheckout 3) (initial sampleCheckout) events =
        some final ∧
      final.pushed.map (fun tree => tree helperPath) = some (some "import os") := by
  intro events
  have hrun : (run (step sampleTools sampleCheckout 3) (initial sampleCheckout) events).map
      (fun final => (final.pushed.map fun tree => tree helperPath,
        final.tested.any fun test => test.1 = routerDiff ∧ helperPath ∈ test.2)) =
      some (some (some "import os"), true) := by decide +kernel
  obtain ⟨final, hfinal, heq⟩ := Option.map_eq_some_iff.mp hrun
  obtain ⟨hpushed, htested⟩ := Prod.mk.inj heq
  refine ⟨fun halways => ?_, final, hfinal, hpushed⟩
  obtain ⟨⟨diff, files⟩, hmem, hfiles⟩ := List.any_eq_true.mp htested
  obtain ⟨rfl, hleft⟩ := of_decide_eq_true hfiles
  have happly := (halways.reached hfinal).tested routerDiff files hmem
  have hclean : (sampleTools.gitApply sampleCheckout.files routerDiff).all
      (fun files => helperPath ∉ files) = true := by decide +kernel
  rw [happly] at hclean
  exact of_decide_eq_true hclean hleft

theorem router_keeps_untracked (state : State String) (rc : Int) :
    RevertsTracked sampleTools sampleCheckout state (.attempt (answer routerDiff) rc) := by
  intro diff files hproposal happly _ path hpath
  have hrouter : proposal (answer routerDiff) = .ok routerDiff := by decide +kernel
  rw [hrouter] at hproposal
  obtain rfl := Except.ok.inj hproposal
  have hother : routerDiff ≠ helperDiff := by decide +kernel
  simp only [sampleTools, if_neg hother, if_true, Option.ite_none_right_eq_some] at happly
  rw [← Option.some.inj happly.2]
  refine Finmap.lookup_insert_of_ne _ ?_
  rintro rfl
  exact hpath ((Finmap.mem_singleton _ _ _).mpr rfl)

theorem router_leaves_no_trace :
    Always (step sampleTools sampleCheckout 3) (NoTrace sampleTools sampleCheckout)
      (initial sampleCheckout)
      [.attempt (answer routerDiff) 1, .attempt (answer routerDiff) 0, .finish true true] := by
  refine noTrace_of_revertsTracked sampleCheckout 3 _ (along_of_mem (fun event hmem state => ?_) _)
  simp only [List.mem_cons, List.not_mem_nil, or_false] at hmem
  rcases hmem with rfl | rfl | rfl
  · exact router_keeps_untracked state 1
  · exact router_keeps_untracked state 0
  · trivial

end Examples

end EvoClaw.SelfUpdate
