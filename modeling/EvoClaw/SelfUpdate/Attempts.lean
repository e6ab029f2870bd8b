import EvoClaw.EventSystem.Runs
import EvoClaw.Posix.Checkout
import EvoClaw.Text.Lines
import EvoClaw.Text.Search
import Mathlib.Data.List.Dedup

-- The patches of host/self_update_ai_fix.py.
namespace EvoClaw.SelfUpdate

open Text

abbrev FilePath := List Char

def PATCH_ALLOW_PREFIXES : List FilePath :=
  ["host/".toList, "container/agent-runner/".toList, "scripts/".toList, "docs/".toList]

def PATCH_DENY_PREFIXES : List FilePath :=
  ["tests/".toList, ".github/".toList, ".env".toList, ".env.example".toList]

-- What the pattern ```(?:diff|patch)?\n(.+?)``` captures where the text starts.
def fenceAt (text : List Char) : Option (List Char) :=
  let body (rest : List Char) : Option (List Char) :=
    match rest with
    | '\n' :: body => (find "```".toList (body.drop 1)).map fun n => body.take (n + 1)
    | _ => none
  if "```".toList.isPrefixOf text then
    let rest := text.drop 3
    if "diff".toList.isPrefixOf rest then body (rest.drop 4)
    else if "patch".toList.isPrefixOf rest then body (rest.drop 5)
    else body rest
  else none

def fenced : List Char → Option (List Char)
  | [] => none
  | c :: rest => (fenceAt (c :: rest)).or (fenced rest)

def extractDiff (text : List Char) : Option (List Char) :=
  let raw := (find "diff --git".toList text).map fun idx => strip (text.drop idx)
  match (fenced text).map strip with
  | some candidate =>
      if contains candidate "diff --git".toList ∨ "--- ".toList.isPrefixOf candidate then
        some candidate
      else raw
  | none => raw

def withoutPrefix (mark path : FilePath) : FilePath :=
  if mark.isPrefixOf path then path.drop mark.length else path

-- The paths that the check takes from a line.
def pathsOf (line : List Char) : List FilePath :=
  if "diff --git ".toList.isPrefixOf line then
    match words line with
    | _ :: _ :: old :: new :: _ =>
        [withoutPrefix "a/".toList old, withoutPrefix "b/".toList new]
    | _ => []
  else if "+++ b/".toList.isPrefixOf line ∨ "--- a/".toList.isPrefixOf line then
    [strip (line.drop 6)]
  else []

def Allowed (path : FilePath) : Prop :=
  (∀ mark ∈ PATCH_DENY_PREFIXES, ¬ mark <+: path) ∧ ∃ mark ∈ PATCH_ALLOW_PREFIXES, mark <+: path

instance : DecidablePred Allowed := fun path =>
  inferInstanceAs (Decidable ((∀ mark ∈ PATCH_DENY_PREFIXES, ¬ mark <+: path) ∧
    ∃ mark ∈ PATCH_ALLOW_PREFIXES, mark <+: path))

-- The offending paths are in the order of their first lines.
def diffTouchesOnlyAllowlist (diffText : List Char) : Bool × List FilePath :=
  let paths := ((splitlines diffText).flatMap pathsOf).dedup
  let bad := paths.filter fun path => ¬ Allowed path
  (decide (bad = []), bad)

theorem diffTouchesOnlyAllowlist_iff {diffText : List Char} :
    (diffTouchesOnlyAllowlist diffText).1 = true ↔
      ∀ line ∈ splitlines diffText, ∀ path ∈ pathsOf line, Allowed path := by
  simp only [diffTouchesOnlyAllowlist, decide_eq_true_eq, List.filter_eq_nil_iff, List.mem_dedup,
    List.mem_flatMap, decide_not, Bool.not_eq_true', decide_eq_false_iff_not, not_not]
  exact ⟨fun h line hline path hpath => h path ⟨line, hline, hpath⟩,
    fun h path ⟨line, hline, hpath⟩ => h line hline path hpath⟩

end EvoClaw.SelfUpdate

-- The attempts of host/self_update_ai_fix.py in the worktree of an update.
namespace EvoClaw.SelfUpdate

open Posix Text

variable {β : Type}

abbrev Files (β : Type) := FileMap FilePath β

inductive RejectReason where
  | llmCallFailed
  | noFix
  | noValidDiff
  | disallowedPaths (paths : List FilePath)
  | applyFailed
  | modifiedTests
  | stillFailing (rc : Int)
deriving DecidableEq

-- The record of an attempt. It has no reason where the tests have passed.
structure Attempt where
  diff : List Char := []
  rejectReason : Option RejectReason
deriving DecidableEq

def Attempt.passed (attempt : Attempt) : Bool :=
  attempt.rejectReason.isNone

-- git apply changes nothing when it fails.
structure Tools (β : Type) where
  gitApply : Files β → List Char → Option (Files β)
  sha256 : β → String
  ignored : Files β → FilePath → Bool

-- `tested` are the patches that pytest was run on, with the files it has found, and `pushed` is
-- the tree of the pushed commit.
structure State (β : Type) where
  files : Files β
  attempts : List Attempt := []
  stopped : Bool := false
  finished : Bool := false
  tested : List (List Char × Files β) := []
  pushed : Option (FilePath → Option β) := none

def isTest (path : FilePath) : Bool :=
  "tests/".toList.isPrefixOf path

def testsUnchanged (tools : Tools β) (before after : Files β) : Bool :=
  decide (∀ path ∈ before.keys ∪ after.keys, isTest path = true →
    (before.lookup path).map tools.sha256 = (after.lookup path).map tools.sha256)

-- The diff of the model's answer, or the record of the attempt that ends here.
def proposal (llmText : Option (List Char)) : Except Attempt (List Char) :=
  let text := llmText.getD []
  if text = [] then .error { rejectReason := some .llmCallFailed }
  else if contains text "# NO FIX".toList then .error { rejectReason := some .noFix }
  else match extractDiff text with
    | none => .error { diff := text.take 1000, rejectReason := some .noValidDiff }
    | some diff =>
        let (okPath, badPaths) := diffTouchesOnlyAllowlist diff
        if okPath then .ok diff
        else .error { diff := diff, rejectReason := some (.disallowedPaths badPaths) }

namespace State

def record (state : State β) (attempt : Attempt) : State β :=
  { state with attempts := state.attempts ++ [attempt] }

def revert (checkout : Checkout FilePath β) (state : State β) : State β :=
  { state with files := checkout.revert state.files }

def reject (state : State β) (diff : List Char) (reason : RejectReason) : State β :=
  state.record { diff := diff, rejectReason := some reason }

-- pytest is run on the patched files and returns `rc`.
def test (checkout : Checkout FilePath β) (state : State β) (diff : List Char) (rc : Int) :
    State β :=
  let state := { state with tested := state.tested ++ [(diff, state.files)] }
  if rc = 0 then { state.record { diff := diff, rejectReason := none } with stopped := true }
  else (state.revert checkout).reject diff (.stillFailing rc)

def attempt (tools : Tools β) (checkout : Checkout FilePath β) (state : State β)
    (llmText : Option (List Char)) (rc : Int) : State β :=
  match proposal llmText with
  | .error attempt =>
      { state.record attempt with
        stopped := decide (attempt.rejectReason = some .noFix) }
  | .ok diff =>
      match tools.gitApply state.files diff with
      | none => (state.revert checkout).reject diff .applyFailed
      | some files =>
          let state := { state with files := files }
          if testsUnchanged tools checkout.files files then state.test checkout diff rc
          else (state.revert checkout).reject diff .modifiedTests

-- `pushes` says that every git command of the push works.
def finish (tools : Tools β) (checkout : Checkout FilePath β) (state : State β)
    (requireHumanApprove pushes : Bool) : State β :=
  let passed := (state.attempts.getLast?.map Attempt.passed).getD false
  { state with
    finished := true
    pushed := if passed && requireHumanApprove && pushes then
        some (checkout.stage (tools.ignored state.files) state.files)
      else none }

end State

inductive Event where
  | attempt (llmText : Option (List Char)) (rc : Int)
  | finish (requireHumanApprove pushes : Bool)

def step (tools : Tools β) (checkout : Checkout FilePath β) (maxRetries : Nat) (state : State β) :
    Event → Option (State β)
  | .attempt llmText rc =>
      if state.stopped = false ∧ state.finished = false ∧ state.attempts.length < maxRetries then
        some (state.attempt tools checkout llmText rc)
      else none
  | .finish requireHumanApprove pushes =>
      if state.finished = false ∧ (state.stopped = true ∨ state.attempts.length = maxRetries) then
        some (state.finish tools checkout requireHumanApprove pushes)
      else none

def initial (checkout : Checkout FilePath β) : State β where
  files := checkout.files

end EvoClaw.SelfUpdate
