import EvoClaw.Json
import EvoClaw.LastWriter

-- How host/hooks_engine.py puts the results of an event's hooks together.
namespace EvoClaw.Hooks

def EXIT_SUCCESS : Int := 0

def EXIT_BLOCK : Int := 2

-- What None stands for is none. The fields that only the log shows are left out.
structure HookResult where
  exitCode : Int := EXIT_SUCCESS
  stderr : String := ""
  hookName : String := ""
  continues : Bool := true
  decision : String := ""
  reason : String := ""
  updatedInput : Option Json := none
  additionalContext : String := ""
  permissionDecision : String := ""
  newCustomInstructions : String := ""
  updatedMcpOutput : Option Json := none

structure AggregatedHookResult where
  blockingErrors : List String := []
  preventContinuation : Bool := false
  stopReason : String := ""
  permissionBehavior : String := ""
  additionalContexts : List String := []
  updatedInput : Option Json := none
  updatedMcpOutput : Option Json := none
  newCustomInstructions : String := ""

-- text or default
def orElse (text default : String) : String :=
  if text = "" then default else text

namespace AggregatedHookResult

def isBlocked (agg : AggregatedHookResult) : Bool :=
  !agg.blockingErrors.isEmpty || agg.preventContinuation

def block (agg : AggregatedHookResult) (error : String) : AggregatedHookResult :=
  { agg with blockingErrors := agg.blockingErrors ++ [error] }

-- `repr` is what the conversion !r makes of a name.
def addExitCode (repr : String → String) (agg : AggregatedHookResult) (result : HookResult) :
    AggregatedHookResult :=
  if result.exitCode = EXIT_BLOCK then
    agg.block (orElse result.stderr ("Hook " ++ repr result.hookName ++ " blocked (exit 2)"))
  else agg

def addContinue (agg : AggregatedHookResult) (result : HookResult) : AggregatedHookResult :=
  if result.continues then agg
  else
    { agg with
      preventContinuation := true
      stopReason := orElse result.reason agg.stopReason }

def addDecision (repr : String → String) (agg : AggregatedHookResult) (result : HookResult) :
    AggregatedHookResult :=
  if result.decision = "block" then
    { agg.block (orElse result.reason ("Blocked by " ++ repr result.hookName)) with
      permissionBehavior := "deny" }
  else if result.decision = "approve" then { agg with permissionBehavior := "allow" }
  else agg

def addOutputs (agg : AggregatedHookResult) (result : HookResult) : AggregatedHookResult :=
  { agg with
    additionalContexts :=
      if result.additionalContext = "" then agg.additionalContexts
      else agg.additionalContexts ++ [result.additionalContext]
    updatedInput := result.updatedInput <|> agg.updatedInput
    updatedMcpOutput := result.updatedMcpOutput <|> agg.updatedMcpOutput
    newCustomInstructions := orElse result.newCustomInstructions agg.newCustomInstructions }

def addPermission (agg : AggregatedHookResult) (result : HookResult) : AggregatedHookResult :=
  { agg with permissionBehavior := orElse result.permissionDecision agg.permissionBehavior }

-- The body of the loop over the results.
def add (repr : String → String) (agg : AggregatedHookResult) (result : HookResult) :
    AggregatedHookResult :=
  ((((agg.addExitCode repr result).addContinue result).addDecision repr result).addOutputs
    result).addPermission result

end AggregatedHookResult

-- _execute_event_hooks, once its hooks have run.
def executeEventHooks (repr : String → String) (results : List HookResult) : AggregatedHookResult :=
  results.foldl (AggregatedHookResult.add repr) {}

variable {repr : String → String} {agg : AggregatedHookResult} {result : HookResult}
  {results : List HookResult}

namespace HookResult

def Blocks (result : HookResult) : Prop :=
  result.exitCode = EXIT_BLOCK ∨ result.decision = "block" ∨ result.continues = false

instance : DecidablePred Blocks := fun _ => inferInstanceAs (Decidable (_ ∨ _ ∨ _))

-- The four ways to say no.
def Denies (result : HookResult) : Prop :=
  result.Blocks ∨ result.permissionDecision = "deny"

instance : DecidablePred Denies := fun _ => inferInstanceAs (Decidable (_ ∨ _))

-- What the result sets the permission to, if anything. The permission decision goes over the
-- decision of the same result.
def permission (result : HookResult) : Option String :=
  if result.permissionDecision ≠ "" then some result.permissionDecision
  else if result.decision = "block" then some "deny"
  else if result.decision = "approve" then some "allow"
  else none

end HookResult

-- A denial stands, and the order of the results makes no difference to the two answers.
structure NotOutvoted (repr : String → String) (results : List HookResult) : Prop where
  denied : (∃ result ∈ results, result.Denies) →
    (executeEventHooks repr results).isBlocked = true ∧
      (executeEventHooks repr results).permissionBehavior ≠ "allow"
  ordered : ∀ other : List HookResult, other.Perm results →
    (executeEventHooks repr other).isBlocked = (executeEventHooks repr results).isBlocked ∧
      (executeEventHooks repr other).permissionBehavior =
        (executeEventHooks repr results).permissionBehavior

section Add

namespace AggregatedHookResult

@[simp] theorem isBlocked_block (error : String) : (agg.block error).isBlocked = true := by
  simp [isBlocked, block]

theorem isBlocked_addExitCode :
    (agg.addExitCode repr result).isBlocked =
      (agg.isBlocked || decide (result.exitCode = EXIT_BLOCK)) := by
  rw [addExitCode]
  split
  · next h => simp [h]
  · next h => simp [h]

theorem isBlocked_addContinue :
    (agg.addContinue result).isBlocked = (agg.isBlocked || !result.continues) := by
  rw [addContinue]
  split
  · next h => simp [h]
  · next h => simp [isBlocked, h]

theorem isBlocked_addDecision :
    (agg.addDecision repr result).isBlocked =
      (agg.isBlocked || decide (result.decision = "block")) := by
  rw [addDecision]
  split
  · next h =>
      rw [decide_eq_true h, Bool.or_true]
      exact isBlocked_block _
  · next h =>
      rw [decide_eq_false h, Bool.or_false]
      split <;> rfl

theorem isBlocked_add :
    (agg.add repr result).isBlocked = (agg.isBlocked || decide result.Blocks) := by
  have hadd : (agg.add repr result).isBlocked =
      (((agg.addExitCode repr result).addContinue result).addDecision repr result).isBlocked := rfl
  rw [hadd, isBlocked_addDecision, isBlocked_addContinue, isBlocked_addExitCode]
  by_cases hexit : result.exitCode = EXIT_BLOCK
  · simp [HookResult.Blocks, hexit]
  · by_cases hdecision : result.decision = "block"
    · simp [HookResult.Blocks, hdecision]
    · simp [HookResult.Blocks, hexit, hdecision]

theorem permissionBehavior_addExitCode :
    (agg.addExitCode repr result).permissionBehavior = agg.permissionBehavior := by
  rw [addExitCode]
  split <;> rfl

theorem permissionBehavior_addContinue :
    (agg.addContinue result).permissionBehavior = agg.permissionBehavior := by
  rw [addContinue]
  split <;> rfl

theorem permissionBehavior_add :
    (agg.add repr result).permissionBehavior = result.permission.getD agg.permissionBehavior := by
  have hadd : (agg.add repr result).permissionBehavior =
      orElse result.permissionDecision
        (((agg.addExitCode repr result).addContinue result).addDecision repr
          result).permissionBehavior := rfl
  have hbefore : ((agg.addExitCode repr result).addContinue result).permissionBehavior =
      agg.permissionBehavior :=
    permissionBehavior_addContinue.trans permissionBehavior_addExitCode
  rw [hadd, orElse, HookResult.permission, addDecision]
  by_cases hdecided : result.permissionDecision = ""
  · rw [if_pos hdecided, if_neg (not_not.mpr hdecided)]
    split
    · rfl
    · split
      · rfl
      · exact hbefore
  · rw [if_neg hdecided, if_pos hdecided]
    rfl

end AggregatedHookResult

end Add

-- Nobody takes a block back.
theorem isBlocked_iff :
    (executeEventHooks repr results).isBlocked = true ↔ ∃ result ∈ results, result.Blocks := by
  have hrun : ∀ agg : AggregatedHookResult,
      (results.foldl (AggregatedHookResult.add repr) agg).isBlocked = true ↔
        agg.isBlocked = true ∨ ∃ result ∈ results, result.Blocks := by
    induction results with
    | nil => simp
    | cons result results ih =>
        intro agg
        rw [List.foldl_cons, ih, AggregatedHookResult.isBlocked_add, Bool.or_eq_true,
          decide_eq_true_iff, List.exists_mem_cons_iff, or_assoc]
  rw [executeEventHooks, hrun]
  exact or_iff_right Bool.false_ne_true

theorem permissionBehavior_eq :
    (executeEventHooks repr results).permissionBehavior =
      LastWriter.value HookResult.permission "" results := by
  have hrun : ∀ agg : AggregatedHookResult,
      (results.foldl (AggregatedHookResult.add repr) agg).permissionBehavior =
        LastWriter.value HookResult.permission agg.permissionBehavior results := by
    induction results with
    | nil => exact fun _ => rfl
    | cons result results ih =>
        intro agg
        rw [List.foldl_cons, ih, AggregatedHookResult.permissionBehavior_add]
        rfl
  exact hrun {}

theorem permissionBehavior_eq_allow_iff (h : LastWriter.Agree HookResult.permission results) :
    (executeEventHooks repr results).permissionBehavior = "allow" ↔
      ∃ result ∈ results, result.permission = some "allow" := by
  rw [permissionBehavior_eq]
  constructor
  · intro hallow
    obtain ⟨-, hempty⟩ | ⟨result, hmem, hlast⟩ :=
      LastWriter.value_cases HookResult.permission "" results
    · rw [hallow] at hempty
      exact absurd hempty (by decide)
    · exact ⟨result, hmem, hallow ▸ hlast⟩
  · rintro ⟨result, hmem, hallow⟩
    exact LastWriter.value_of_agree h hmem hallow

-- A denial stands in every order exactly when the results that set the permission set the same
-- one, and a denial comes with a block and without an approval.
theorem notOutvoted_iff :
    NotOutvoted repr results ↔ LastWriter.Agree HookResult.permission results ∧
      ((∃ result ∈ results, result.Denies) → (∃ result ∈ results, result.Blocks) ∧
        ∀ result ∈ results, result.permission ≠ some "allow") := by
  constructor
  · rintro ⟨hdenied, hordered⟩
    have hsame : ∀ other : List HookResult, other.Perm results →
        LastWriter.value HookResult.permission "" other =
          LastWriter.value HookResult.permission "" results := by
      intro other hperm
      have heq := (hordered other hperm).2
      rwa [permissionBehavior_eq, permissionBehavior_eq] at heq
    have hagree := LastWriter.forall_perm_iff.mp hsame
    refine ⟨hagree, fun hdenies => ?_⟩
    obtain ⟨hblocked, hallow⟩ := hdenied hdenies
    rw [Ne, permissionBehavior_eq_allow_iff hagree] at hallow
    exact ⟨isBlocked_iff.mp hblocked, fun result hmem hresult => hallow ⟨result, hmem, hresult⟩⟩
  · rintro ⟨hagree, hdenied⟩
    refine ⟨fun hdenies => ?_, fun other hperm => ⟨?_, ?_⟩⟩
    · obtain ⟨hblocks, hnone⟩ := hdenied hdenies
      refine ⟨isBlocked_iff.mpr hblocks, ?_⟩
      rw [Ne, permissionBehavior_eq_allow_iff hagree]
      rintro ⟨result, hmem, hallow⟩
      exact hnone result hmem hallow
    · rw [Bool.eq_iff_iff, isBlocked_iff, isBlocked_iff]
      exact exists_congr fun result => and_congr_left fun _ => hperm.mem_iff
    · rw [permissionBehavior_eq, permissionBehavior_eq]
      exact LastWriter.forall_perm_iff.mpr hagree other hperm

-- A hook blocks the call, and the one behind it approves of it.
theorem blocked_then_approved :
    ¬ NotOutvoted (fun name => "'" ++ name ++ "'")
      [{ hookName := "PreToolUse:Bash", decision := "block" },
        { hookName := "PreToolUse:Bash", decision := "approve" }] := by
  intro h
  exact (h.denied ⟨_, List.mem_cons_self, by decide⟩).2 (by decide)

end EvoClaw.Hooks
