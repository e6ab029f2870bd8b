import EvoClaw.EventSystem.Runs
import Mathlib.Logic.Function.Basic

-- The workflow engine of host/enterprise/workflow_engine.py.
namespace EvoClaw.Workflow

inductive StepStatus
  | pending
  | running
  | success
  | failed
  | skipped
  deriving DecidableEq, Repr

inductive RunStatus
  | pending
  | running
  | success
  | failed
  deriving DecidableEq, Repr

-- What `step` registers. The timeout only words an error.
structure WorkflowStep where
  name : String
  dependsOn : List String := []
  timeout : String := "300.0"
  retries : Int := 0
  deriving DecidableEq, Repr

-- The registered steps, in the order of the dictionary.
structure WorkflowDAG where
  name : String
  steps : List WorkflowStep
  distinct : (steps.map WorkflowStep.name).Nodup

namespace WorkflowDAG

def get (dag : WorkflowDAG) (name : String) : Option WorkflowStep :=
  dag.steps.find? fun step => step.name = name

def dependsOn (dag : WorkflowDAG) (name : String) : List String :=
  match dag.get name with
  | some step => step.dependsOn
  | none => []

def retries (dag : WorkflowDAG) (name : String) : Int :=
  match dag.get name with
  | some step => step.retries
  | none => 0

def timeout (dag : WorkflowDAG) (name : String) : String :=
  match dag.get name with
  | some step => step.timeout
  | none => ""

def names (dag : WorkflowDAG) : List String :=
  dag.steps.map WorkflowStep.name

-- The depth first search below `name`. `order` also holds the names that were visited.
def visit (dag : WorkflowDAG) :
    Nat → String → List String → List String → Except String (List String)
  | 0, _, _, _ => .error "maximum recursion depth exceeded"
  | fuel + 1, name, visiting, order =>
      if name ∈ order then .ok order
      else if name ∈ visiting then
        .error ("Cycle detected in workflow graph involving step '" ++ name ++ "'")
      else do
        let order ← (dag.dependsOn name).foldlM
          (fun order dep => dag.visit fuel dep (name :: visiting) order) order
        return order ++ [name]

-- The names on the path are distinct, so that the search is never deeper than this.
def topoSort (dag : WorkflowDAG) : Except String (List String) :=
  dag.names.foldlM (fun order name => dag.visit (dag.steps.length + 1) name [] order) []

def unknownDependency (dag : WorkflowDAG) : Option (String × String) :=
  dag.steps.findSome? fun step =>
    (step.dependsOn.find? fun dep => (dag.get dep).isNone).map fun dep => (step.name, dep)

def validate (dag : WorkflowDAG) : Except String Unit :=
  match dag.unknownDependency with
  | some (name, dep) =>
      .error ("Step '" ++ name ++ "' depends on unknown step '" ++ dep ++ "'")
  | none => do
      let _ ← dag.topoSort
      return ()

end WorkflowDAG

-- How a try fails. An exception has no error if it is no Exception, or if str of it raises: then it
-- leaves run_step.
inductive Failure
  | raises (error : Option String)
  | timesOut
  deriving DecidableEq, Repr

-- What a call of a step's function comes to.
inductive Outcome (V : Type)
  | returns (result : V)
  | fails (failure : Failure)
  deriving DecidableEq, Repr

-- How Python objects and their texts are related. The text of an object may fail.
structure Objects (V : Type) where
  str : V → Except Failure String
  ofStr : String → V

def maxStepResultBytes : Nat := 256 * 1024

def Objects.cap {V : Type} (objects : Objects V) (result : V) : Except Failure V :=
  (objects.str result).map fun text =>
    if text.utf8ByteSize > maxStepResultBytes then
      objects.ofStr (String.ofList (text.toList.take maxStepResultBytes) ++ "... [truncated]")
    else result

-- What the try around the call comes to.
def Outcome.value {V : Type} (objects : Objects V) : Outcome V → Except Failure V
  | .returns result => objects.cap result
  | .fails failure => .error failure

-- A step of a run.
structure StepRun (V : Type) where
  status : StepStatus := .pending
  result : Option V := none
  error : Option String := none
  deriving DecidableEq, Repr

-- A run in progress. A name that is not registered keeps its first entry in `steps`, which
-- passes no test that `run` makes of an entry that is there. `running` has the steps of the
-- current round that have not ended, each with its attempt, and `results` what the others
-- returned. `attempts` lists what the calls of each step came to. `raised` says that an exception has
-- left `run`: the calls that are under way go on, and nothing comes after them.
structure WorkflowRun (V : Type) where
  steps : String → StepRun V := fun _ => {}
  remaining : List String
  running : List (String × Nat) := []
  results : List (String × V) := []
  context : String → Option V
  status : RunStatus := .running
  attempts : String → List (Outcome V) := fun _ => []
  raised : Bool := false

-- `schedule` is a pass of the loop up to the gather, with the order in which the set
-- `remaining - ready` is gone through and the ready steps for which the deep copy of the context
-- raises.
inductive Event (V : Type)
  | schedule (order uncopied : List String)
  | attempt (name : String) (outcome : Outcome V)
  deriving DecidableEq, Repr

def StepStatus.failedOrSkipped : StepStatus → Bool
  | .failed | .skipped => true
  | .pending | .running | .success => false

namespace WorkflowRun

variable {V : Type}

def setStatus (steps : String → StepRun V) (name : String) (status : StepStatus) :
    String → StepRun V :=
  Function.update steps name { steps name with status := status }

def isReady (dag : WorkflowDAG) (run : WorkflowRun V) (name : String) : Bool :=
  (dag.dependsOn name).all fun dep => (run.steps dep).status = .success

def ready (dag : WorkflowDAG) (run : WorkflowRun V) : List String :=
  run.remaining.filter (run.isReady dag)

def notReady (dag : WorkflowDAG) (run : WorkflowRun V) : List String :=
  run.remaining.filter fun name => ! run.isReady dag name

-- The pass over `remaining - ready`: the steps as it leaves them, and `blocked`.
def block (dag : WorkflowDAG) : List String → (String → StepRun V) →
    (String → StepRun V) × List String
  | [], steps => (steps, [])
  | name :: rest, steps =>
      if (dag.dependsOn name).any fun dep => (steps dep).status.failedOrSkipped then
        let (marked, blocked) := block dag rest (setStatus steps name .skipped)
        (marked, name :: blocked)
      else block dag rest steps

def failAll (names : List String) (steps : String → StepRun V) : String → StepRun V :=
  fun name =>
    if name ∈ names then
      { steps name with status := .failed, error := some "Deadlock: unsatisfied dependencies" }
    else steps name

def startAll (names : List String) (steps : String → StepRun V) : String → StepRun V :=
  fun name => if name ∈ names then { steps name with status := .running } else steps name

-- What follows the loop.
def finish (dag : WorkflowDAG) (run : WorkflowRun V) : WorkflowRun V :=
  { run with
    status := if dag.names.any fun name => (run.steps name).status = .failed then .failed
      else .success }

-- What follows the gather when the last step of the round has ended.
def closeRound (dag : WorkflowDAG) (run : WorkflowRun V) : WorkflowRun V :=
  if run.raised = false ∧ run.running = [] then
    let merged := { run with
      context := run.results.foldl (fun context entry =>
        Function.update context entry.1 (some entry.2)) run.context
      results := [] }
    if merged.remaining = [] then merged.finish dag else merged
  else run

def initial (dag : WorkflowDAG) (context : String → Option V) : WorkflowRun V :=
  closeRound dag { remaining := dag.names, context := context }

def schedule (dag : WorkflowDAG) (run : WorkflowRun V) (order uncopied : List String) :
    WorkflowRun V :=
  let ready := run.ready dag
  let (steps, blocked) := block dag order run.steps
  let remaining := run.remaining.filter fun name => name ∉ blocked
  if ready = [] then
    finish dag { run with steps := failAll remaining steps, remaining := remaining }
  else
    closeRound dag { run with
      steps := startAll ready steps
      remaining := remaining.filter fun name => name ∉ ready
      running := (ready.filter fun name => 0 ≤ dag.retries name ∧ name ∉ uncopied).map
        fun name => (name, 0)
      raised := uncopied ≠ [] }

def failAttempt (dag : WorkflowDAG) (run : WorkflowRun V) (name : String) (attempt : Nat)
    (error : String) : WorkflowRun V :=
  if (attempt : Int) = dag.retries name then
    { run with
      steps := Function.update run.steps name
        { run.steps name with status := .failed, error := some error }
      running := run.running.filter fun entry => entry.1 ≠ name }
  else
    { run with
      steps := Function.update run.steps name { run.steps name with error := some error }
      running := run.running.map fun entry =>
        if entry = (name, attempt) then (name, attempt + 1) else entry }

-- What the try comes to: the end of the step, or its next try.
def endAttempt (dag : WorkflowDAG) (run : WorkflowRun V) (name : String) (attempt : Nat) :
    Except Failure V → WorkflowRun V
  | .ok result =>
      { run with
        steps := Function.update run.steps name
          { run.steps name with status := .success, result := some result }
        running := run.running.filter fun entry => entry.1 ≠ name
        results := run.results ++ [(name, result)] }
  | .error (.raises (some error)) => run.failAttempt dag name attempt error
  | .error (.raises none) =>
      { run with
        running := run.running.filter fun entry => entry.1 ≠ name
        raised := true }
  | .error .timesOut =>
      run.failAttempt dag name attempt ("Timeout after " ++ dag.timeout name ++ "s")

def record (run : WorkflowRun V) (name : String) (outcome : Outcome V) : WorkflowRun V :=
  { run with
    attempts := Function.update run.attempts name (run.attempts name ++ [outcome]) }

end WorkflowRun

def step {V : Type} (objects : Objects V) (dag : WorkflowDAG) (run : WorkflowRun V) :
    Event V → Option (WorkflowRun V)
  | .schedule order uncopied =>
      if run.status = .running ∧ run.raised = false ∧ run.running = [] ∧
          order.Perm (run.notReady dag) ∧ uncopied ⊆ run.ready dag then
        some (run.schedule dag order uncopied)
      else none
  | .attempt name outcome =>
      match run.running.lookup name with
      | none => none
      | some attempt =>
          some (((run.record name outcome).endAttempt dag name attempt
            (outcome.value objects)).closeRound dag)

end EvoClaw.Workflow
