import EvoClaw.Numeric.Double
import EvoClaw.Sqlite.Transaction
import Mathlib.Order.WithBot

-- The genome of a group, its evolution, and the tables both are written to. Arithmetic is exact.
namespace EvoClaw.Evolution

open Numeric (roundTo)
open Sqlite

-- A row of group_genome, and the dict that is made of it.
structure Genome where
  responseStyle : String
  formality : ℚ
  technicalDepth : ℚ
  generation : ℤ
deriving DecidableEq

def DEFAULT_GENOME : Genome where
  responseStyle := "balanced"
  formality := 1 / 2
  technicalDepth := 1 / 2
  generation := 0

inductive EventType
  | genomeEvolved
  | genomeUnchanged
  | cycleStart
  | cycleEnd
  | skippedLowSamples
  | genomeReset
deriving DecidableEq

def EventType.isEvolution : EventType → Bool
  | .genomeEvolved | .genomeUnchanged => true
  | .cycleStart | .cycleEnd | .skippedLowSamples | .genomeReset => false

-- What an event of an evolution records besides its group.
structure Step where
  generationBefore : ℤ
  generationAfter : ℤ
  fitnessScore : ℚ
  avgResponseMs : WithTop ℚ
  genomeBefore : Genome
  genomeAfter : Genome
deriving DecidableEq

-- A row of evolution_log.
structure LogEvent where
  jid : String
  eventType : EventType
  step : Option Step
deriving DecidableEq

structure Database where
  groupGenome : String → Option Genome
  evolutionLog : List LogEvent

def Database.empty : Database where
  groupGenome _ := none
  evolutionLog := []

section Statements

variable (jid : String)

-- INSERT OR IGNORE INTO group_genome (jid): the columns have defaults.
def insertGenome : Statement Database := fun database =>
  match database.groupGenome jid with
  | some _ => some database
  | none =>
      some { database with
        groupGenome := Function.update database.groupGenome jid (some DEFAULT_GENOME) }

-- UPDATE group_genome SET .. WHERE jid = ?, with the CHECK constraints of the table
def updateGenome (genome : Genome) : Statement Database := fun database =>
  if (0 ≤ genome.formality ∧ genome.formality ≤ 1) ∧
      0 ≤ genome.technicalDepth ∧ genome.technicalDepth ≤ 1 then
    some { database with
      groupGenome := Function.update database.groupGenome jid
        ((database.groupGenome jid).map fun _ => genome) }
  else none

-- INSERT INTO evolution_log
def insertEvent (event : LogEvent) : Statement Database := fun database =>
  some { database with evolutionLog := database.evolutionLog ++ [event] }

end Statements

def upsertGroupGenome (jid : String) (genome : Genome) (fault : Option Nat)
    (db : Connection Database) : Connection Database :=
  transact [insertGenome jid, updateGenome jid genome] fault db

def logEvolutionEvent (jid : String) (eventType : EventType) (fault : Option Nat)
    (db : Connection Database) : Connection Database :=
  transact [insertEvent { jid, eventType, step := none }] fault db

def upsertGroupGenomeWithEvent (jid : String) (genome : Genome) (event : LogEvent)
    (fault : Option Nat) (db : Connection Database) : Connection Database :=
  transact [insertGenome jid, updateGenome jid genome, insertEvent event] fault db

-- _safe_float
def safeFloat (value : ℚ) : ℚ := max 0 (min 1 value)

-- get_genome. A SELECT that fails is answered with the default genome.
def getGenome (jid : String) (readFails : Bool) (db : Connection Database) : Genome :=
  if readFails then DEFAULT_GENOME
  else
    match db.working.groupGenome jid with
    | none => DEFAULT_GENOME
    | some genome =>
        { genome with
          formality := safeFloat genome.formality
          technicalDepth := safeFloat genome.technicalDepth }

def styleOrder : List String := ["concise", "balanced", "detailed"]

def isGenomeValid (genome : Genome) : Bool :=
  (0 ≤ genome.formality ∧ genome.formality ≤ 1) ∧
    (0 ≤ genome.technicalDepth ∧ genome.technicalDepth ≤ 1) ∧
    genome.responseStyle ∈ styleOrder ∧ 0 ≤ genome.generation

def resetGenome (jid : String) (readFails : Bool) (fault : Option Nat)
    (db : Connection Database) : Connection Database :=
  if readFails then db
  else
    let generation :=
      match db.working.groupGenome jid with
      | none => 0
      | some existing => max 0 existing.generation
    upsertGroupGenome jid { DEFAULT_GENOME with generation } fault db

def CONVERGENCE_EPSILON : ℚ := 1 / 100

def FORMALITY_STEP : ℚ := 5 / 100

def DEPTH_STEP : ℚ := 5 / 100

def updateFormality (formality target : ℚ) : ℚ :=
  if |formality - target| < CONVERGENCE_EPSILON then formality
  else formality + FORMALITY_STEP * (target - formality)

-- An argument as float() takes it.
inductive Argument
  | invalid
  | nan
  | negInf
  | posInf
  | finite (value : ℚ)
deriving DecidableEq

-- max(0.0, min(1.0, float(fitness))): min and max keep their first argument beside a NaN
def clampFitness : Argument → ℚ
  | .invalid => 1 / 2
  | .nan => 1
  | .negInf => 0
  | .posInf => 1
  | .finite value => max 0 (min 1 value)

-- max(0.0, float(avg_response_ms))
def clampResponse : Argument → WithTop ℚ
  | .invalid => 0
  | .nan => 0
  | .negInf => 0
  | .posInf => ⊤
  | .finite value => ((max 0 value : ℚ) : WithTop ℚ)

section Rules

variable (fitness : ℚ) (avg_response_ms : WithTop ℚ)

def normaliseStyle (responseStyle : String) : String :=
  if responseStyle ∈ styleOrder then responseStyle else "balanced"

def evolveStyle (responseStyle : String) : String :=
  let idx := styleOrder.idxOf responseStyle
  if 15000 < avg_response_ms ∧ fitness < 4 / 10 ∧ 0 < idx then
    styleOrder.getD (idx - 1) responseStyle
  else if avg_response_ms < 5000 ∧ 7 / 10 < fitness ∧ idx < 2 then
    styleOrder.getD (idx + 1) responseStyle
  else responseStyle

def evolveFormality (formality : ℚ) : ℚ :=
  let moved :=
    if 7 / 10 < fitness ∧ avg_response_ms < 8000 then updateFormality formality (7 / 10)
    else if fitness < 4 / 10 then updateFormality formality (1 / 2)
    else formality
  roundTo 3 (max 0 (min 1 moved))

def evolveDepth (technicalDepth : ℚ) : ℚ :=
  let moved :=
    if 7 / 10 < fitness ∧ avg_response_ms < 6000 then min 1 (technicalDepth + DEPTH_STEP)
    else if 20000 < avg_response_ms ∨ fitness < 3 / 10 then max 0 (technicalDepth - DEPTH_STEP)
    else technicalDepth
  roundTo 3 (max 0 (min 1 moved))

def evolve (genome : Genome) : Genome where
  responseStyle := evolveStyle fitness avg_response_ms (normaliseStyle genome.responseStyle)
  formality := evolveFormality fitness avg_response_ms genome.formality
  technicalDepth := evolveDepth fitness avg_response_ms genome.technicalDepth
  generation := genome.generation + 1

-- The event that is written with the evolved genome.
def evolutionEvent (jid : String) (genome : Genome) : LogEvent :=
  let before := { genome with responseStyle := normaliseStyle genome.responseStyle }
  let after := evolve fitness avg_response_ms genome
  { jid
    eventType :=
      if after.responseStyle ≠ before.responseStyle then .genomeEvolved else .genomeUnchanged
    step := some
      { generationBefore := genome.generation
        generationAfter := genome.generation + 1
        fitnessScore := roundTo 4 fitness
        avgResponseMs := avg_response_ms.map (roundTo 1)
        genomeBefore := before
        genomeAfter := after } }

end Rules

def evolveGenomeFromFitness (jid : String) (fitness avg_response_ms : Argument)
    (readFails : Bool) (fault : Option Nat) (db : Connection Database) : Connection Database :=
  let genome := getGenome jid readFails db
  upsertGroupGenomeWithEvent jid
    (evolve (clampFitness fitness) (clampResponse avg_response_ms) genome)
    (evolutionEvent (clampFitness fitness) (clampResponse avg_response_ms) jid genome) fault db

end EvoClaw.Evolution

-- A cycle of the evolution daemon over the groups with recent runs.
namespace EvoClaw.Evolution

open Numeric (roundTo)
open Sqlite

-- The columns of evolution_runs that the daemon reads.
structure Run where
  responseMs : Option ℤ
  retryCount : ℤ
  success : Bool
deriving DecidableEq

def MIN_SAMPLES : Nat := 3

def SPEED_TARGET_MS : ℚ := 5000

def SPEED_FLOOR_MS : ℚ := 30000

-- The response times of the successful runs, where they are positive.
def validTimes (runs : List Run) : List ℚ :=
  runs.filterMap fun run =>
    match run.responseMs with
    | some ms => if 0 < ms ∧ run.success then some ms else none
    | none => none

def mean (values : List ℚ) : ℚ := values.sum / values.length

-- compute_fitness; no runs are there when their SELECT failed.
def computeFitness (rows : Option (List Run)) : ℚ :=
  match rows with
  | none => 1 / 2
  | some rows =>
      if rows.length < 3 then 1 / 2
      else
        let success_rate : ℚ := rows.countP Run.success / rows.length
        let speed_score : ℚ :=
          if validTimes rows = [] then 1 / 2
          else
            let over_target := max 0 (mean (validTimes rows) - SPEED_TARGET_MS)
            max 0 (min 1 (1 - over_target / (SPEED_FLOOR_MS - SPEED_TARGET_MS)))
        let avg_retries := mean (rows.map fun run => ((max 0 run.retryCount : ℤ) : ℚ))
        let reliability := 1 / (1 + avg_retries)
        roundTo 4 (max 0 (min 1 (success_rate * (5 / 10) + speed_score * (3 / 10) +
          reliability * (2 / 10))))

-- What one round of the cycle meets: the runs as they are read here and in compute_fitness,
-- which of the other SELECTs fail, and where the transactions fail.
structure Round where
  jid : String
  runs : Option (List Run)
  skippedFault : Option Nat
  checkReadFails : Bool
  resetReadFails : Bool
  resetFault : Option Nat
  resetEventFault : Option Nat
  fitnessRuns : Option (List Run)
  readFails : Bool
  fault : Option Nat

def evolveGroup (round : Round) (db : Connection Database) : Connection Database :=
  match round.runs with
  | none => db
  | some runs =>
      if runs.length < MIN_SAMPLES then
        logEvolutionEvent round.jid .skippedLowSamples round.skippedFault db
      else
        let checked :=
          if isGenomeValid (getGenome round.jid round.checkReadFails db) then db
          else
            logEvolutionEvent round.jid .genomeReset round.resetEventFault
              (resetGenome round.jid round.resetReadFails round.resetFault db)
        let avg_ms := if validTimes runs = [] then 0 else mean (validTimes runs)
        evolveGenomeFromFitness round.jid (.finite (computeFitness round.fitnessRuns))
          (.finite avg_ms) round.readFails round.fault checked

-- What is done to the database, piece by piece.
inductive Action
  | log (eventType : EventType) (fault : Option Nat)
  | evolveGroup (round : Round)
  | evolve (jid : String) (fitness avg_response_ms : Argument) (readFails : Bool)
      (fault : Option Nat)

def step (db : Connection Database) : Action → Option (Connection Database)
  | .log eventType fault => some (logEvolutionEvent "__system__" eventType fault db)
  | .evolveGroup round => some (evolveGroup round db)
  | .evolve jid fitness avg_response_ms readFails fault =>
      some (evolveGenomeFromFitness jid fitness avg_response_ms readFails fault db)

-- A cycle of the daemon, which ends at once when the groups cannot be read, or a call of
-- evolve_genome_from_fitness from elsewhere.
inductive Call
  | syncEvolve (startFault : Option Nat) (rounds : Option (List Round)) (endFault : Option Nat)
  | evolve (jid : String) (fitness avg_response_ms : Argument) (readFails : Bool)
      (fault : Option Nat)

def Call.actions : Call → List Action
  | .syncEvolve _ none _ => []
  | .syncEvolve startFault (some rounds) endFault =>
      .log .cycleStart startFault :: (rounds.map .evolveGroup ++ [.log .cycleEnd endFault])
  | .evolve jid fitness avg_response_ms readFails fault =>
      [.evolve jid fitness avg_response_ms readFails fault]

end EvoClaw.Evolution
