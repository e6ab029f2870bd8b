import EvoClaw.Evolution.Genome
import EvoClaw.EventSystem.Runs
import Mathlib.Data.List.Chain

namespace EvoClaw.Evolution

open EventSystem Sqlite
open Numeric (roundTo)

variable {database next : Database} {jid other : String} {genome : Genome} {fitness : ℚ}
  {avg_response_ms : WithTop ℚ} {fault : Option Nat} {db : Connection Database}

-- The steps of the group's genome_evolved and genome_unchanged events, oldest first.
def Database.steps (database : Database) (jid : String) : List Step :=
  database.evolutionLog.filterMap fun event =>
    if event.jid = jid ∧ event.eventType.isEvolution = true then event.step else none

def Follows (earlier later : Step) : Prop :=
  later.generationBefore = earlier.generationAfter ∧ later.genomeBefore = earlier.genomeAfter

instance : DecidableRel Follows := fun earlier later =>
  inferInstanceAs (Decidable (later.generationBefore = earlier.generationAfter ∧
    later.genomeBefore = earlier.genomeAfter))

structure Database.Sound (database : Database) : Prop where
  valid : ∀ jid genome, database.groupGenome jid = some genome → isGenomeValid genome = true
  formality : ∀ jid genome, database.groupGenome jid = some genome →
    1 / 2 ≤ genome.formality ∧ genome.formality ≤ 7 / 10
  generation : ∀ jid, (database.groupGenome jid).map Genome.generation =
    (database.steps jid).getLast?.map Step.generationAfter
  chain : ∀ jid, (database.steps jid).IsChain Follows

-- No statement of the transaction fails, and its commit does not either.
def Written (fault : Option Nat) : Prop := ∀ place ∈ fault, 3 < place

instance (fault : Option Nat) : Decidable (Written fault) := by unfold Written; infer_instance

-- The genome that an evolution starts from can be read, unless none is stored or the result is
-- not written.
def Readable (db : Connection Database) : Action → Prop
  | .log _ _ => True
  | .evolveGroup round =>
      (∃ runs ∈ round.runs, MIN_SAMPLES ≤ runs.length) → round.readFails = true →
        Written round.fault → db.committed.groupGenome round.jid = none
  | .evolve jid _ _ readFails fault =>
      readFails = true → Written fault → db.committed.groupGenome jid = none

section Rules

-- What the rules keep: the bounds of the genome, from any value that has them.
structure Genome.Within (genome : Genome) : Prop where
  formality : 1 / 2 ≤ genome.formality ∧ genome.formality ≤ 7 / 10
  depth : 0 ≤ genome.technicalDepth ∧ genome.technicalDepth ≤ 1
  style : genome.responseStyle ∈ styleOrder
  generation : 0 ≤ genome.generation

theorem within_default : DEFAULT_GENOME.Within :=
  ⟨by norm_num [DEFAULT_GENOME], by norm_num [DEFAULT_GENOME], by decide, by decide⟩

theorem safeFloat_of_mem {value : ℚ} (hlow : 0 ≤ value) (hhigh : value ≤ 1) :
    safeFloat value = value := by
  rw [safeFloat, min_eq_right hhigh, max_eq_right hlow]

theorem updateFormality_mem {formality target : ℚ}
    (hformality : 1 / 2 ≤ formality ∧ formality ≤ 7 / 10)
    (htarget : 1 / 2 ≤ target ∧ target ≤ 7 / 10) :
    1 / 2 ≤ updateFormality formality target ∧ updateFormality formality target ≤ 7 / 10 := by
  unfold updateFormality FORMALITY_STEP
  split_ifs
  · exact hformality
  · constructor <;> linarith [hformality.1, hformality.2, htarget.1, htarget.2]

theorem evolveFormality_mem {formality : ℚ} (h : 1 / 2 ≤ formality ∧ formality ≤ 7 / 10) :
    1 / 2 ≤ evolveFormality fitness avg_response_ms formality ∧
      evolveFormality fitness avg_response_ms formality ≤ 7 / 10 := by
  have hround : ∀ moved : ℚ, 1 / 2 ≤ moved ∧ moved ≤ 7 / 10 →
      1 / 2 ≤ roundTo 3 (max 0 (min 1 moved)) ∧ roundTo 3 (max 0 (min 1 moved)) ≤ 7 / 10 := by
    rintro moved ⟨hlow, hhigh⟩
    rw [min_eq_right (by linarith), max_eq_right (by linarith)]
    have hmem := Numeric.roundTo_mem 3 500 700 (x := moved) (by norm_num; linarith)
      (by norm_num; linarith)
    norm_num at hmem
    exact ⟨by linarith [hmem.1], by linarith [hmem.2]⟩
  unfold evolveFormality
  refine hround _ ?_
  split_ifs
  · exact updateFormality_mem h (by norm_num)
  · exact updateFormality_mem h (by norm_num)
  · exact h

theorem evolveDepth_mem {technicalDepth : ℚ} :
    0 ≤ evolveDepth fitness avg_response_ms technicalDepth ∧
      evolveDepth fitness avg_response_ms technicalDepth ≤ 1 := by
  have hround : ∀ moved : ℚ,
      0 ≤ roundTo 3 (max 0 (min 1 moved)) ∧ roundTo 3 (max 0 (min 1 moved)) ≤ 1 := by
    intro moved
    have hmem := Numeric.roundTo_mem 3 0 1000 (x := max 0 (min 1 moved)) (by norm_num)
      (by norm_num)
    norm_num at hmem
    exact hmem
  exact hround _

theorem evolveStyle_mem {style : String} (h : style ∈ styleOrder) :
    evolveStyle fitness avg_response_ms style ∈ styleOrder := by
  have hgetD : ∀ i, styleOrder.getD i style ∈ styleOrder := by
    intro i
    rw [List.getD_eq_getElem?_getD]
    cases hi : styleOrder[i]? with
    | none => exact h
    | some found => exact List.mem_of_getElem? hi
  unfold evolveStyle
  dsimp only
  split_ifs
  · exact hgetD _
  · exact hgetD _
  · exact h

theorem normaliseStyle_of_mem {style : String} (h : style ∈ styleOrder) :
    normaliseStyle style = style := if_pos h

theorem Genome.Within.evolve (h : genome.Within) (fitness : ℚ)
    (avg_response_ms : WithTop ℚ) : (evolve fitness avg_response_ms genome).Within where
  formality := evolveFormality_mem h.formality
  depth := evolveDepth_mem
  style := evolveStyle_mem (by rw [normaliseStyle_of_mem h.style]; exact h.style)
  generation := by
    have hgeneration := h.generation
    show 0 ≤ genome.generation + 1
    omega

theorem Genome.Within.valid (h : genome.Within) : isGenomeValid genome = true := by
  have hlow := h.formality.1
  have hhigh := h.formality.2
  simp only [isGenomeValid, decide_eq_true_eq]
  exact ⟨⟨by linarith, by linarith⟩, h.depth, h.style, h.generation⟩

end Rules

-- The stored genome of a group is where its last step has led to.
structure Database.Linked (database : Database) : Prop where
  within : ∀ jid genome, database.groupGenome jid = some genome →
    genome.Within ∧ 0 < genome.generation
  stored : ∀ jid, database.groupGenome jid = (database.steps jid).getLast?.map Step.genomeAfter
  after : ∀ jid, ∀ step ∈ database.steps jid, step.generationAfter = step.genomeAfter.generation
  chain : ∀ jid, (database.steps jid).IsChain Follows

theorem linked_empty : Database.empty.Linked where
  within _ _ h := nomatch h
  stored _ := rfl
  after _ _ h := nomatch h
  chain _ := .nil

theorem Database.Linked.sound (h : database.Linked) : database.Sound where
  valid jid genome hstored := (h.within jid genome hstored).1.valid
  formality jid genome hstored := (h.within jid genome hstored).1.formality
  generation jid := by
    rw [h.stored jid]
    cases hlast : (database.steps jid).getLast? with
    | none => rfl
    | some last =>
        have hafter := h.after jid last (List.mem_of_getLast? hlast)
        simp [hafter]
  chain := h.chain

-- What get_genome answers for an intact table.
def Database.current (database : Database) (jid : String) : Genome :=
  (database.groupGenome jid).getD DEFAULT_GENOME

theorem Database.Linked.current_within (h : database.Linked) (jid : String) :
    (database.current jid).Within := by
  unfold Database.current
  cases hstored : database.groupGenome jid with
  | none => exact within_default
  | some genome => exact (h.within jid genome hstored).1

theorem getGenome_of_linked (h : database.Linked) :
    getGenome jid false (opened database) = database.current jid := by
  unfold getGenome Database.current
  simp only [opened, Bool.false_eq_true, if_false]
  cases hstored : database.groupGenome jid with
  | none => rfl
  | some genome =>
      obtain ⟨hlow, hhigh⟩ := (h.within jid genome hstored).1.formality
      obtain ⟨hdepth, hdepth'⟩ := (h.within jid genome hstored).1.depth
      simp only [Option.getD_some]
      rw [safeFloat_of_mem (by linarith) (by linarith), safeFloat_of_mem hdepth hdepth']

theorem getGenome_readFails : getGenome jid true db = DEFAULT_GENOME := rfl

theorem valid_getGenome (h : database.Linked) (readFails : Bool) :
    isGenomeValid (getGenome jid readFails (opened database)) = true := by
  cases readFails with
  | true => exact within_default.valid
  | false =>
      rw [getGenome_of_linked h]
      exact (h.current_within _).valid

section Events

-- An event of another kind is no step of any group.
theorem steps_insertEvent {event : LogEvent} (h : event.step = none) :
    Database.steps { database with evolutionLog := database.evolutionLog ++ [event] } jid =
      database.steps jid := by
  simp [Database.steps, List.filterMap_append, h]

theorem Database.Linked.log {event : LogEvent} (h : database.Linked) (hstep : event.step = none) :
    Database.Linked { database with evolutionLog := database.evolutionLog ++ [event] } where
  within := h.within
  stored jid := by rw [steps_insertEvent hstep]; exact h.stored jid
  after jid := by rw [steps_insertEvent hstep]; exact h.after jid
  chain jid := by rw [steps_insertEvent hstep]; exact h.chain jid

theorem logEvolutionEvent_cases (database : Database) (jid : String) (eventType : EventType)
    (fault : Option Nat) :
    logEvolutionEvent jid eventType fault (opened database) = opened database ∨
      logEvolutionEvent jid eventType fault (opened database) =
        opened { database with
          evolutionLog := database.evolutionLog ++ [{ jid, eventType, step := none }] } := by
  unfold logEvolutionEvent
  obtain ⟨final, -, hperform, heq⟩ | ⟨-, heq⟩ := transact_eq
    [insertEvent { jid, eventType, step := none }] fault (opened database)
  · cases hperform
    exact .inr heq
  · exact .inl heq

end Events

section Evolving

-- The table and the log after a transaction that goes through.
def Database.evolved (database : Database) (fitness : ℚ) (avg_response_ms : WithTop ℚ)
    (jid : String) (genome : Genome) : Database where
  groupGenome := Function.update database.groupGenome jid
    (some (evolve fitness avg_response_ms genome))
  evolutionLog := database.evolutionLog ++ [evolutionEvent fitness avg_response_ms jid genome]

def evolutionStep (fitness : ℚ) (avg_response_ms : WithTop ℚ) (genome : Genome) : Step where
  generationBefore := genome.generation
  generationAfter := genome.generation + 1
  fitnessScore := roundTo 4 fitness
  avgResponseMs := avg_response_ms.map (roundTo 1)
  genomeBefore := { genome with responseStyle := normaliseStyle genome.responseStyle }
  genomeAfter := evolve fitness avg_response_ms genome

theorem steps_evolved_self :
    (database.evolved fitness avg_response_ms jid genome).steps jid =
      database.steps jid ++ [evolutionStep fitness avg_response_ms genome] := by
  unfold Database.evolved Database.steps evolutionEvent
  rw [List.filterMap_append]
  congr 1
  dsimp only
  split <;> simp [EventType.isEvolution, evolutionStep]

theorem steps_evolved_of_ne (h : other ≠ jid) :
    (database.evolved fitness avg_response_ms jid genome).steps other = database.steps other := by
  unfold Database.evolved Database.steps evolutionEvent
  rw [List.filterMap_append]
  simp [h.symm]

theorem perform_upsert (h : genome.Within) :
    perform [insertGenome jid, updateGenome jid (evolve fitness avg_response_ms genome),
        insertEvent (evolutionEvent fitness avg_response_ms jid genome)] database =
      some (database.evolved fitness avg_response_ms jid genome) := by
  have hwithin := h.evolve fitness avg_response_ms
  obtain ⟨hlow, hhigh⟩ := hwithin.formality
  have hcheck : (0 ≤ (evolve fitness avg_response_ms genome).formality ∧
      (evolve fitness avg_response_ms genome).formality ≤ 1) ∧
      0 ≤ (evolve fitness avg_response_ms genome).technicalDepth ∧
      (evolve fitness avg_response_ms genome).technicalDepth ≤ 1 :=
    ⟨⟨by linarith, by linarith⟩, hwithin.depth⟩
  unfold Database.evolved
  cases hstored : database.groupGenome jid with
  | none => simp [perform, insertGenome, updateGenome, insertEvent, hstored, hcheck]
  | some stored => simp [perform, insertGenome, updateGenome, insertEvent, hstored, hcheck]

theorem undisturbed_iff_written (fault : Option Nat) (first second third : Statement Database) :
    Undisturbed [first, second, third] fault ↔ Written fault := by
  simp [Undisturbed, Written]

theorem upsert_of_written (h : genome.Within) (hwritten : Written fault) :
    upsertGroupGenomeWithEvent jid (evolve fitness avg_response_ms genome)
        (evolutionEvent fitness avg_response_ms jid genome) fault (opened database) =
      opened (database.evolved fitness avg_response_ms jid genome) :=
  transact_of_perform ((undisturbed_iff_written fault _ _ _).mpr hwritten) (perform_upsert h)

theorem upsert_of_not_written {event : LogEvent} (hwritten : ¬Written fault) :
    upsertGroupGenomeWithEvent jid genome event fault (opened database) = opened database := by
  obtain ⟨final, hundisturbed, -, -⟩ | ⟨-, heq⟩ := transact_eq
    [insertGenome jid, updateGenome jid genome, insertEvent event] fault (opened database)
  · exact absurd ((undisturbed_iff_written fault _ _ _).mp hundisturbed) hwritten
  · exact heq

theorem Database.Linked.evolved (h : database.Linked) :
    (database.evolved fitness avg_response_ms jid (database.current jid)).Linked := by
  have hwithin := h.current_within jid
  have hself : (database.evolved fitness avg_response_ms jid (database.current jid)).groupGenome jid =
      some (evolve fitness avg_response_ms (database.current jid)) := Function.update_self ..
  have hne : ∀ other, other ≠ jid →
      (database.evolved fitness avg_response_ms jid (database.current jid)).groupGenome other =
        database.groupGenome other := fun other hother => Function.update_of_ne hother ..
  refine ⟨fun group genome hgenome => ?_, fun group => ?_, fun group => ?_, fun group => ?_⟩
  all_goals by_cases hgroup : group = jid
  · subst hgroup
    cases hself.symm.trans hgenome
    have hgeneration := hwithin.generation
    refine ⟨hwithin.evolve _ _, ?_⟩
    show 0 < (database.current group).generation + 1
    omega
  · exact h.within group genome ((hne group hgroup).symm.trans hgenome)
  · subst hgroup
    rw [hself, steps_evolved_self, List.getLast?_append]
    rfl
  · rw [hne group hgroup, steps_evolved_of_ne hgroup]
    exact h.stored group
  · subst hgroup
    rw [steps_evolved_self]
    intro step hstep
    cases List.mem_append.mp hstep with
    | inl hold => exact h.after group step hold
    | inr hnew =>
        cases List.mem_singleton.mp hnew
        rfl
  · rw [steps_evolved_of_ne hgroup]
    exact h.after group
  · subst hgroup
    rw [steps_evolved_self]
    refine (h.chain group).append (List.isChain_singleton _) fun last hlast new hnew => ?_
    cases hnew
    -- the stored genome is the one that the last step led to
    have hcurrent : database.current group = last.genomeAfter := by
      rw [Database.current, h.stored group, Option.mem_def.mp hlast]
      rfl
    have hafter := h.after group last (List.mem_of_getLast? hlast)
    refine ⟨?_, ?_⟩
    · show (database.current group).generation = last.generationAfter
      rw [hafter, hcurrent]
    · show { database.current group with
          responseStyle := normaliseStyle (database.current group).responseStyle } = _
      rw [normaliseStyle_of_mem hwithin.style]
      exact hcurrent
  · rw [steps_evolved_of_ne hgroup]
    exact h.chain group

-- A genome that is stored and could not be read is evolved from the default one, and the chain
-- breaks there.
theorem not_sound_of_unread (h : database.Linked) (hstored : database.groupGenome jid ≠ none) :
    ¬(database.evolved fitness avg_response_ms jid DEFAULT_GENOME).Sound := by
  intro hsound
  obtain ⟨genome, hgenome⟩ := Option.ne_none_iff_exists'.mp hstored
  have hpositive := (h.within jid genome hgenome).2
  have hlink := h.stored jid
  rw [hgenome] at hlink
  obtain ⟨last, hlast, hlast'⟩ := Option.map_eq_some_iff.mp hlink.symm
  have hchain := hsound.chain jid
  rw [steps_evolved_self, List.isChain_append] at hchain
  have hfollows := (hchain.2.2 last hlast _ rfl).1
  have hafter := h.after jid last (List.mem_of_getLast? hlast)
  rw [hlast'] at hafter
  have hzero : (0 : ℤ) = last.generationAfter := hfollows
  omega

end Evolving

def Inv (db : Connection Database) : Prop := ∃ database, db = opened database ∧ database.Linked

theorem inv_log {eventType : EventType} (h : database.Linked) :
    Inv (logEvolutionEvent jid eventType fault (opened database)) := by
  cases logEvolutionEvent_cases database jid eventType fault with
  | inl heq => exact ⟨database, heq, h⟩
  | inr heq => exact ⟨_, heq, h.log rfl⟩

-- A call of evolve_genome_from_fitness, and what it needs.
theorem inv_evolve {fitness avg_response_ms : Argument} {readFails : Bool} (h : database.Linked)
    (hread : readFails = true → Written fault → database.groupGenome jid = none) :
    Inv (evolveGenomeFromFitness jid fitness avg_response_ms readFails fault (opened database)) := by
  unfold evolveGenomeFromFitness
  dsimp only
  by_cases hwritten : Written fault
  · have hcurrent : getGenome jid readFails (opened database) = database.current jid := by
      cases readFails with
      | false => exact getGenome_of_linked h
      | true =>
          rw [getGenome_readFails, Database.current, hread rfl hwritten]
          rfl
    rw [hcurrent, upsert_of_written (h.current_within _) hwritten]
    exact ⟨_, rfl, h.evolved⟩
  · rw [upsert_of_not_written hwritten]
    exact ⟨database, rfl, h⟩

theorem sound_evolve {fitness avg_response_ms : Argument} {readFails : Bool} (h : database.Linked)
    (hsound : (evolveGenomeFromFitness jid fitness avg_response_ms readFails fault
      (opened database)).committed.Sound) (hfails : readFails = true) (hwritten : Written fault) :
    database.groupGenome jid = none := by
  by_contra hstored
  subst hfails
  unfold evolveGenomeFromFitness at hsound
  dsimp only at hsound
  rw [getGenome_readFails, upsert_of_written within_default hwritten] at hsound
  exact not_sound_of_unread h hstored hsound

-- No stored genome is ever found to be bad.
theorem evolveGroup_of_linked (round : Round) (h : database.Linked) :
    evolveGroup round (opened database) =
      match round.runs with
      | none => opened database
      | some runs =>
          if runs.length < MIN_SAMPLES then
            logEvolutionEvent round.jid .skippedLowSamples round.skippedFault (opened database)
          else
            evolveGenomeFromFitness round.jid (.finite (computeFitness round.fitnessRuns))
              (.finite (if validTimes runs = [] then 0 else mean (validTimes runs)))
              round.readFails round.fault (opened database) := by
  unfold evolveGroup
  cases round.runs with
  | none => rfl
  | some runs =>
      dsimp only
      rw [if_pos (valid_getGenome h _)]

theorem inv_step {action : Action} {after : Connection Database} (h : Inv db)
    (hreadable : Readable db action) (hstep : step db action = some after) : Inv after := by
  obtain ⟨database, rfl, hlinked⟩ := h
  cases action with
  | log eventType fault =>
      cases hstep
      exact inv_log hlinked
  | evolve jid fitness avg_response_ms readFails fault =>
      cases hstep
      exact inv_evolve hlinked hreadable
  | evolveGroup round =>
      cases hstep
      rw [evolveGroup_of_linked round hlinked]
      cases hruns : round.runs with
      | none => exact ⟨database, rfl, hlinked⟩
      | some runs =>
          dsimp only
          split
          · exact inv_log hlinked
          · next henough =>
              exact inv_evolve hlinked (hreadable ⟨runs, hruns, Nat.not_lt.mp henough⟩)

theorem readable_of_sound {action : Action} {after : Connection Database} (h : Inv db)
    (hstep : step db action = some after) (hsound : after.committed.Sound) :
    Readable db action := by
  obtain ⟨database, rfl, hlinked⟩ := h
  cases action with
  | log eventType fault => trivial
  | evolve jid fitness avg_response_ms readFails fault =>
      cases hstep
      exact sound_evolve hlinked hsound
  | evolveGroup round =>
      cases hstep
      rintro ⟨runs, hruns, henough⟩
      rw [evolveGroup_of_linked round hlinked, Option.mem_def.mp hruns] at hsound
      dsimp only at hsound
      rw [if_neg (Nat.not_lt.mpr henough)] at hsound
      exact sound_evolve hlinked hsound

-- The genomes stay valid and the audit chain stays unbroken exactly as long as no evolution
-- takes a SELECT that failed for a group that has no genome.
theorem audit_chain_iff (calls : List Call) :
    Always step (fun db => db.committed.Sound) (opened Database.empty)
        (calls.flatMap Call.actions) ↔
      Along step Readable (opened Database.empty) (calls.flatMap Call.actions) :=
  always_iff_along Inv (fun _ _ _ h hg hstep => inv_step h hg hstep)
    (fun _ ⟨_, heq, hlinked⟩ => heq ▸ hlinked.sound)
    (fun _ _ _ h hstep hsound => readable_of_sound h hstep hsound)
    ⟨Database.empty, rfl, linked_empty⟩

-- Two evolutions of a group, the second with a SELECT that fails.
theorem chain_broken :
    ¬ Always step (fun db => db.committed.Sound) (opened Database.empty)
      ([Call.evolve "tg:7" (.finite (9 / 10)) (.finite 1000) false none,
        .evolve "tg:7" (.finite (9 / 10)) (.finite 1000) true none].flatMap Call.actions) := by
  intro h
  have hchain := h.2.2.chain "tg:7"
  revert hchain
  decide +kernel

end EvoClaw.Evolution
