import EvoClaw.Evolution.Genome
import Mathlib.Algebra.Order.BigOperators.Group.List
import Mathlib.Tactic.FieldSimp

-- host/evolution/fitness.py: the parts of the score of a group's runs, and what a change of one
-- run does to them.
namespace EvoClaw.Evolution

open Numeric (roundTo)

def successRate (rows : List Run) : ℚ :=
  rows.countP Run.success / rows.length

def speedAt (avg_ms : ℚ) : ℚ :=
  max 0 (min 1 (1 - max 0 (avg_ms - SPEED_TARGET_MS) / (SPEED_FLOOR_MS - SPEED_TARGET_MS)))

def speedScore (rows : List Run) : ℚ :=
  if validTimes rows = [] then 1 / 2 else speedAt (mean (validTimes rows))

def avgRetries (rows : List Run) : ℚ :=
  mean (rows.map fun run => ((max 0 run.retryCount : ℤ) : ℚ))

def reliability (rows : List Run) : ℚ :=
  1 / (1 + avgRetries rows)

def fitness (rows : List Run) : ℚ :=
  successRate rows * (5 / 10) + speedScore rows * (3 / 10) + reliability rows * (2 / 10)

-- The score before it is rounded.
def score (rows : List Run) : ℚ :=
  if rows.length < 3 then 1 / 2 else max 0 (min 1 (fitness rows))

theorem computeFitness_some (rows : List Run) : computeFitness (some rows) = roundTo 4 (score rows) := by
  have hhalf : roundTo 4 (1 / 2 : ℚ) = 1 / 2 := by
    norm_num [roundTo, Numeric.roundHalfEven]
  unfold score
  by_cases h : rows.length < 3
  · rw [if_pos h, hhalf]
    exact if_pos h
  · rw [if_neg h]
    exact if_neg h

variable {rows before after : List Run} {run : Run} {a b t u : ℚ} {times more : List ℚ} {time : ℤ}

section Bounds

theorem successRate_nonneg (rows : List Run) : 0 ≤ successRate rows := by
  unfold successRate
  positivity

theorem successRate_le_one (rows : List Run) : successRate rows ≤ 1 := by
  unfold successRate
  refine div_le_one_of_le₀ ?_ (Nat.cast_nonneg _)
  exact_mod_cast List.countP_le_length

theorem speedAt_nonneg (a : ℚ) : 0 ≤ speedAt a :=
  le_max_left _ _

theorem speedAt_le_one (a : ℚ) : speedAt a ≤ 1 :=
  max_le zero_le_one (min_le_left _ _)

theorem speedScore_nonneg (rows : List Run) : 0 ≤ speedScore rows := by
  unfold speedScore
  split
  · norm_num
  · exact speedAt_nonneg _

theorem speedScore_le_one (rows : List Run) : speedScore rows ≤ 1 := by
  unfold speedScore
  split
  · norm_num
  · exact speedAt_le_one _

theorem avgRetries_nonneg (rows : List Run) : 0 ≤ avgRetries rows := by
  have hsum : 0 ≤ (rows.map fun run => ((max 0 run.retryCount : ℤ) : ℚ)).sum := by
    refine List.sum_nonneg fun retries hmem => ?_
    obtain ⟨run, -, rfl⟩ := List.mem_map.mp hmem
    exact Int.cast_nonneg (le_max_left _ _)
  exact div_nonneg hsum (Nat.cast_nonneg _)

theorem reliability_nonneg (rows : List Run) : 0 ≤ reliability rows := by
  have havg := avgRetries_nonneg rows
  unfold reliability
  positivity

theorem reliability_le_one (rows : List Run) : reliability rows ≤ 1 := by
  have havg := avgRetries_nonneg rows
  unfold reliability
  rw [div_le_one (by linarith)]
  linarith

theorem fitness_nonneg (rows : List Run) : 0 ≤ fitness rows := by
  have hsuccess := successRate_nonneg rows
  have hspeed := speedScore_nonneg rows
  have hreliability := reliability_nonneg rows
  unfold fitness
  linarith

theorem fitness_le_one (rows : List Run) : fitness rows ≤ 1 := by
  have hsuccess := successRate_le_one rows
  have hspeed := speedScore_le_one rows
  have hreliability := reliability_le_one rows
  unfold fitness
  linarith

-- The last clamp has nothing to do.
theorem score_eq (h : 3 ≤ rows.length) : score rows = fitness rows := by
  rw [score, if_neg (by omega), min_eq_right (fitness_le_one rows),
    max_eq_right (fitness_nonneg rows)]

end Bounds

section Speed

theorem speedAt_antitone (h : a ≤ b) : speedAt b ≤ speedAt a := by
  unfold speedAt SPEED_FLOOR_MS SPEED_TARGET_MS
  refine max_le_max le_rfl (min_le_min le_rfl (sub_le_sub_left ?_ _))
  refine div_le_div_of_nonneg_right (max_le_max le_rfl ?_) (by norm_num)
  linarith

-- Below the target every time is as good.
theorem speedAt_max_target (a : ℚ) : speedAt (max SPEED_TARGET_MS a) = speedAt a := by
  have hover : max 0 (max SPEED_TARGET_MS a - SPEED_TARGET_MS) = max 0 (a - SPEED_TARGET_MS) := by
    rcases le_total SPEED_TARGET_MS a with h | h
    · rw [max_eq_right h]
    · rw [max_eq_left h, sub_self, max_self, max_eq_left (by linarith)]
  unfold speedAt
  rw [hover]

theorem speedScore_eq (h : validTimes rows ≠ []) :
    speedScore rows = speedAt (mean (validTimes rows)) :=
  if_neg h

theorem speedAt_middle : speedAt 17500 = 1 / 2 := by
  norm_num [speedAt, SPEED_FLOOR_MS, SPEED_TARGET_MS]

theorem validTimes_append (before after : List Run) (run : Run) :
    validTimes (before ++ run :: after) =
      validTimes before ++ (validTimes [run] ++ validTimes after) := by
  rw [← List.singleton_append]
  unfold validTimes
  rw [List.filterMap_append, List.filterMap_append]

theorem validTimes_valid (htime : run.responseMs = some time) (hpos : 0 < time)
    (hvalid : run.success = true) : validTimes [run] = [(time : ℚ)] := by
  simp [validTimes, htime, hpos, hvalid]

theorem validTimes_failed (hfailed : run.success = false) : validTimes [run] = [] := by
  unfold validTimes
  cases htime : run.responseMs with
  | none => simp [htime]
  | some time => simp [htime, hfailed]

theorem mean_le (h : t ≤ u) : mean (times ++ t :: more) ≤ mean (times ++ u :: more) := by
  unfold mean
  rw [List.length_append, List.length_append, List.length_cons, List.length_cons]
  refine div_le_div_of_nonneg_right ?_ (Nat.cast_nonneg _)
  simp only [List.sum_append, List.sum_cons]
  linarith

-- A time that joins the others moves their mean towards itself.
theorem mean_insert_le {bound : ℚ} (hne : times ++ more ≠ []) (hmean : mean (times ++ more) ≤ bound)
    (ht : t ≤ bound) : mean (times ++ t :: more) ≤ bound := by
  have hpos : (0 : ℚ) < (times ++ more).length := by
    exact_mod_cast List.length_pos_iff.mpr hne
  unfold mean at hmean ⊢
  rw [div_le_iff₀ hpos] at hmean
  have hlength : ((times ++ t :: more).length : ℚ) = (times ++ more).length + 1 := by
    simp only [List.length_append, List.length_cons]
    push_cast
    ring
  have hsum : (times ++ t :: more).sum = (times ++ more).sum + t := by
    simp only [List.sum_append, List.sum_cons]
    ring
  rw [hlength, hsum, div_le_iff₀ (by linarith)]
  linarith

end Speed

section Changes

-- A run in the middle of the others takes longer.
theorem speedScore_slower (hvalid : run.success = true) (htime : run.responseMs = some time)
    (hpos : 0 < time) {slower : ℤ} (hslower : time ≤ slower) :
    speedScore (before ++ { run with responseMs := some slower } :: after) ≤
      speedScore (before ++ run :: after) := by
  have hbefore : validTimes (before ++ run :: after) =
      validTimes before ++ (time : ℚ) :: validTimes after := by
    rw [validTimes_append, validTimes_valid htime hpos hvalid]
    rfl
  have hafter : validTimes (before ++ { run with responseMs := some slower } :: after) =
      validTimes before ++ (slower : ℚ) :: validTimes after := by
    have hrun : validTimes [{ run with responseMs := some slower }] = [(slower : ℚ)] :=
      validTimes_valid rfl (hpos.trans_le hslower) hvalid
    rw [validTimes_append, hrun]
    rfl
  rw [speedScore_eq (by simp [hafter]), speedScore_eq (by simp [hbefore]), hbefore, hafter]
  exact speedAt_antitone (mean_le (Int.cast_le.mpr hslower))

theorem reliability_retried {retries : ℤ} (hretries : run.retryCount ≤ retries) :
    reliability (before ++ { run with retryCount := retries } :: after) ≤
      reliability (before ++ run :: after) := by
  have havg : avgRetries (before ++ run :: after) ≤
      avgRetries (before ++ { run with retryCount := retries } :: after) := by
    unfold avgRetries
    rw [List.map_append, List.map_append, List.map_cons, List.map_cons]
    exact mean_le (Int.cast_le.mpr (max_le_max le_rfl hretries))
  have hnonneg := avgRetries_nonneg (before ++ run :: after)
  exact one_div_le_one_div_of_le (by linarith) (by linarith)

theorem successRate_succeeded (hfailed : run.success = false) :
    successRate (before ++ { run with success := true } :: after) =
      successRate (before ++ run :: after) + 1 / (before ++ run :: after).length := by
  unfold successRate
  simp only [List.length_append, List.length_cons, List.countP_append, List.countP_cons, hfailed]
  push_cast
  ring

-- The success weighs half a run, and what it costs is speed.
theorem fitness_succeeded (hfailed : run.success = false) :
    fitness (before ++ { run with success := true } :: after) =
      fitness (before ++ run :: after) + 1 / (2 * (before ++ run :: after).length) -
        3 / 10 * (speedScore (before ++ run :: after) -
          speedScore (before ++ { run with success := true } :: after)) := by
  have hreliability : reliability (before ++ { run with success := true } :: after) =
      reliability (before ++ run :: after) := by
    simp [reliability, avgRetries]
  unfold fitness
  rw [successRate_succeeded hfailed, hreliability]
  ring

-- What a success is worth to the speed score, which counts three tenths.
theorem fitness_succeeded_le_iff (hfailed : run.success = false) :
    fitness (before ++ run :: after) ≤ fitness (before ++ { run with success := true } :: after) ↔
      speedScore (before ++ run :: after) -
          speedScore (before ++ { run with success := true } :: after) ≤
        5 / (3 * (before ++ run :: after).length) := by
  have hpos : (0 : ℚ) < (before ++ run :: after).length := by
    rw [Nat.cast_pos, List.length_append, List.length_cons]
    omega
  have hworth : 3 / 10 * (5 / (3 * ((before ++ run :: after).length : ℚ))) =
      1 / (2 * (before ++ run :: after).length) := by
    field_simp
    norm_num
  rw [fitness_succeeded hfailed]
  constructor
  · intro hle
    linarith
  · intro hle
    linarith

theorem fitness_slower (hvalid : run.success = true) (htime : run.responseMs = some time)
    (hpos : 0 < time) {slower : ℤ} (hslower : time ≤ slower) :
    fitness (before ++ { run with responseMs := some slower } :: after) ≤
      fitness (before ++ run :: after) := by
  have hspeed : speedScore (before ++ { run with responseMs := some slower } :: after) ≤
      speedScore (before ++ run :: after) := speedScore_slower hvalid htime hpos hslower
  have hsuccess : successRate (before ++ { run with responseMs := some slower } :: after) =
      successRate (before ++ run :: after) := by simp [successRate, List.countP_cons]
  have hreliability : reliability (before ++ { run with responseMs := some slower } :: after) =
      reliability (before ++ run :: after) := by simp [reliability, avgRetries]
  unfold fitness
  rw [hsuccess, hreliability]
  linarith

theorem fitness_retried {retries : ℤ} (hretries : run.retryCount ≤ retries) :
    fitness (before ++ { run with retryCount := retries } :: after) ≤
      fitness (before ++ run :: after) := by
  have hreliability : reliability (before ++ { run with retryCount := retries } :: after) ≤
      reliability (before ++ run :: after) := reliability_retried hretries
  have hsuccess : successRate (before ++ { run with retryCount := retries } :: after) =
      successRate (before ++ run :: after) := by simp [successRate, List.countP_cons]
  have hspeed : speedScore (before ++ { run with retryCount := retries } :: after) =
      speedScore (before ++ run :: after) := by
    have htimes : validTimes [{ run with retryCount := retries }] = validTimes [run] := rfl
    unfold speedScore
    rw [validTimes_append, validTimes_append, htimes]
  unfold fitness
  rw [hsuccess, hspeed]
  linarith

-- The time is no worse than the times of the successful runs.
def KeepsPace (rows : List Run) (time : ℤ) : Prop :=
  if validTimes rows = [] then time ≤ 17500
  else (time : ℚ) ≤ max SPEED_TARGET_MS (mean (validTimes rows))

theorem speedScore_keepsPace (hfailed : run.success = false) (htime : run.responseMs = some time)
    (hpos : 0 < time) (hpace : KeepsPace (before ++ run :: after) time) :
    speedScore (before ++ run :: after) ≤
      speedScore (before ++ { run with success := true } :: after) := by
  have hbefore : validTimes (before ++ run :: after) = validTimes before ++ validTimes after := by
    rw [validTimes_append, validTimes_failed hfailed]
    rfl
  have hafter : validTimes (before ++ { run with success := true } :: after) =
      validTimes before ++ (time : ℚ) :: validTimes after := by
    have hrun : validTimes [{ run with success := true }] = [(time : ℚ)] :=
      validTimes_valid htime hpos rfl
    rw [validTimes_append, hrun]
    rfl
  unfold KeepsPace at hpace
  have hjoined : speedScore (before ++ { run with success := true } :: after) =
      speedAt (mean (validTimes before ++ (time : ℚ) :: validTimes after)) := by
    rw [speedScore_eq (by simp [hafter]), hafter]
  rw [hjoined]
  rw [hbefore] at hpace
  by_cases hnone : validTimes before ++ validTimes after = []
  · have hmiddle : speedScore (before ++ run :: after) = speedAt 17500 := by
      rw [speedScore, hbefore, if_pos hnone, speedAt_middle]
    rw [if_pos hnone] at hpace
    obtain ⟨hleft, hright⟩ := List.append_eq_nil_iff.mp hnone
    rw [hmiddle, hleft, hright]
    refine speedAt_antitone ?_
    simp only [mean, List.nil_append, List.sum_singleton, List.length_singleton, Nat.cast_one,
      div_one]
    exact_mod_cast hpace
  · rw [if_neg hnone] at hpace
    rw [speedScore_eq (by rwa [hbefore]), hbefore,
      ← speedAt_max_target (mean (validTimes before ++ validTimes after))]
    exact speedAt_antitone (mean_insert_le hnone (le_max_right _ _) hpace)

-- The score lies between 0 and 1. It does not grow with the time of a successful run that counts
-- as a time, nor with the retries of any run. When a failed run succeeds it does not fall exactly if
-- the speed loses no more than the success is worth, as it does not if the run keeps pace.
theorem score_monotone (h : 3 ≤ (before ++ run :: after).length) :
    (0 ≤ score (before ++ run :: after) ∧ score (before ++ run :: after) ≤ 1) ∧
    (∀ time slower, run.success = true → run.responseMs = some time → 0 < time → time ≤ slower →
      score (before ++ { run with responseMs := some slower } :: after) ≤
        score (before ++ run :: after)) ∧
    (∀ retries, run.retryCount ≤ retries →
      score (before ++ { run with retryCount := retries } :: after) ≤
        score (before ++ run :: after)) ∧
    (∀ time, run.success = false → run.responseMs = some time → 0 < time →
      (score (before ++ run :: after) ≤
          score (before ++ { run with success := true } :: after) ↔
        speedScore (before ++ run :: after) -
            speedScore (before ++ { run with success := true } :: after) ≤
          5 / (3 * (before ++ run :: after).length)) ∧
      (KeepsPace (before ++ run :: after) time →
        score (before ++ run :: after) ≤
          score (before ++ { run with success := true } :: after))) := by
  have heq (other : Run) :
      score (before ++ other :: after) = fitness (before ++ other :: after) := by
    refine score_eq ?_
    simpa using h
  simp only [heq]
  refine ⟨⟨fitness_nonneg _, fitness_le_one _⟩, fun time slower hvalid htime hpositive hslower => ?_,
    fun retries hretries => ?_, fun time hfailed htime hpositive => ?_⟩
  · exact fitness_slower hvalid htime hpositive hslower
  · exact fitness_retried hretries
  · refine ⟨fitness_succeeded_le_iff hfailed,
      fun hpace => (fitness_succeeded_le_iff hfailed).mpr ?_⟩
    have hspeed := speedScore_keepsPace hfailed htime hpositive hpace
    have hgain : (0 : ℚ) ≤ 5 / (3 * (before ++ run :: after).length) := by positivity
    linarith

def quick : Run where
  responseMs := some 1000
  retryCount := 0
  success := true

def late : Run where
  responseMs := some 900000
  retryCount := 0
  success := false

def instant : Run where
  responseMs := some 0
  retryCount := 0
  success := true

theorem score_monotone_late :
    score [quick, { late with retryCount := 2 }, late] ≤ score [quick, late, late] ∧
      score [{ quick with responseMs := some 9000 }, late, late] ≤ score [quick, late, late] ∧
      score [quick, { late with responseMs := some 4000 }, late] ≤
        score [quick, { late with responseMs := some 4000, success := true }, late] := by
  have hlate := @score_monotone [quick] [late] late (by decide)
  have hquick := @score_monotone [] [late, late] quick (by decide)
  have hearly := @score_monotone [quick] [late] { late with responseMs := some 4000 } (by decide)
  have hpace : KeepsPace [quick, { late with responseMs := some 4000 }, late] 4000 := by
    norm_num [KeepsPace, validTimes, quick, late, SPEED_TARGET_MS]
  exact ⟨hlate.2.2.1 2 (by decide), hquick.2.1 1000 9000 rfl rfl (by decide) (by decide),
    (hearly.2.2.2 4000 rfl rfl (by decide)).2 hpace⟩

-- A run that succeeds late costs more speed than the success is worth, and a time that becomes
-- positive joins the other times.
theorem score_not_monotone :
    score [quick, { late with success := true }, late] <
        score [quick, late, late] ∧
      score [{ quick with responseMs := some 40000 }, instant, late] <
        score
          [{ quick with responseMs := some 40000 }, { instant with responseMs := some 1 }, late] := by
  have hspeed {rows : List Run} (t : ℚ) (times : List ℚ) (htimes : validTimes rows = t :: times) :
      speedScore rows = speedAt (mean (t :: times)) := by
    rw [speedScore_eq (by simp [htimes]), htimes]
  have hquick : speedScore [quick, late, late] = 1 := by
    rw [hspeed 1000 [] (by norm_num [validTimes, List.filterMap_cons, quick, late, instant])]
    norm_num [mean, speedAt, SPEED_FLOOR_MS, SPEED_TARGET_MS]
  have hlate : speedScore [quick, { late with success := true }, late] = 0 := by
    rw [hspeed 1000 [900000] (by norm_num [validTimes, List.filterMap_cons, quick, late, instant])]
    norm_num [mean, speedAt, SPEED_FLOOR_MS, SPEED_TARGET_MS]
  have hslow : speedScore [{ quick with responseMs := some 40000 }, instant, late] = 0 := by
    rw [hspeed 40000 [] (by norm_num [validTimes, List.filterMap_cons, quick, late, instant])]
    norm_num [mean, speedAt, SPEED_FLOOR_MS, SPEED_TARGET_MS]
  have hjoined : speedScore
      [{ quick with responseMs := some 40000 }, { instant with responseMs := some 1 }, late] =
        19999 / 50000 := by
    rw [hspeed 40000 [1] (by norm_num [validTimes, List.filterMap_cons, quick, late, instant])]
    norm_num [mean, speedAt, SPEED_FLOOR_MS, SPEED_TARGET_MS]
  unfold score fitness
  rw [hquick, hlate, hslow, hjoined]
  norm_num [successRate, reliability, avgRetries, mean, quick, late, instant]

end Changes

end EvoClaw.Evolution
