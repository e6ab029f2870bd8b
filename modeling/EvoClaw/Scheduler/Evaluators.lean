import EvoClaw.Ipc.Jobs
import EvoClaw.Numeric.Double
import EvoClaw.Scheduler.Model
import Mathlib.Order.Bounds.Basic

namespace EvoClaw.Scheduler

open Numeric

-- A time zone is its offset from UTC, in seconds, at each second since the epoch.
abbrev Zone := Int → Int

def utc : Zone := fun _ => 0

def wallClock (zone : Zone) (second : Int) : Int := second + zone second

-- croniter gives the next second after its start whose wall clock time matches, and raises
-- where there is none. An expression that it cannot read matches nothing.
structure CronSearch where
  matchesAt : String → Int → Prop
  next : String → Zone → ℚ → Option Int
  next_eq_some : ∀ expression zone start second, next expression zone start = some second ↔
    IsLeast {second : Int | start < second ∧ matchesAt expression (wallClock zone second)} second

-- What the two evaluators read: time.time() and pytz.timezone(TIMEZONE), none where the
-- name is unknown. Only task_scheduler calls croniter with hash_use_datetime.
structure Moment where
  time : ℚ
  timezone : Option Zone
  croniter : CronSearch
  hashUseDatetime : Bool

namespace Moment

variable (moment : Moment)

-- int(time.time() * 1000)
def nowMs : Int := towardZero (nearestDouble (moment.time * 1000))

-- int((base + ms / 1000) * 1000), with base = last_run / 1000 or time.time()
def later (lastRun : Option Int) (ms : Int) : Option Int :=
  (match lastRun with
    | some lastRun => toDouble (lastRun / 1000)
    | none => some moment.time).bind fun base =>
  (toDouble (ms / 1000)).bind fun seconds =>
  (toDouble (base + seconds)).bind fun sum =>
  (toDouble (sum * 1000)).map towardZero

-- datetime.fromtimestamp keeps whole microseconds.
def startTime : ℚ :=
  ⌊moment.time⌋ + roundHalfEven (nearestDouble ((moment.time - ⌊moment.time⌋) * 10 ^ 6)) / 10 ^ 6

-- task_scheduler reads cron expressions in the configured time zone.
def localCroniter : Croniter where
  hashUseDatetime := moment.hashUseDatetime
  getNext := fun expression => moment.timezone.bind fun zone =>
    (moment.croniter.next expression zone moment.startTime).map fun second => 1000 * second

def clock : Clock := moment.localCroniter.clock moment.nowMs moment.later

-- ipc_watcher gives croniter the bare time, which it takes for UTC.
def runtime (runtime : Ipc.Runtime) : Ipc.Runtime :=
  { runtime with
    now := moment.nowMs
    croniterNext := fun expression =>
      (moment.croniter.next expression utc moment.time).map fun second => 1000 * second }

-- The addition in floating point lands where the one in whole milliseconds does, or behind
-- the present by a multiple of the interval.
def IntervalAgrees (value : String) : Prop :=
  ∀ ms, intOfText value = some ms → 0 < ms ∧ ∃ sum, moment.later none ms = some sum ∧
    (sum = moment.nowMs + ms ∨ sum ≤ moment.nowMs ∧ ms ∣ moment.nowMs - sum)

-- The seconds to come that match on the wall clock of each evaluator. task_scheduler has none where
-- croniter does not know the keyword.
def utcMatches (expression : String) : Set Int :=
  {second | moment.time < second ∧ moment.croniter.matchesAt expression (wallClock utc second)}

def localMatches (expression : String) : Set Int :=
  {second | moment.hashUseDatetime = true ∧ ∃ zone ∈ moment.timezone, moment.startTime < second ∧
    moment.croniter.matchesAt expression (wallClock zone second)}

-- The first second to come that matches on either clock matches on both.
def CronAgrees (expression : String) : Prop :=
  (∀ second, second ∉ moment.utcMatches expression ∪ moment.localMatches expression) ∨
  ∃ second ∈ moment.utcMatches expression ∩ moment.localMatches expression,
    ∀ earlier < second, earlier ∉ moment.utcMatches expression ∪ moment.localMatches expression

end Moment

section Advance

variable {ms now next : Int} {fuel : Nat}

theorem dvd_advance : ms ∣ advance ms now fuel next - next := by
  induction fuel generalizing next with
  | zero => simp [advance]
  | succ fuel ih =>
      unfold advance
      split_ifs with hpast
      · have hsum : ms ∣ advance ms now fuel (next + ms) - (next + ms) + ms :=
          dvd_add ih (dvd_refl ms)
        have heq : advance ms now fuel (next + ms) - (next + ms) + ms =
            advance ms now fuel (next + ms) - next := by omega
        rwa [heq] at hsum
      · simp

theorem advance_le (hnext : next ≤ now + ms) : advance ms now fuel next ≤ now + ms := by
  induction fuel generalizing next with
  | zero => exact hnext
  | succ fuel ih =>
      unfold advance
      split_ifs with hpast
      · apply ih
        omega
      · exact hnext

theorem advance_of_lt (hnext : now < next) : advance ms now fuel next = next := by
  cases fuel with
  | zero => rfl
  | succ fuel => exact if_neg (by omega)

-- Advanced past the present, a time is one interval ahead exactly when it was that, or when
-- it lay a number of whole intervals back.
theorem advance_eq_iff (hms : 0 < ms) (hfuel : now + 1 - next ≤ fuel) :
    advance ms now fuel next = now + ms ↔ next = now + ms ∨ next ≤ now ∧ ms ∣ now - next := by
  have hdvd : ms ∣ advance ms now fuel next - next := dvd_advance
  by_cases hpast : next ≤ now
  · have hlt := now_lt_advance hms hfuel
    have hle : advance ms now fuel next ≤ now + ms := advance_le (by omega)
    have hne : next ≠ now + ms := by omega
    constructor
    · intro heq
      refine Or.inr ⟨hpast, ?_⟩
      rw [heq] at hdvd
      have hsub : ms ∣ now + ms - next - ms := dvd_sub hdvd (dvd_refl ms)
      rwa [show now + ms - next - ms = now - next by omega] at hsub
    · rintro (heq | ⟨-, hback⟩)
      · exact absurd heq hne
      · have hsub : ms ∣ advance ms now fuel next - next - (now - next) := dvd_sub hdvd hback
        have hbound := Int.le_of_dvd (by omega) hsub
        omega
  · rw [advance_of_lt (by omega)]
    constructor
    · exact Or.inl
    · rintro (heq | ⟨hle, -⟩)
      · exact heq
      · exact absurd hle hpast

end Advance

section Search

variable {first second : Set Int} {found other : Option Int}

-- A search that finds the least element of a set.
def Finds (found : Option Int) (set : Set Int) : Prop :=
  (∀ least, found = some least ↔ IsLeast set least) ∧ (found = none → set = ∅)

-- Two searches find the same second exactly when neither finds one, or when the first
-- second of the two sets together is in both.
theorem Finds.eq_iff (hfound : Finds found first) (hother : Finds other second) :
    found = other ↔ (∀ s, s ∉ first ∪ second) ∨
      ∃ s ∈ first ∩ second, ∀ earlier < s, earlier ∉ first ∪ second := by
  constructor
  · intro heq
    cases hf : found with
    | none =>
        left
        intro s hs
        rw [hfound.2 hf, hother.2 (heq ▸ hf)] at hs
        simp at hs
    | some least =>
        have hleast := (hfound.1 least).mp hf
        have hleast' := (hother.1 least).mp (heq ▸ hf)
        refine Or.inr ⟨least, ⟨hleast.1, hleast'.1⟩, fun earlier hlt hmem => ?_⟩
        rcases hmem with hmem | hmem
        · exact absurd (hleast.2 hmem) (Int.not_le.mpr hlt)
        · exact absurd (hleast'.2 hmem) (Int.not_le.mpr hlt)
  · rintro (hempty | ⟨s, ⟨hs, hs'⟩, hearlier⟩)
    · have hnone (found : Option Int) (set : Set Int) (h : Finds found set)
          (hsub : set ⊆ first ∪ second) : found = none := by
        cases hf : found with
        | none => rfl
        | some least => exact absurd (hsub ((h.1 least).mp hf).1) (hempty least)
      rw [hnone found first hfound Set.subset_union_left,
        hnone other second hother Set.subset_union_right]
    · have hleast (set : Set Int) (hmem : s ∈ set) (hsub : set ⊆ first ∪ second) :
          IsLeast set s :=
        ⟨hmem, fun x hx => Int.not_lt.mp fun hlt => hearlier x hlt (hsub hx)⟩
      rw [(hfound.1 s).mpr (hleast first hs Set.subset_union_left),
        (hother.1 s).mpr (hleast second hs' Set.subset_union_right)]

-- A set of seconds after a start has a least one, if it has any.
theorem finds_next (croniter : CronSearch) (expression : String) (zone : Zone) (start : ℚ) :
    Finds (croniter.next expression zone start)
      {second | start < second ∧ croniter.matchesAt expression (wallClock zone second)} := by
  refine ⟨croniter.next_eq_some expression zone start, fun hnone => ?_⟩
  by_contra hne
  obtain ⟨second, hsecond⟩ := Set.nonempty_iff_ne_empty.mpr hne
  have hbound : ∀ s : Int, start < s ∧ croniter.matchesAt expression (wallClock zone s) →
      ⌊start⌋ ≤ s := by
    intro s hs
    exact Int.floor_le_iff.mpr (hs.1.trans (lt_add_one _))
  obtain ⟨least, hleast, hlow⟩ := Int.exists_least_of_bdd ⟨⌊start⌋, hbound⟩ ⟨second, hsecond⟩
  have hfound := (croniter.next_eq_some expression zone start least).mpr
    ⟨hleast, fun s hs => hlow s hs⟩
  rw [hnone] at hfound
  cases hfound

end Search

section Agreement

variable {moment : Moment} {value : String}

theorem interval_agree_iff (runtime : Ipc.Runtime) :
    Ipc.computeNextRun (moment.runtime runtime) (.str "interval") (.str value) =
      computeNextRun moment.clock "interval" value none ↔ moment.IntervalAgrees value := by
  have hipc : Ipc.computeNextRun (moment.runtime runtime) (.str "interval") (.str value) =
      (intOfText value).map fun ms => moment.nowMs + ms := by
    have honce : ¬ Json.str "interval" = .str "once" := by simp
    simp only [Ipc.computeNextRun, if_neg honce, if_true, Json.toInt]
    rfl
  have hscheduler : computeNextRun moment.clock "interval" value none =
      (intOfText value).bind fun ms => if ms ≤ 0 then none else
        (moment.later none ms).map fun sum =>
          advance ms moment.nowMs (moment.nowMs + 1 - sum).toNat sum := by
    have honce : ¬ "interval" = "once" := by decide
    simp only [computeNextRun, if_neg honce, if_true]
    rfl
  rw [hipc, hscheduler, Moment.IntervalAgrees]
  cases intOfText value with
  | none => simp
  | some ms =>
      simp only [Option.map_some, Option.bind_some, Option.some.injEq, forall_eq']
      by_cases hms : ms ≤ 0
      · rw [if_pos hms]
        refine iff_of_false (by simp) fun h => ?_
        have hpos := h.1
        omega
      · rw [if_neg hms]
        have hpos : 0 < ms := by omega
        cases hsum : moment.later none ms with
        | none => simp
        | some sum =>
            have hiff := @advance_eq_iff ms moment.nowMs sum _ hpos
              (Int.self_le_toNat (moment.nowMs + 1 - sum))
            simp only [Option.map_some, Option.some.injEq, exists_eq_left', hpos, true_and]
            rw [eq_comm]
            exact hiff

theorem cron_agree_iff (runtime : Ipc.Runtime) :
    Ipc.computeNextRun (moment.runtime runtime) (.str "cron") (.str value) =
      computeNextRun moment.clock "cron" value none ↔ moment.CronAgrees value := by
  let found := moment.croniter.next value utc moment.time
  let other := if moment.hashUseDatetime then moment.timezone.bind fun zone =>
    moment.croniter.next value zone moment.startTime else none
  have hipc : Ipc.computeNextRun (moment.runtime runtime) (.str "cron") (.str value) =
      found.map fun second => 1000 * second := by
    have honce : ¬ Json.str "cron" = .str "once" := by simp
    have hinterval : ¬ Json.str "cron" = .str "interval" := by simp
    simp only [Ipc.computeNextRun, if_neg honce, if_neg hinterval, if_true]
    rfl
  have hscheduler : computeNextRun moment.clock "cron" value none =
      other.map fun second => 1000 * second := by
    have honce : ¬ "cron" = "once" := by decide
    have hinterval : ¬ "cron" = "interval" := by decide
    simp only [computeNextRun, if_neg honce, if_neg hinterval, if_true]
    change (if moment.hashUseDatetime = true then moment.timezone.bind fun zone =>
      (moment.croniter.next value zone moment.startTime).map fun second => 1000 * second
      else none) = _
    by_cases hkeyword : moment.hashUseDatetime = true
    · simp only [other, if_pos hkeyword]
      exact (Option.map_bind ..).symm
    · simp only [other, if_neg hkeyword, Option.map_none]
  have hother : Finds other (moment.localMatches value) := by
    simp only [other, Moment.localMatches]
    cases moment.hashUseDatetime with
    | false => simp [Finds, IsLeast]
    | true =>
        cases moment.timezone with
        | none => simp [Finds, IsLeast]
        | some zone => simpa using finds_next moment.croniter value zone moment.startTime
  have hinj : Function.Injective fun second : Int => 1000 * second := by
    intro a b hab
    simp only at hab
    omega
  rw [hipc, hscheduler, (Option.map_injective hinj).eq_iff]
  exact (finds_next moment.croniter value utc moment.time).eq_iff hother

-- The two evaluators reject the same schedules and give the others the same next run
-- exactly when neither the float sum nor the keyword and the time zone make a difference.
theorem evaluators_agree_iff (moment : Moment) (runtime : Ipc.Runtime)
    (scheduleType value : String) (htype : scheduleType = "interval" ∨ scheduleType = "cron") :
    Ipc.computeNextRun (moment.runtime runtime) (.str scheduleType) (.str value) =
      computeNextRun moment.clock scheduleType value none ↔
    (scheduleType = "interval" → moment.IntervalAgrees value) ∧
      (scheduleType = "cron" → moment.CronAgrees value) := by
  rcases htype with rfl | rfl
  · rw [interval_agree_iff]
    exact ⟨fun h => ⟨fun _ => h, fun hcron => absurd hcron (by decide)⟩, fun h => h.1 rfl⟩
  · rw [cron_agree_iff]
    exact ⟨fun h => ⟨fun hinterval => absurd hinterval (by decide), fun _ => h⟩, fun h => h.2 rfl⟩

end Agreement

section NineDaily

open Classical in
-- A croniter that knows one expression: nine o'clock every day.
noncomputable def nineDaily : CronSearch where
  matchesAt := fun expression wall => expression = "0 9 * * *" ∧ wall % 86400 = 32400
  next := fun expression zone start =>
    if h : ∃ second, IsLeast {second : Int | start < second ∧ expression = "0 9 * * *" ∧
      wallClock zone second % 86400 = 32400} second then some h.choose else none
  next_eq_some := by
    intro expression zone start second
    split_ifs with h
    · rw [Option.some.injEq]
      exact ⟨fun heq => heq ▸ h.choose_spec, fun hleast => h.choose_spec.unique hleast⟩
    · exact iff_of_false (by simp) fun hleast => h ⟨second, hleast⟩

-- 00:16:40 UTC, where the configured zone is eight hours ahead.
noncomputable def taipei (hashUseDatetime : Bool) : Moment where
  time := 1000
  timezone := some fun _ => 28800
  croniter := nineDaily
  hashUseDatetime := hashUseDatetime

theorem taipei_interval_agrees :
    Ipc.computeNextRun ((taipei false).runtime Ipc.plainRuntime) (.str "interval") (.str "60000") =
      computeNextRun (taipei false).clock "interval" "60000" none := by
  refine (evaluators_agree_iff (taipei false) Ipc.plainRuntime "interval" "60000" (Or.inl rfl)).mpr
    ⟨fun _ ms hms => ?_, fun hcron => absurd hcron (by decide)⟩
  have hvalue : intOfText "60000" = some 60000 := by decide +kernel
  obtain rfl : 60000 = ms := Option.some.inj (hvalue.symm.trans hms)
  have hnow : (taipei false).nowMs = 1000000 := by
    change towardZero (nearestDouble (1000 * 1000)) = 1000000
    decide +kernel
  have hsum : (taipei false).later none 60000 = some 1060000 := by
    change ((toDouble (60000 / 1000)).bind fun seconds => (toDouble (1000 + seconds)).bind fun sum =>
      (toDouble (sum * 1000)).map towardZero) = some 1060000
    decide +kernel
  exact ⟨by decide, 1060000, hsum, Or.inl (by rw [hnow]; rfl)⟩

-- Nine o'clock is taken for UTC when the task is created. After a run croniter refuses the keyword,
-- and if it took it the hour would be the local one.
theorem taipei_nine_disagrees (hashUseDatetime : Bool) :
    ¬ Ipc.computeNextRun ((taipei hashUseDatetime).runtime Ipc.plainRuntime) (.str "cron")
        (.str "0 9 * * *") =
      computeNextRun (taipei hashUseDatetime).clock "cron" "0 9 * * *" none := by
  have hutc : nineDaily.next "0 9 * * *" utc 1000 = some 32400 := by
    refine (nineDaily.next_eq_some _ _ _ _).mpr ⟨⟨by norm_num, rfl, rfl⟩, ?_⟩
    rintro second ⟨hafter, -, hmatch⟩
    have hafter : (1000 : Int) < second := by exact_mod_cast hafter
    simp only [wallClock, utc] at hmatch
    omega
  have hcreated : Ipc.computeNextRun ((taipei hashUseDatetime).runtime Ipc.plainRuntime) (.str "cron")
      (.str "0 9 * * *") = some 32400000 := by
    change (nineDaily.next "0 9 * * *" utc 1000).map (fun second => 1000 * second) = _
    rw [hutc]
    rfl
  rw [hcreated]
  cases hashUseDatetime with
  | false => exact Option.some_ne_none _
  | true =>
      have hstart : (taipei true).startTime = 1000 := by
        change (⌊(1000 : ℚ)⌋ : ℚ) +
          roundHalfEven (nearestDouble ((1000 - ⌊(1000 : ℚ)⌋) * 10 ^ 6)) / 10 ^ 6 = 1000
        decide +kernel
      have hlocal : nineDaily.next "0 9 * * *" (fun _ => 28800) (taipei true).startTime =
          some 3600 := by
        rw [hstart]
        refine (nineDaily.next_eq_some _ _ _ _).mpr ⟨⟨by norm_num, rfl, rfl⟩, ?_⟩
        rintro second ⟨hafter, -, hmatch⟩
        have hafter : (1000 : Int) < second := by exact_mod_cast hafter
        simp only [wallClock] at hmatch
        omega
      have hafterRun : computeNextRun (taipei true).clock "cron" "0 9 * * *" none =
          some 3600000 := by
        change (nineDaily.next "0 9 * * *" (fun _ => 28800) (taipei true).startTime).map
          (fun second => 1000 * second) = _
        rw [hlocal]
        rfl
      rw [hafterRun]
      decide

-- The failing inputs: with the releases of croniter, and with one that knows the keyword.
theorem nine_daily_disagrees :
    (¬ Ipc.computeNextRun ((taipei false).runtime Ipc.plainRuntime) (.str "cron")
        (.str "0 9 * * *") = computeNextRun (taipei false).clock "cron" "0 9 * * *" none) ∧
    ¬ Ipc.computeNextRun ((taipei true).runtime Ipc.plainRuntime) (.str "cron")
        (.str "0 9 * * *") = computeNextRun (taipei true).clock "cron" "0 9 * * *" none :=
  ⟨taipei_nine_disagrees false, taipei_nine_disagrees true⟩

end NineDaily

end EvoClaw.Scheduler
