import EvoClaw.EventSystem.Runs
import EvoClaw.Migrations.Model
import Mathlib.Data.Fintype.Basic

namespace EvoClaw.Migrations

open EventSystem

variable {σ ι : Type*} [DecidableEq ι] {sqlite : Sqlite σ} {world next : World σ ι} {p : ι}

-- A run that exits in migration v leaves the database as it was after the last migration that
-- was recorded before v.
def World.Atomic (world : World σ ι) : Prop :=
  ∀ p version before left, world.phase p = .failed version before left → left = before

-- No migration has statements that two runs executed.
def World.Exclusive (world : World σ ι) : Prop :=
  ∀ p q version, (p, version) ∈ world.executed → (q, version) ∈ world.executed → p = q

def Phase.UnderWay : Phase σ → Prop
  | .applying _ _ _ _ _ => True
  | _ => False

instance : ∀ phase : Phase σ, Decidable phase.UnderWay
  | .applying _ _ _ _ _ => isTrue trivial
  | .start | .refused | .failed _ _ _ | .finished => isFalse fun h => h

-- The statements of the script, each at its moment, on the database.
def replay (sqlite : Sqlite σ) : List (String × ℚ) → σ → Option σ
  | [], db => some db
  | (sql, now) :: rest, db => (sqlite.exec sql now db).bind (replay sqlite rest)

-- A run takes its lock while no other is under way, and reads every migration as applied that a
-- run has executed a statement of.
def World.Alone (sqlite : Sqlite σ) (world : World σ ι) (raised : Bool) : Prop :=
  (∀ q, ¬ (world.phase q).UnderWay) ∧
    ∀ entry ∈ world.executed, entry.2 ∈ _get_applied_versions sqlite raised world.disk

instance [Fintype ι] (sqlite : Sqlite σ) (world : World σ ι) (raised : Bool) :
    Decidable (world.Alone sqlite raised) :=
  inferInstanceAs (Decidable (_ ∧ _))

-- A migration fails where the part of its script that went through has changed nothing.
def Guarded (sqlite : Sqlite σ) (world : World σ ι) : Event ι → Prop
  | .begin _ raised => world.Alone sqlite raised
  | .fail p =>
      match world.phase p with
      | .applying migration _ before times _ =>
          replay sqlite (migration.script.zip times) before = some before
      | _ => True
  | _ => True

instance [Fintype ι] [DecidableEq σ] (sqlite : Sqlite σ) (world : World σ ι) (event : Event ι) :
    Decidable (Guarded sqlite world event) := by
  unfold Guarded
  split
  · infer_instance
  · split <;> infer_instance
  · infer_instance

theorem replay_append (first second : List (String × ℚ)) (db : σ) :
    replay sqlite (first ++ second) db = (replay sqlite first db).bind (replay sqlite second) := by
  induction first generalizing db with
  | nil => rfl
  | cons head rest ih =>
      obtain ⟨sql, now⟩ := head
      cases he : sqlite.exec sql now db with
      | none => simp [replay, he]
      | some next => simp [replay, he, ih]

theorem replay_none (script : List String) (db : σ) : replay sqlite (script.zip []) db = some db := by
  rw [List.zip_nil_right]
  rfl

-- The statements that are still to come begin where the moments end.
def Stage.Fits (migration : Migration) (times : List ℚ) : Stage σ → Prop
  | .loop => times = []
  | .script statements => ∃ done, migration.script = done ++ statements ∧ done.length = times.length
  | .recorded _ => True

structure Inv (sqlite : Sqlite σ) (world : World σ ι) : Prop where
  atomic : world.Atomic
  exclusive : world.Exclusive
  alone : ∀ p q, (world.phase p).UnderWay → (world.phase q).UnderWay → p = q
  started : ∀ entry ∈ world.executed, world.phase entry.1 ≠ .start
  replayed : ∀ p migration rest before times stage,
    world.phase p = .applying migration rest before times stage →
      replay sqlite (migration.script.zip times) before = some world.disk ∧
        stage.Fits migration times
  ahead : ∀ p migration rest before times stage,
    world.phase p = .applying migration rest before times stage →
      ∀ entry ∈ world.executed, entry.1 ≠ p → ∀ m ∈ migration :: rest, m.version ≠ entry.2

-- What a step of p does, to everybody else's phase nothing.
structure Moves (world next : World σ ι) (p : ι) (phase : Phase σ) : Prop where
  self : next.phase p = phase
  others : ∀ q, q ≠ p → next.phase q = world.phase q

theorem moves_update {phase : Phase σ} (h : next.phase = Function.update world.phase p phase) :
    Moves world next p phase := by
  refine ⟨?_, fun q hq => ?_⟩
  · rw [h, Function.update_self]
  · rw [h, Function.update_of_ne hq]

-- p ends, and the database and the history stay.
theorem Inv.ended {phase : Phase σ} (h : Inv sqlite world) (hm : Moves world next p phase)
    (hdisk : ∀ q, q ≠ p → (world.phase q).UnderWay → next.disk = world.disk)
    (hexecuted : next.executed = world.executed) (hphase : ¬ phase.UnderWay)
    (hstart : phase ≠ .start)
    (hfailed : ∀ version before left, phase = .failed version before left → left = before) :
    Inv sqlite next := by
  have hother : ∀ q, (next.phase q).UnderWay → q ≠ p ∧ next.phase q = world.phase q := by
    intro q hq
    by_cases he : q = p
    · rw [he, hm.self] at hq
      exact absurd hq hphase
    · exact ⟨he, hm.others q he⟩
  refine ⟨?_, ?_, ?_, ?_, ?_, ?_⟩
  · intro q version before left hq
    by_cases he : q = p
    · rw [he, hm.self] at hq
      exact hfailed version before left hq
    · rw [hm.others q he] at hq
      exact h.atomic q version before left hq
  · intro q r version hq hr
    rw [hexecuted] at hq hr
    exact h.exclusive q r version hq hr
  · intro q r hq hr
    have hqp := (hother q hq).2 ▸ hq
    have hrp := (hother r hr).2 ▸ hr
    exact h.alone q r hqp hrp
  · intro entry hentry
    rw [hexecuted] at hentry
    by_cases he : entry.1 = p
    · rw [he, hm.self]
      exact hstart
    · rw [hm.others _ he]
      exact h.started entry hentry
  · intro q migration rest before times stage hq
    obtain ⟨hne, hold⟩ := hother q (by rw [hq]; trivial)
    rw [hold] at hq
    rw [hdisk q hne (by rw [hq]; trivial)]
    exact h.replayed q migration rest before times stage hq
  · intro q migration rest before times stage hq entry hentry
    have hold := (hother q (by rw [hq]; trivial)).2
    rw [hold] at hq
    rw [hexecuted] at hentry
    exact h.ahead q migration rest before times stage hq entry hentry

-- p is the one that is under way.
theorem Inv.advanced {migration : Migration} {rest : List Migration} {before : σ}
    {times : List ℚ} {stage : Stage σ} (h : Inv sqlite world)
    (hm : Moves world next p (.applying migration rest before times stage))
    (halone : ∀ q, q ≠ p → ¬ (world.phase q).UnderWay)
    (hreplayed : replay sqlite (migration.script.zip times) before = some next.disk)
    (hfits : stage.Fits migration times)
    (hexecuted : ∀ entry ∈ next.executed,
      entry ∈ world.executed ∨ entry = (p, migration.version))
    (hahead : ∀ entry ∈ world.executed, entry.1 ≠ p →
      ∀ m ∈ migration :: rest, m.version ≠ entry.2) :
    Inv sqlite next := by
  have hself : ∀ q, (next.phase q).UnderWay → q = p := by
    intro q hq
    by_contra he
    rw [hm.others q he] at hq
    exact halone q he hq
  have hnew : ∀ entry ∈ next.executed, entry.1 ≠ p → entry ∈ world.executed := by
    intro entry hentry hne
    refine (hexecuted entry hentry).resolve_right fun he => hne ?_
    rw [he]
  refine ⟨?_, ?_, ?_, ?_, ?_, ?_⟩
  · intro q version b left hq
    by_cases he : q = p
    · rw [he, hm.self] at hq
      cases hq
    · rw [hm.others q he] at hq
      exact h.atomic q version b left hq
  · -- an entry of another run has a version that p is not at
    have hmixed : ∀ q version, (q, version) ∈ world.executed → version = migration.version →
        q = p := by
      intro q version hq he
      by_contra hne
      exact hahead (q, version) hq hne migration List.mem_cons_self he.symm
    intro q r version hq hr
    cases hexecuted _ hq with
    | inl hqold =>
        cases hexecuted _ hr with
        | inl hrold => exact h.exclusive q r version hqold hrold
        | inr hrnew =>
            cases hrnew
            exact hmixed q _ hqold rfl
    | inr hqnew =>
        cases hqnew
        cases hexecuted _ hr with
        | inl hrold => exact (hmixed r _ hrold rfl).symm
        | inr hrnew =>
            cases hrnew
            rfl
  · intro q r hq hr
    rw [hself q hq, hself r hr]
  · intro entry hentry
    by_cases he : entry.1 = p
    · rw [he, hm.self]
      exact fun hstart => nomatch hstart
    · rw [hm.others _ he]
      exact h.started entry (hnew entry hentry he)
  · intro q m r b t s hq
    have he := hself q (by rw [hq]; trivial)
    rw [he, hm.self] at hq
    cases hq
    exact ⟨hreplayed, hfits⟩
  · intro q m r b t s hq entry hentry hne
    have he := hself q (by rw [hq]; trivial)
    rw [he, hm.self] at hq
    cases hq
    rw [he] at hne
    exact hahead entry (hnew entry hentry hne) hne

theorem not_mem_of_pending {applied : List Nat} {migration : Migration}
    (h : migration ∈ pending applied) : migration.version ∉ applied := by
  have hmem := (List.mem_insertionSort _).mp h
  simpa using (List.mem_filter.mp hmem).2

theorem zip_script {done statements : List String} {sql : String} {times : List ℚ} (now : ℚ)
    (hlength : done.length = times.length) :
    (done ++ sql :: statements).zip (times ++ [now]) =
      (done ++ sql :: statements).zip times ++ [(sql, now)] := by
  have hshort : (done ++ sql :: statements).zip (times ++ []) =
      done.zip times ++ (sql :: statements).zip [] := List.zip_append hlength
  rw [List.append_nil, List.zip_nil_right, List.append_nil] at hshort
  rw [List.zip_append hlength, hshort]
  simp

section Steps

variable {migration : Migration} {rest : List Migration} {before : σ} {times : List ℚ}
  {stage : Stage σ}

omit [DecidableEq ι] in
theorem Inv.others (h : Inv sqlite world)
    (hp : world.phase p = .applying migration rest before times stage) (q : ι) (hq : q ≠ p) :
    ¬ (world.phase q).UnderWay :=
  fun hunder => hq (h.alone q p hunder (by rw [hp]; trivial))

theorem Inv.begin {raised : Bool} (h : Inv sqlite world)
    (hguard : Guarded sqlite world (.begin p raised))
    (hstep : step sqlite world (.begin p raised) = some next) : Inv sqlite next := by
  simp only [step] at hstep
  split at hstep
  case h_2 => cases hstep
  case h_1 hp =>
    split at hstep
    case isFalse => cases hstep
    case isTrue =>
      split at hstep
      case h_1 =>
        cases hstep
        exact h.ended (moves_update rfl) (fun _ _ _ => rfl) rfl (fun hu => hu)
          (fun he => nomatch he) (fun _ _ _ he => nomatch he)
      case h_2 migration rest hpending =>
        cases hstep
        refine h.advanced (moves_update rfl) (fun q _ => hguard.1 q) (replay_none _ _) rfl
          (fun entry hentry => .inl hentry) ?_
        intro entry hentry _ m hm he
        rw [← hpending] at hm
        exact not_mem_of_pending hm (he ▸ hguard.2 entry hentry)

theorem Inv.enterScript (h : Inv sqlite world)
    (hstep : step sqlite world (.enterScript p) = some next) : Inv sqlite next := by
  simp only [step] at hstep
  split at hstep
  case h_2 => cases hstep
  case h_1 migration rest before times hp =>
    split at hstep
    case isTrue => cases hstep
    case isFalse =>
      cases hstep
      obtain ⟨hreplayed, hfits⟩ := h.replayed p _ _ _ _ _ hp
      cases (hfits : times = [])
      exact h.advanced (moves_update rfl) (h.others hp) hreplayed ⟨[], rfl, rfl⟩
        (fun entry hentry => .inl hentry) (h.ahead p _ _ _ _ _ hp)

theorem Inv.statement {now : ℚ} (h : Inv sqlite world)
    (hstep : step sqlite world (.statement p now) = some next) : Inv sqlite next := by
  simp only [step] at hstep
  split at hstep
  case h_2 => cases hstep
  case h_1 migration rest before times sql statements hp =>
    split at hstep
    case isFalse => cases hstep
    case isTrue =>
      obtain ⟨disk, hexec, rfl⟩ := Option.map_eq_some_iff.mp hstep
      obtain ⟨hreplayed, done, hscript, hlength⟩ := h.replayed p _ _ _ _ _ hp
      refine h.advanced (moves_update rfl) (h.others hp) ?_ ⟨done ++ [sql], ?_, ?_⟩ ?_
        (h.ahead p _ _ _ _ _ hp)
      · rw [hscript] at hreplayed ⊢
        rw [zip_script now hlength, replay_append, hreplayed]
        simp [replay, hexec]
      · rw [hscript]
        simp
      · simp [hlength]
      · intro entry hentry
        exact (List.mem_cons.mp hentry).symm

theorem Inv.record {now : ℚ} (h : Inv sqlite world)
    (hstep : step sqlite world (.record p now) = some next) : Inv sqlite next := by
  simp only [step] at hstep
  split at hstep
  case h_2 => cases hstep
  case h_1 migration rest before times stage hp =>
    split at hstep
    case isFalse => cases hstep
    case isTrue =>
      obtain ⟨written, -, rfl⟩ := Option.map_eq_some_iff.mp hstep
      exact h.advanced (moves_update rfl) (h.others hp) (h.replayed p _ _ _ _ _ hp).1 trivial
        (fun entry hentry => .inl hentry) (h.ahead p _ _ _ _ _ hp)

theorem Inv.commit (h : Inv sqlite world)
    (hstep : step sqlite world (.commit p) = some next) : Inv sqlite next := by
  simp only [step] at hstep
  split at hstep
  case h_2 => cases hstep
  case h_1 migration rest before times written hp =>
    cases hstep
    cases rest with
    | nil =>
        exact h.ended (moves_update rfl) (fun q hq hunder => absurd hunder (h.others hp q hq)) rfl
          (fun hu => hu) (fun he => nomatch he) (fun _ _ _ he => nomatch he)
    | cons following rest =>
        refine h.advanced (moves_update rfl) (h.others hp) (replay_none _ _) rfl
          (fun entry hentry => .inl hentry) ?_
        intro entry hentry hne m hm
        exact h.ahead p _ _ _ _ _ hp entry hentry hne m (List.mem_cons_of_mem migration hm)

theorem Inv.fail (h : Inv sqlite world) (hguard : Guarded sqlite world (.fail p))
    (hstep : step sqlite world (.fail p) = some next) : Inv sqlite next := by
  simp only [step] at hstep
  split at hstep
  case h_2 => cases hstep
  case h_1 migration rest before times stage hp =>
    cases hstep
    have hdisk := (h.replayed p _ _ _ _ _ hp).1
    simp only [Guarded, hp] at hguard
    rw [hguard] at hdisk
    refine h.ended (moves_update rfl) (fun _ _ _ => rfl) rfl (fun hu => hu) (fun he => by cases he) ?_
    intro version b left he
    cases he
    exact (Option.some.inj hdisk).symm

end Steps

theorem Inv.step {event : Event ι} (h : Inv sqlite world) (hguard : Guarded sqlite world event)
    (hstep : step sqlite world event = some next) : Inv sqlite next := by
  cases event with
  | begin p raised => exact h.begin hguard hstep
  | refuse p =>
      simp only [Migrations.step] at hstep
      split at hstep
      · cases hstep
        exact h.ended (moves_update rfl) (fun _ _ _ => rfl) rfl (fun hu => hu)
          (fun he => nomatch he) (fun _ _ _ he => nomatch he)
      · cases hstep
  | enterScript p => exact h.enterScript hstep
  | statement p now => exact h.statement hstep
  | record p now => exact h.record hstep
  | commit p => exact h.commit hstep
  | fail p => exact h.fail hguard hstep

omit [DecidableEq ι] in
theorem inv_init (sqlite : Sqlite σ) (db : σ) : Inv sqlite (World.init db : World σ ι) where
  atomic _ _ _ _ he := nomatch he
  exclusive _ _ _ hq := nomatch hq
  alone _ _ hu := hu.elim
  started _ hentry := nomatch hentry
  replayed _ _ _ _ _ _ he := nomatch he
  ahead _ _ _ _ _ _ he := nomatch he

-- Migrations are atomic and no two runs share one, for as long as each run has the database for
-- itself and fails only where its script has changed nothing yet.
theorem atomic_exclusive_of_guarded (sqlite : Sqlite σ) (db : σ) (events : List (Event ι))
    (hguard : Along (step sqlite) (Guarded sqlite) (World.init db) events) :
    Always (step sqlite) (fun world => world.Atomic ∧ world.Exclusive) (World.init db) events :=
  hguard.always (Inv sqlite) (fun _ _ _ h hg hstep => h.step hg hstep)
    (fun _ h => ⟨h.atomic, h.exclusive⟩) (inv_init sqlite db)

-- No statement of a script fails after another one of it has gone through.
def Prompt (sqlite : Sqlite σ) (world : World σ ι) : Event ι → Prop
  | .begin _ raised => world.Alone sqlite raised
  | .fail p =>
      match world.phase p with
      | .applying _ _ _ times _ => times = []
      | _ => True
  | _ => True

omit [DecidableEq ι] in
theorem Prompt.guarded {event : Event ι} (h : Prompt sqlite world event) :
    Guarded sqlite world event := by
  cases event with
  | begin p raised => exact h
  | fail p =>
      cases hphase : world.phase p with
      | applying migration rest before times stage =>
          simp only [Prompt, hphase] at h
          simp only [Guarded, hphase, h]
          exact replay_none _ _
      | _ => simp only [Guarded, hphase]
  | _ => trivial

theorem atomic_exclusive_of_prompt (sqlite : Sqlite σ) (db : σ) (events : List (Event ι))
    (hprompt : Along (step sqlite) (Prompt sqlite) (World.init db) events) :
    Always (step sqlite) (fun world => world.Atomic ∧ world.Exclusive) (World.init db) events :=
  hprompt.always (Inv sqlite) (fun _ _ _ h hp hstep => h.step hp.guarded hstep)
    (fun _ h => ⟨h.atomic, h.exclusive⟩) (inv_init sqlite db)

-- A database of a release before migration 3: what has been added to it since, besides rows.
structure Schema where
  columns : List String := []
  objects : List String := []
  applied : List Nat
deriving DecidableEq

namespace Schema

-- CREATE ... IF NOT EXISTS
def create (name : String) (db : Schema) : Schema :=
  if name ∈ db.objects then db else { db with objects := db.objects ++ [name] }

-- A duplicate column name raises.
def addColumn (name : String) (db : Schema) : Option Schema :=
  if name ∈ db.columns then none else some { db with columns := db.columns ++ [name] }

end Schema

-- The first statement of migration 3 and the script of migration 4.
def older : Sqlite Schema where
  exec sql _ db :=
    if migration3[0]? = some sql then some (db.create "evolution_runs_new")
    else if migration4[0]? = some sql then db.addColumn "namespace"
    else if migration4[1]? = some sql then db.addColumn "topic_tag"
    else if migration4[2]? = some sql ∧ "namespace" ∈ db.columns ∧ "topic_tag" ∈ db.columns then
      some (db.create "idx_shared_ns_topic")
    else none
  versions db := some db.applied
  record version _ _ db :=
    some { db with
      applied := if version ∈ db.applied then db.applied else db.applied ++ [version] }

-- The run that has the database for itself, and the one that comes after it.
theorem atomic_exclusive_in_turn :
    Always (step older) (fun world => world.Atomic ∧ world.Exclusive)
      (World.init { applied := [1, 2, 3] })
      ([.begin false false, .enterScript false] ++ List.replicate 3 (.statement false 0) ++
        [.record false 0, .commit false, .begin true false]) :=
  atomic_exclusive_of_guarded older { applied := [1, 2, 3] } _ (by decide +kernel)

def twoRuns : List (Event Bool) :=
  [.begin false false, .enterScript false, .statement false 0, .begin true false,
    .enterScript true, .statement true 0, .fail false]

-- The second run enters between two statements of the first, which then fails. The copy that the
-- first has begun is left behind.
theorem half_migrated :
    ∃ final, run (step older) (World.init { applied := [1, 2] }) twoRuns = some final ∧
      ¬ final.Atomic ∧ ¬ final.Exclusive := by
  have hphase : (run (step older) (World.init { applied := [1, 2] }) twoRuns).map
      (fun world => (world.phase false, world.executed)) =
        some (.failed 3 { applied := [1, 2] }
          { objects := ["evolution_runs_new"], applied := [1, 2] }, [(true, 3), (false, 3)]) := by
    decide +kernel
  obtain ⟨final, hrun, hfinal⟩ := Option.map_eq_some_iff.mp hphase
  obtain ⟨hfailed, hexecuted⟩ := Prod.mk.inj hfinal
  refine ⟨final, hrun, fun h => ?_, fun h => ?_⟩
  · have heq := h false 3 _ _ hfailed
    exact absurd heq (by decide)
  · have heq := h true false 3 (by simp [hexecuted]) (by simp [hexecuted])
    cases heq

end EvoClaw.Migrations
