import Mathlib.Algebra.Order.Ring.Rat
import Mathlib.Data.List.Sort
import Mathlib.Data.Rat.Defs
import Mathlib.Logic.Function.Basic

namespace EvoClaw.Migrations

-- sql is the list of the script's statements, each without its layout and comments.
structure Migration where
  version : Nat
  description : String
  sql : Option (List String)
deriving DecidableEq

def migration2 : List String :=
  [ "CREATE INDEX IF NOT EXISTS idx_immune_sender_hash ON immune_threats(sender_jid, " ++
      "pattern_hash);",
    "CREATE INDEX IF NOT EXISTS idx_task_run_logs_task_id ON task_run_logs(task_id);",
    "CREATE INDEX IF NOT EXISTS idx_container_logs_status ON container_logs(status);",
    "CREATE INDEX IF NOT EXISTS idx_dev_sessions_status ON dev_sessions(status);" ]

def migration3 : List String :=
  [ "CREATE TABLE IF NOT EXISTS evolution_runs_new ( id INTEGER PRIMARY KEY " ++
      "AUTOINCREMENT, jid TEXT NOT NULL, run_id TEXT NOT NULL, response_ms INTEGER, " ++
      "retry_count INTEGER NOT NULL DEFAULT 0, success INTEGER NOT NULL DEFAULT 0, " ++
      "timestamp TEXT DEFAULT (datetime('now')), UNIQUE(jid, run_id) );",
    "INSERT OR IGNORE INTO evolution_runs_new (id, jid, run_id, response_ms, retry_count, " ++
      "success, timestamp) SELECT id, jid, run_id, response_ms, COALESCE(retry_count, 0), " ++
      "COALESCE(success, 0), COALESCE(timestamp, datetime('now')) FROM evolution_runs;",
    "DROP TABLE evolution_runs;",
    "ALTER TABLE evolution_runs_new RENAME TO evolution_runs;",
    "CREATE INDEX IF NOT EXISTS idx_evolution_jid_ts ON evolution_runs(jid, timestamp);",
    "CREATE TABLE IF NOT EXISTS container_logs_new ( id INTEGER PRIMARY KEY " ++
      "AUTOINCREMENT, run_id TEXT NOT NULL UNIQUE, jid TEXT NOT NULL, folder TEXT NOT NULL " ++
      "DEFAULT '', container_name TEXT NOT NULL DEFAULT '', started_at REAL NOT NULL, " ++
      "finished_at REAL, status TEXT NOT NULL DEFAULT 'running', stderr TEXT, " ++
      "stdout_preview TEXT, response_ms INTEGER );",
    "INSERT OR IGNORE INTO container_logs_new (id, run_id, jid, folder, container_name, " ++
      "started_at, finished_at, status, stderr, stdout_preview, response_ms) SELECT id, " ++
      "run_id, jid, folder, container_name, started_at, finished_at, status, stderr, " ++
      "stdout_preview, response_ms FROM container_logs;",
    "DROP TABLE container_logs;",
    "ALTER TABLE container_logs_new RENAME TO container_logs;",
    "CREATE INDEX IF NOT EXISTS idx_container_logs_jid ON container_logs(jid, started_at " ++
      "DESC);",
    "CREATE INDEX IF NOT EXISTS idx_container_logs_run_id ON container_logs(run_id);",
    "CREATE INDEX IF NOT EXISTS idx_container_logs_status ON container_logs(status);",
    "CREATE TABLE IF NOT EXISTS registered_groups_new ( jid TEXT PRIMARY KEY, name TEXT " ++
      "NOT NULL, folder TEXT NOT NULL UNIQUE, trigger_pattern TEXT, added_at INTEGER NOT " ++
      "NULL, container_config TEXT, requires_trigger INTEGER NOT NULL DEFAULT 1, is_main " ++
      "INTEGER NOT NULL DEFAULT 0 );",
    "INSERT OR IGNORE INTO registered_groups_new (jid, name, folder, trigger_pattern, " ++
      "added_at, container_config, requires_trigger, is_main) SELECT jid, name, folder, " ++
      "trigger_pattern, added_at, container_config, COALESCE(requires_trigger, 1), " ++
      "COALESCE(is_main, 0) FROM registered_groups;",
    "DROP TABLE registered_groups;",
    "ALTER TABLE registered_groups_new RENAME TO registered_groups;",
    "UPDATE group_genome SET formality = MAX(0.0, MIN(1.0, COALESCE(formality, 0.5)));",
    "UPDATE group_genome SET technical_depth = MAX(0.0, MIN(1.0, " ++
      "COALESCE(technical_depth, 0.5)));",
    "CREATE TABLE IF NOT EXISTS group_genome_new ( jid TEXT PRIMARY KEY, response_style " ++
      "TEXT NOT NULL DEFAULT 'balanced', formality REAL NOT NULL DEFAULT 0.5 " ++
      "CHECK(formality >= 0.0 AND formality <= 1.0), technical_depth REAL NOT NULL DEFAULT " ++
      "0.5 CHECK(technical_depth >= 0.0 AND technical_depth <= 1.0), generation INTEGER NOT " ++
      "NULL DEFAULT 0, updated_at TEXT NOT NULL DEFAULT (datetime('now')) );",
    "INSERT OR IGNORE INTO group_genome_new (jid, response_style, formality, " ++
      "technical_depth, generation, updated_at) SELECT jid, COALESCE(response_style, " ++
      "'balanced'), COALESCE(formality, 0.5), COALESCE(technical_depth, 0.5), " ++
      "COALESCE(generation, 0), COALESCE(updated_at, datetime('now')) FROM group_genome;",
    "DROP TABLE group_genome;",
    "ALTER TABLE group_genome_new RENAME TO group_genome;",
    "UPDATE task_run_logs SET status = 'unknown' WHERE status IS NULL;",
    "CREATE TABLE IF NOT EXISTS task_run_logs_new ( id INTEGER PRIMARY KEY AUTOINCREMENT, " ++
      "task_id TEXT NOT NULL, run_at INTEGER NOT NULL, duration_ms INTEGER, status TEXT NOT " ++
      "NULL DEFAULT 'unknown', result TEXT, error TEXT );",
    "INSERT OR IGNORE INTO task_run_logs_new (id, task_id, run_at, duration_ms, status, " ++
      "result, error) SELECT id, task_id, run_at, duration_ms, COALESCE(status, 'unknown'), " ++
      "result, error FROM task_run_logs;",
    "DROP TABLE task_run_logs;",
    "ALTER TABLE task_run_logs_new RENAME TO task_run_logs;",
    "CREATE INDEX IF NOT EXISTS idx_task_run_logs_task_id ON task_run_logs(task_id);",
    "UPDATE rbac_grants SET granted_at = unixepoch() WHERE granted_at IS NULL;",
    "CREATE TRIGGER IF NOT EXISTS cold_memory_ai AFTER INSERT ON group_cold_memory BEGIN " ++
      "INSERT INTO group_cold_memory_fts(rowid, jid, title, content, tags) VALUES(new.id, " ++
      "new.jid, new.title, new.content, new.tags); END;",
    "CREATE TRIGGER IF NOT EXISTS cold_memory_ad AFTER DELETE ON group_cold_memory BEGIN " ++
      "INSERT INTO group_cold_memory_fts(group_cold_memory_fts, rowid, jid, title, content, " ++
      "tags) VALUES('delete', old.id, old.jid, old.title, old.content, old.tags); END;",
    "CREATE TRIGGER IF NOT EXISTS warm_logs_ad AFTER DELETE ON group_warm_logs BEGIN " ++
      "INSERT INTO group_warm_logs_fts(group_warm_logs_fts, rowid, jid, log_date, content) " ++
      "VALUES('delete', old.id, old.jid, old.log_date, old.content); END;" ]

def migration4 : List String :=
  [ "ALTER TABLE shared_memories ADD COLUMN namespace TEXT NOT NULL DEFAULT '';",
    "ALTER TABLE shared_memories ADD COLUMN topic_tag TEXT NOT NULL DEFAULT '';",
    "CREATE INDEX IF NOT EXISTS idx_shared_ns_topic ON shared_memories(namespace, " ++
      "topic_tag);" ]

def MIGRATIONS : List Migration :=
  [ { version := 1
      description := "Baseline schema — created by init_database()"
      sql := none },
    { version := 2
      description :=
        "Add schema_migrations, UNIQUE(sender_jid, pattern_hash) on immune_threats, " ++
          "idx_immune_sender_hash, idx_task_run_logs_task_id, idx_container_logs_status, " ++
          "idx_dev_sessions_status"
      sql := some migration2 },
    { version := 3
      description :=
        "p19c schema integrity fixes: UNIQUE(jid,run_id) on evolution_runs (BUG-19C-02), " ++
          "UNIQUE(run_id) on container_logs (BUG-19C-04), UNIQUE(folder) on registered_groups " ++
          "(BUG-19C-03), CHECK constraints on group_genome formality/technical_depth " ++
          "(BUG-19C-05), NOT NULL on task_run_logs.status (BUG-19C-06), NOT NULL DEFAULT 0 on " ++
          "evolution_runs.success (BUG-19C-01), back-fill NULL granted_at in rbac_grants " ++
          "(BUG-19C-07), cold_memory INSERT/DELETE FTS triggers (BUG-19C-12), warm_logs DELETE " ++
          "FTS trigger (BUG-19C-12)"
      sql := some migration3 },
    { version := 4
      description :=
        "Add namespace and topic_tag columns to shared_memories for PalaceStore (#495)"
      sql := some migration4 } ]

-- What SQLite makes of a statement on a database of type σ at a time of the clock. A statement
-- that raises has no result.
structure Sqlite (σ : Type*) where
  exec : String → ℚ → σ → Option σ
  -- SELECT version FROM schema_migrations
  versions : σ → Option (List Nat)
  -- INSERT OR IGNORE INTO schema_migrations(version, description)
  record : Nat → String → ℚ → σ → Option σ

variable {σ ι : Type*} [DecidableEq ι] (sqlite : Sqlite σ)

-- A SELECT that raises OperationalError reads as no version at all.
def _get_applied_versions (raised : Bool) (db : σ) : List Nat :=
  if raised then [] else (sqlite.versions db).getD []

def pending (applied : List Nat) : List Migration :=
  (MIGRATIONS.filter fun migration => migration.version ∉ applied).insertionSort
    fun a b => a.version ≤ b.version

-- if sql:
def Migration.script (migration : Migration) : List String := migration.sql.getD []

inductive Stage (σ : Type*)
  | loop
  -- in executescript, with the statements that are left
  | script (statements : List String)
  -- _record_migration has begun a transaction: what it wrote is not yet committed
  | recorded (written : σ)
deriving DecidableEq

-- Where a process stands in main, after init_database. `before` is the database as it was when
-- the process last committed, or took its lock; `times` are the moments at which statements of
-- the script have gone through.
inductive Phase (σ : Type*)
  | start
  | refused
  | applying (migration : Migration) (rest : List Migration) (before : σ) (times : List ℚ)
      (stage : Stage σ)
  | failed (version : Nat) (before left : σ)
  | finished
deriving DecidableEq

-- `owner` has a write transaction open. `executed` is the history of who ran a statement of
-- which migration.
structure World (σ ι : Type*) where
  disk : σ
  owner : Option ι
  phase : ι → Phase σ
  executed : List (ι × Nat)

def World.set (world : World σ ι) (p : ι) (phase : Phase σ) : World σ ι :=
  { world with phase := Function.update world.phase p phase }

-- No other connection has a write transaction open: else the statement waits.
def World.free (world : World σ ι) (p : ι) : Prop :=
  ∀ other, world.owner = some other → other = p

instance (world : World σ ι) (p : ι) : Decidable (world.free p) :=
  match h : world.owner with
  | none => isTrue fun _ he => nomatch h.symm.trans he
  | some owner =>
      decidable_of_iff (owner = p)
        ⟨fun hp _ he => (Option.some.inj (h.symm.trans he)) ▸ hp, fun hall => hall owner h⟩

def World.release (world : World σ ι) (p : ι) : World σ ι :=
  { world with owner := if world.owner = some p then none else world.owner }

inductive Event (ι : Type*)
  -- BEGIN EXCLUSIVE and the SELECT, which may raise
  | begin (p : ι) (raised : Bool)
  | refuse (p : ι)
  -- the COMMIT that executescript opens with
  | enterScript (p : ι)
  | statement (p : ι) (now : ℚ)
  | record (p : ι) (now : ℚ)
  | commit (p : ι)
  -- whatever the process is at raises, a wait for the lock that is given up included
  | fail (p : ι)

def Phase.loop (before : σ) : List Migration → Phase σ
  | [] => .finished
  | migration :: rest => .applying migration rest before [] .loop

-- Nothing of the migration's script is left to run.
def Stage.scriptDone (migration : Migration) : Stage σ → Prop
  | .loop => migration.script = []
  | .script statements => statements = []
  | .recorded _ => False

instance (migration : Migration) : ∀ stage : Stage σ, Decidable (stage.scriptDone migration)
  | .loop => inferInstanceAs (Decidable (migration.script = []))
  | .script statements => inferInstanceAs (Decidable (statements = []))
  | .recorded _ => inferInstanceAs (Decidable False)

def step (world : World σ ι) : Event ι → Option (World σ ι)
  | .begin p raised =>
      match world.phase p with
      | .start =>
          if world.owner = none then
            match pending (_get_applied_versions sqlite raised world.disk) with
            | [] => some (world.set p .finished)
            | migration :: rest =>
                some { world.set p (.loop world.disk (migration :: rest)) with owner := some p }
          else none
      | _ => none
  | .refuse p =>
      match world.phase p with
      | .start => some (world.set p .refused)
      | _ => none
  | .enterScript p =>
      match world.phase p with
      | .applying migration rest before times .loop =>
          if migration.script = [] then none
          else
            some ((world.release p).set p
              (.applying migration rest before times (.script migration.script)))
      | _ => none
  | .statement p now =>
      match world.phase p with
      | .applying migration rest before times (.script (sql :: statements)) =>
          if world.free p then
            (sqlite.exec sql now world.disk).map fun disk =>
              { world.set p
                  (.applying migration rest before (times ++ [now]) (.script statements)) with
                disk := disk
                executed := (p, migration.version) :: world.executed }
          else none
      | _ => none
  | .record p now =>
      match world.phase p with
      | .applying migration rest before times stage =>
          if stage.scriptDone migration ∧ world.free p then
            (sqlite.record migration.version migration.description now world.disk).map
              fun written =>
                { world.set p (.applying migration rest before times (.recorded written)) with
                  owner := some p }
          else none
      | _ => none
  | .commit p =>
      match world.phase p with
      | .applying _ rest _ _ (.recorded written) =>
          some { (world.release p).set p (.loop written rest) with disk := written }
      | _ => none
  -- rollback and sys.exit(1): only the transaction that is open is rolled back
  | .fail p =>
      match world.phase p with
      | .applying migration _ before _ _ =>
          some ((world.release p).set p (.failed migration.version before world.disk))
      | _ => none

-- Every process is still to come.
def World.init (db : σ) : World σ ι where
  disk := db
  owner := none
  phase := fun _ => .start
  executed := []

end EvoClaw.Migrations
