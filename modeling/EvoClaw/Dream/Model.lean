import EvoClaw.Dream.HotMemory

-- DreamScheduler on the event loop: a dream suspends while it waits for its lock and while it
-- waits for the model, and everything else happens at once.
namespace EvoClaw.Dream

open ContainerRunner (byteLength)

def MIN_MEMORY_BYTES : Nat := 200

def DREAM_COOLDOWN : ℚ := 3600

-- The checks of run_dream_pass on what the model returned, which is none where the call raised.
def runDreamPass (current_memory : List Char) (result : Option (List Char)) : List Char :=
  match result with
  | none => current_memory
  | some result =>
      let consolidated := strip result
      if consolidated = [] then current_memory
      else if byteLength consolidated < 20 then current_memory
      else if 3 * byteLength current_memory < 2 * byteLength consolidated then current_memory
      else consolidated

def shouldDream (now last_active_ts : ℚ) (idle_minutes : ℤ) : Bool :=
  0 < last_active_ts ∧ idle_minutes ≤ (now - last_active_ts) / 60

-- Whether host/memory/memory_compress.py is there, from which run_dream_pass imports what calls
-- the model.
def MEMORY_COMPRESS : Bool := false

structure Settings where
  enabled : Bool
  idleMinutes : ℤ
  lower : List Char → List Char

-- asyncio.Lock: a lock that is released is left to the first of its waiters.
structure Lock where
  locked : Bool
  waiters : List Nat

-- Where a task of _run_dream stands.
inductive Phase
  | created
  | waiting (lock : Nat)
  | consolidating (lock : Nat) (current_memory : List Char)

structure Task where
  id : Nat
  jid : String
  phase : Phase

-- The stored memories, the tables of the scheduler, the lock objects, and the tasks of
-- _run_dream that have not ended. A missing key and a missing memory read as their defaults.
structure Scheduler where
  hot : String → List Char
  lastActive : List (String × ℚ)
  dreaming : String → Bool
  lastDream : String → ℚ
  hotLocks : String → Option Nat
  locks : List Lock
  tasks : List Task
  created : Nat

def Scheduler.started (hot : String → List Char) : Scheduler where
  hot
  lastActive := []
  dreaming _ := false
  lastDream _ := 0
  hotLocks _ := none
  locks := []
  tasks := []
  created := 0

-- How a task that has its lock comes to wait for the model, or why it does not. `unreadable`
-- is a database error, and `raised` whatever else raises before the call is made.
inductive Entry
  | unreadable
  | noKey
  | raised
  | calls
deriving DecidableEq

inductive Event
  | touch (jid : String) (now : ℚ)
  | tick (now : ℚ)
  -- a created task runs for the first time, a waiter that its lock is left to goes on
  | start (id : Nat) (entry : Entry) (now : ℚ)
  | acquire (id : Nat) (entry : Entry) (now : ℚ)
  -- the call of the model returns or raises; `stored` says whether the database takes a result
  | answer (id : Nat) (result : Option (List Char)) (stored : Bool) (now : ℚ)
  -- another writer, and whether the database takes what it stores
  | write (jid : String) (writer : Writer) (stored : Bool)
  | removeGroup (jid : String)

namespace Scheduler

def setLastActive (jid : String) (now : ℚ) : List (String × ℚ) → List (String × ℚ)
  | [] => [(jid, now)]
  | (key, ts) :: rest =>
      if key = jid then (key, now) :: rest else (key, ts) :: setLastActive jid now rest

def touch (state : Scheduler) (jid : String) (now : ℚ) : Scheduler :=
  { state with lastActive := setLastActive jid now state.lastActive }

-- One round of tick: asyncio.create_task only schedules the task.
def tickGroup (settings : Settings) (now : ℚ) (state : Scheduler) (entry : String × ℚ) :
    Scheduler :=
  if state.dreaming entry.1 then state
  else if now - state.lastDream entry.1 < DREAM_COOLDOWN then state
  else if shouldDream now entry.2 settings.idleMinutes then
    { state with
      dreaming := Function.update state.dreaming entry.1 true
      tasks := state.tasks ++ [⟨state.created, entry.1, .created⟩]
      created := state.created + 1 }
  else state

def tick (settings : Settings) (now : ℚ) (state : Scheduler) : Scheduler :=
  if settings.enabled then state.lastActive.foldl (tickGroup settings now) state else state

def setPhase (state : Scheduler) (id : Nat) (phase : Phase) : Scheduler :=
  { state with
    tasks := state.tasks.map fun task => if task.id = id then { task with phase } else task }

def setLock (state : Scheduler) (lock : Nat) (value : Lock) : Scheduler :=
  { state with locks := state.locks.set lock value }

-- get_hot_lock: setdefault with a new lock object
def getHotLock (state : Scheduler) (jid : String) : Scheduler × Nat :=
  match state.hotLocks jid with
  | some lock => (state, lock)
  | none =>
      ({ state with
        hotLocks := Function.update state.hotLocks jid (some state.locks.length)
        locks := state.locks ++ [⟨false, []⟩] }, state.locks.length)

-- finally: self._dreaming[jid] = False
def finish (state : Scheduler) (task : Task) : Scheduler :=
  { state with
    dreaming := Function.update state.dreaming task.jid false
    tasks := state.tasks.filter (·.id ≠ task.id) }

def noteDream (state : Scheduler) (jid : String) (now : ℚ) : Scheduler :=
  { state with lastDream := Function.update state.lastDream jid now }

def release (state : Scheduler) (lock : Nat) : Scheduler :=
  match state.locks[lock]? with
  | some value => state.setLock lock { value with locked := false }
  | none => state

-- The body of `async with` up to the call of the model. An import that fails raises there.
def enter (memoryCompress : Bool) (state : Scheduler) (task : Task) (lock : Nat) (entry : Entry)
    (now : ℚ) : Scheduler :=
  let current_memory := state.hot task.jid
  if entry = .unreadable then (state.release lock).finish task
  else if byteLength current_memory < MIN_MEMORY_BYTES then (state.release lock).finish task
  else if strip current_memory = [] ∨ entry = .noKey then
    ((state.release lock).noteDream task.jid now).finish task
  else if memoryCompress = false ∨ entry = .raised then (state.release lock).finish task
  else state.setPhase task.id (.consolidating lock current_memory)

-- Lock.acquire: at once when nobody holds the lock or waits for it
def start (memoryCompress : Bool) (state : Scheduler) (task : Task) (entry : Entry) (now : ℚ) :
    Scheduler :=
  let (state, lock) := state.getHotLock task.jid
  match state.locks[lock]? with
  | some ⟨false, []⟩ => (state.setLock lock ⟨true, []⟩).enter memoryCompress task lock entry now
  | some ⟨locked, waiters⟩ =>
      (state.setLock lock ⟨locked, waiters ++ [task.id]⟩).setPhase task.id (.waiting lock)
  | none => state

-- What follows the call: only a result that changes something is stored.
def answer (state : Scheduler) (task : Task) (lock : Nat) (current_memory : List Char)
    (result : Option (List Char)) (stored : Bool) (now : ℚ) : Scheduler :=
  let consolidated := runDreamPass current_memory result
  if consolidated = current_memory then
    ((state.release lock).noteDream task.jid now).finish task
  else if stored then
    ((({ state with
      hot := Function.update state.hot task.jid (updateHotMemory consolidated) }).release
        lock).noteDream task.jid now).finish task
  else (state.release lock).finish task

def write (lower : List Char → List Char) (state : Scheduler) (jid : String) (writer : Writer)
    (stored : Bool) : Scheduler :=
  match writer.stores lower (state.hot jid) with
  | some content =>
      if stored then { state with hot := Function.update state.hot jid content } else state
  | none => state

def removeGroup (state : Scheduler) (jid : String) : Scheduler :=
  { state with
    lastActive := state.lastActive.filter (·.1 ≠ jid)
    dreaming := Function.update state.dreaming jid false
    lastDream := Function.update state.lastDream jid 0
    hotLocks := Function.update state.hotLocks jid none }

def find (state : Scheduler) (id : Nat) : Option Task := state.tasks.find? (·.id = id)

end Scheduler

def step (memoryCompress : Bool) (settings : Settings) (state : Scheduler) :
    Event → Option Scheduler
  | .touch jid now => some (state.touch jid now)
  | .tick now => some (state.tick settings now)
  | .start id entry now =>
      match state.find id with
      | some ⟨id, jid, .created⟩ => some (state.start memoryCompress ⟨id, jid, .created⟩ entry now)
      | _ => none
  | .acquire id entry now =>
      match state.find id with
      | some ⟨id, jid, .waiting lock⟩ =>
          match state.locks[lock]? with
          | some ⟨false, first :: waiters⟩ =>
              if first = id then
                some ((state.setLock lock ⟨true, waiters⟩).enter memoryCompress
                  ⟨id, jid, .waiting lock⟩ lock entry now)
              else none
          | _ => none
      | _ => none
  | .answer id result stored now =>
      match state.find id with
      | some ⟨id, jid, .consolidating lock current_memory⟩ =>
          some (state.answer ⟨id, jid, .consolidating lock current_memory⟩ lock current_memory
            result stored now)
      | _ => none
  | .write jid writer stored => some (state.write settings.lower jid writer stored)
  | .removeGroup jid => some (state.removeGroup jid)

end EvoClaw.Dream
