import EvoClaw.EventSystem.Runs
import Mathlib.Data.Rat.Defs
import Mathlib.Algebra.Order.Ring.Rat
import Mathlib.Logic.Function.Basic

-- The role store of host/rbac/roles.py.
namespace EvoClaw.Rbac

inductive Permission where
  | memoryRead
  | memoryWrite
  | memoryDelete
  | agentSpawn
  | agentKill
  | agentList
  | taskSubmit
  | taskCancel
  | registryRead
  | registryWrite
  | rbacGrant
  | rbacRevoke
deriving DecidableEq

inductive Role where
  | admin
  | operator
  | agent
  | viewer
deriving DecidableEq

def Role.value : Role → String
  | .admin => "admin"
  | .operator => "operator"
  | .agent => "agent"
  | .viewer => "viewer"

-- Role(value), none where it raises.
def Role.ofValue (value : String) : Option Role :=
  [Role.admin, .operator, .agent, .viewer].find? fun role => role.value = value

def rolePermissions : Role → List Permission
  | .admin =>
      [.memoryRead, .memoryWrite, .memoryDelete, .agentSpawn, .agentKill, .agentList, .taskSubmit,
        .taskCancel, .registryRead, .registryWrite, .rbacGrant, .rbacRevoke]
  | .operator =>
      [.memoryRead, .memoryWrite, .agentSpawn, .agentKill, .agentList, .taskSubmit, .taskCancel,
        .registryRead]
  | .agent => [.memoryRead, .memoryWrite, .agentList, .taskSubmit, .registryRead]
  | .viewer => [.memoryRead, .agentList, .registryRead]

-- A row of rbac_grants. Its key is the subject with the role, which may be an unknown text.
structure RBACEntry where
  subjectId : String
  role : String
  grantedBy : Option String
  grantedAt : ℚ
deriving DecidableEq

abbrev Database := List RBACEntry

namespace Database

def insertOrReplace (db : Database) (entry : RBACEntry) : Database :=
  (db.filter fun row => ¬ (row.subjectId = entry.subjectId ∧ row.role = entry.role)) ++ [entry]

def delete (db : Database) (subjectId role : String) : Database :=
  db.filter fun row => ¬ (row.subjectId = subjectId ∧ row.role = role)

-- The roles that get_roles reads. Unknown ones are skipped.
def roles (db : Database) (subjectId : String) : List Role :=
  (db.filter fun row => row.subjectId = subjectId).filterMap fun row => Role.ofValue row.role

end Database

def permitted (roles : List Role) (permission : Permission) : Bool :=
  roles.any fun role => permission ∈ rolePermissions role

-- What has_permission is to answer for these contents of the database.
def allows (db : Database) (subjectId : String) (permission : Permission) : Bool :=
  db.isEmpty || permitted (db.roles subjectId) permission

def cacheTtl : ℚ := 60
def cacheMaxsize : Nat := 512

abbrev RoleCache := List (String × List Role × ℚ)

namespace RoleCache

def pop (cache : RoleCache) (subjectId : String) : RoleCache :=
  cache.filter fun entry => entry.1 ≠ subjectId

-- cache[subject_id] = entry keeps the place of a key that is there.
def set (cache : RoleCache) (subjectId : String) (roles : List Role) (now : ℚ) : RoleCache :=
  match cache with
  | [] => [(subjectId, roles, now)]
  | entry :: rest =>
      if entry.1 = subjectId then (subjectId, roles, now) :: rest
      else entry :: set rest subjectId roles now

-- The first of the entries that were fetched at the earliest time.
def oldest : RoleCache → Option (String × List Role × ℚ)
  | [] => none
  | entry :: rest =>
      match oldest rest with
      | none => some entry
      | some other => if entry.2.2 ≤ other.2.2 then some entry else some other

end RoleCache

structure RBACStore where
  db : Database
  roleCache : RoleCache := []
  emptyCache : Option (Bool × ℚ) := none

namespace RBACStore

def getCachedRoles (store : RBACStore) (subjectId : String) (now : ℚ) :
    Option (List Role) × RBACStore :=
  match store.roleCache.lookup subjectId with
  | none => (none, store)
  | some (roles, fetchedAt) =>
      if now - fetchedAt < cacheTtl then (some roles, store)
      else (none, { store with roleCache := store.roleCache.pop subjectId })

def setCachedRoles (store : RBACStore) (subjectId : String) (roles : List Role) (now : ℚ) :
    RBACStore :=
  let kept := if cacheMaxsize ≤ store.roleCache.length then
      match store.roleCache.oldest with
      | none => store.roleCache
      | some entry => store.roleCache.pop entry.1
    else store.roleCache
  { store with roleCache := RoleCache.set kept subjectId roles now }

def invalidateCache (store : RBACStore) (subjectId : String) : RBACStore :=
  { store with roleCache := store.roleCache.pop subjectId, emptyCache := none }

def getCachedEmpty (store : RBACStore) (now : ℚ) : Option Bool × RBACStore :=
  match store.emptyCache with
  | none => (none, store)
  | some (result, cachedAt) =>
      if now - cachedAt < cacheTtl then (some result, store)
      else (none, { store with emptyCache := none })

def setCachedEmpty (store : RBACStore) (result : Bool) (now : ℚ) : RBACStore :=
  { store with emptyCache := some (result, now) }

end RBACStore

inductive Change where
  | grant (role : Role) (grantedBy : Option String)
  | revoke (role : Role)
deriving DecidableEq

def Change.apply (subjectId : String) (now : ℚ) (db : Database) : Change → Database
  | .grant role grantedBy => db.insertOrReplace ⟨subjectId, role.value, grantedBy, now⟩
  | .revoke role => db.delete subjectId role.value

inductive Query where
  | hasPermission (permission : Permission)
  | getRoles
  | isEmpty
deriving DecidableEq

-- The section of a query that comes next. Each holds a lock.
inductive Stage where
  | checkEmpty
  | countGrants
  | storeEmpty (result : Bool)
  | checkRoles
  | selectRoles
  | storeRoles (roles : List Role)
deriving DecidableEq

-- A call in progress. A query counts as long as the last change of its subject had returned
-- when it began and there has been no other one since.
inductive Task where
  | change (subjectId : String) (change : Change) (committed : Bool)
  | query (subjectId : String) (query : Query) (stage : Stage) (counts : Bool)
deriving DecidableEq

-- An answer of has_permission, with the contents that the database has had since the last
-- change of the subject has returned.
structure Answer where
  subjectId : String
  permission : Permission
  answer : Bool
  counts : Bool
  since : List Database

-- The store and the calls of its threads. The other fields are a record of what the database
-- has held: since the last change of a subject has returned, since the last time that the
-- cached roles of a subject were invalidated, and since the last time that any were.
-- `unreturned` is the thread with the last change of a subject until that has returned.
structure State where
  store : RBACStore
  tasks : Nat → Option Task := fun _ => none
  unreturned : String → Option Nat := fun _ => none
  since : String → List Database
  sinceInvalidated : String → List Database
  sinceAnyInvalidated : List Database
  answers : List Answer := []

def initial (db : Database) : State where
  store := { db := db }
  since := fun _ => [db]
  sinceInvalidated := fun _ => [db]
  sinceAnyInvalidated := [db]

inductive Request where
  | change (subjectId : String) (change : Change)
  | query (subjectId : String) (query : Query)
deriving DecidableEq

-- A thread begins a call, goes through the next section of its call at a time, or has the
-- database raise in it.
inductive Event where
  | begins (thread : Nat) (request : Request)
  | proceeds (thread : Nat) (now : ℚ)
  | raises (thread : Nat)
deriving DecidableEq

namespace State

def setTask (state : State) (thread : Nat) (task : Option Task) : State :=
  { state with tasks := Function.update state.tasks thread task }

def start (state : State) : Request → Task
  | .change subjectId change => .change subjectId change false
  | .query subjectId query =>
      .query subjectId query
        (match query with
          | .hasPermission _ | .isEmpty => .checkEmpty
          | .getRoles => .checkRoles)
        (state.unreturned subjectId).isNone

def commit (state : State) (thread : Nat) (subjectId : String) (change : Change) (now : ℚ) :
    State :=
  let db := change.apply subjectId now state.store.db
  { state with
    store := { state.store with db := db }
    tasks := fun other =>
      if other = thread then some (.change subjectId change true)
      else (state.tasks other).map fun task =>
        match task with
        | .query subject query stage counts =>
            .query subject query stage (counts && subject ≠ subjectId)
        | .change .. => task
    unreturned := Function.update state.unreturned subjectId (some thread)
    since := fun subject => db :: state.since subject
    sinceInvalidated := fun subject => db :: state.sinceInvalidated subject
    sinceAnyInvalidated := db :: state.sinceAnyInvalidated }

def invalidate (state : State) (thread : Nat) (subjectId : String) : State :=
  let last := state.unreturned subjectId = some thread
  { state with
    store := state.store.invalidateCache subjectId
    tasks := Function.update state.tasks thread none
    unreturned := if last then Function.update state.unreturned subjectId none
      else state.unreturned
    since := if last then Function.update state.since subjectId [state.store.db] else state.since
    sinceInvalidated := Function.update state.sinceInvalidated subjectId [state.store.db]
    sinceAnyInvalidated := [state.store.db] }

def answered (state : State) (thread : Nat) (subjectId : String) (permission : Permission)
    (counts answer : Bool) : State :=
  { state with
    tasks := Function.update state.tasks thread none
    answers := ⟨subjectId, permission, answer, counts, state.since subjectId⟩ :: state.answers }

-- The rest of a query that knows whether there are any grants.
def afterEmpty (state : State) (thread : Nat) (subjectId : String) (query : Query)
    (counts result : Bool) : State :=
  match query with
  | .hasPermission permission =>
      if result then state.answered thread subjectId permission counts true
      else state.setTask thread (some (.query subjectId query .checkRoles counts))
  | .getRoles | .isEmpty => state.setTask thread none

-- The rest of a query that knows the roles.
def afterRoles (state : State) (thread : Nat) (subjectId : String) (query : Query)
    (counts : Bool) (roles : List Role) : State :=
  match query with
  | .hasPermission permission =>
      state.answered thread subjectId permission counts (permitted roles permission)
  | .getRoles | .isEmpty => state.setTask thread none

def proceedQuery (state : State) (thread : Nat) (subjectId : String) (query : Query)
    (counts : Bool) (now : ℚ) : Stage → State
  | .checkEmpty =>
      let (cached, store) := state.store.getCachedEmpty now
      match cached with
      | some result => { state with store := store }.afterEmpty thread subjectId query counts result
      | none =>
          { state with store := store }.setTask thread
            (some (.query subjectId query .countGrants counts))
  | .countGrants =>
      state.setTask thread
        (some (.query subjectId query (.storeEmpty state.store.db.isEmpty) counts))
  | .storeEmpty result =>
      { state with store := state.store.setCachedEmpty result now }.afterEmpty thread subjectId query
        counts result
  | .checkRoles =>
      let (cached, store) := state.store.getCachedRoles subjectId now
      match cached with
      | some roles => { state with store := store }.afterRoles thread subjectId query counts roles
      | none =>
          { state with store := store }.setTask thread
            (some (.query subjectId query .selectRoles counts))
  | .selectRoles =>
      state.setTask thread
        (some (.query subjectId query (.storeRoles (state.store.db.roles subjectId)) counts))
  | .storeRoles roles =>
      { state with store := state.store.setCachedRoles subjectId roles now }.afterRoles thread
        subjectId query counts roles

def proceed (state : State) (thread : Nat) (now : ℚ) : Task → State
  | .change subjectId change false => state.commit thread subjectId change now
  | .change subjectId _ true => state.invalidate thread subjectId
  | .query subjectId query stage counts =>
      state.proceedQuery thread subjectId query counts now stage

end State

-- The sections that use the database.
def Task.usesDatabase : Task → Bool
  | .change _ _ committed => !committed
  | .query _ _ .countGrants _ => true
  | .query _ _ .selectRoles _ => true
  | .query _ _ _ _ => false

def step (state : State) : Event → Option State
  | .begins thread request =>
      match state.tasks thread with
      | none => some (state.setTask thread (some (state.start request)))
      | some _ => none
  | .proceeds thread now => (state.tasks thread).map (state.proceed thread now)
  | .raises thread =>
      match state.tasks thread with
      | none => none
      | some task => if task.usesDatabase then some (state.setTask thread none) else none

end EvoClaw.Rbac
