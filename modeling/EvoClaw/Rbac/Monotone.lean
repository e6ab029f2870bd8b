import EvoClaw.Rbac.Revocation

-- The calls one after the other, and what a change of one subject does to the others.
namespace EvoClaw.Rbac

open EventSystem

-- What _time.time() answers in the sections of a query, in turn.
structure Readings where
  emptyChecked : ℚ
  emptyStored : ℚ
  rolesChecked : ℚ
  rolesStored : ℚ

namespace RBACStore

def grant (store : RBACStore) (subjectId : String) (role : Role) (grantedBy : Option String)
    (now : ℚ) : RBACStore :=
  { store with
    db := (Change.grant role grantedBy).apply subjectId now store.db }.invalidateCache subjectId

def revoke (store : RBACStore) (subjectId : String) (role : Role) : RBACStore :=
  { store with db := (Change.revoke role).apply subjectId 0 store.db }.invalidateCache subjectId

def isEmpty (store : RBACStore) (time : Readings) : Bool × RBACStore :=
  match store.getCachedEmpty time.emptyChecked with
  | (some result, store) => (result, store)
  | (none, store) => (store.db.isEmpty, store.setCachedEmpty store.db.isEmpty time.emptyStored)

def getRoles (store : RBACStore) (subjectId : String) (time : Readings) : List Role × RBACStore :=
  match store.getCachedRoles subjectId time.rolesChecked with
  | (some roles, store) => (roles, store)
  | (none, store) =>
      (store.db.roles subjectId,
        store.setCachedRoles subjectId (store.db.roles subjectId) time.rolesStored)

def hasPermission (store : RBACStore) (subjectId : String) (permission : Permission)
    (time : Readings) : Bool × RBACStore :=
  match store.isEmpty time with
  | (true, store) => (true, store)
  | (false, store) =>
      let (roles, store) := store.getRoles subjectId time
      (permitted roles permission, store)

end RBACStore

inductive Operation where
  | grant (subjectId : String) (role : Role) (grantedBy : Option String) (now : ℚ)
  | revoke (subjectId : String) (role : Role)
  | hasPermission (subjectId : String) (permission : Permission) (time : Readings)
  -- The process begins again with the same database.
  | reopen

-- The store, and whether there has been a grant.
structure Granting where
  store : RBACStore
  granted : Bool

namespace Granting

def start : Granting := ⟨{ db := [] }, false⟩

def perform (state : Granting) : Operation → Granting
  | .grant subjectId role grantedBy now =>
      ⟨state.store.grant subjectId role grantedBy now, true⟩
  | .revoke subjectId role => { state with store := state.store.revoke subjectId role }
  | .hasPermission subjectId permission time =>
      { state with store := (state.store.hasPermission subjectId permission time).2 }
  | .reopen => { state with store := { db := state.store.db } }

def step (state : Granting) (operation : Operation) : Option Granting :=
  some (state.perform operation)

-- What has_permission answers at this moment.
def answer (state : Granting) (subjectId : String) (permission : Permission) (time : Readings) :
    Bool :=
  (state.store.hasPermission subjectId permission time).1

-- A revocation gives nobody a permission, and a grant leaves the answers for the other subjects,
-- apart from the first one, which may take permissions away from them.
def Monotone (state : Granting) : Operation → Prop
  | .grant subjectId role grantedBy now => ∀ other ≠ subjectId, ∀ permission before after,
      let next := state.perform (.grant subjectId role grantedBy now)
      next.answer other permission after = state.answer other permission before ∨
        (state.granted = false ∧ state.answer other permission before = true ∧
          next.answer other permission after = false)
  | .revoke subjectId role => ∀ other permission before after,
      state.answer other permission before = false →
        (state.perform (.revoke subjectId role)).answer other permission after = false
  | .hasPermission .. | .reopen => True

-- A revocation leaves some grant, where there is any.
def KeepsSome (state : Granting) : Operation → Prop
  | .revoke subjectId role =>
      state.store.db ≠ [] → (Change.revoke role).apply subjectId 0 state.store.db ≠ []
  | .grant .. | .hasPermission .. | .reopen => True

instance (state : Granting) : DecidablePred state.KeepsSome
  | .revoke _ _ => inferInstanceAs (Decidable (_ → _))
  | .grant .. | .hasPermission .. | .reopen => isTrue trivial

end Granting

-- What the caches hold is what the database holds.
structure RBACStore.Coherent (store : RBACStore) : Prop where
  roles : ∀ subjectId roles fetchedAt,
    store.roleCache.lookup subjectId = some (roles, fetchedAt) → store.db.roles subjectId = roles
  empty : ∀ result cachedAt, store.emptyCache = some (result, cachedAt) →
    store.db.isEmpty = result

namespace RBACStore.Coherent

variable {store : RBACStore} {subjectId : String} {time : Readings}

theorem uncached (db : Database) : Coherent { db := db } := ⟨nofun, nofun⟩

theorem change (h : store.Coherent) (subjectId : String) (change : Change) (now : ℚ) :
    ({ store with db := change.apply subjectId now store.db }.invalidateCache subjectId).Coherent := by
  refine ⟨fun other roles fetchedAt hlookup => ?_, nofun⟩
  obtain ⟨hne, hbefore⟩ := lookup_pop hlookup
  exact (roles_apply_of_ne hne now change).trans (h.roles other roles fetchedAt hbefore)

theorem isEmpty (h : store.Coherent) (time : Readings) :
    (store.isEmpty time).1 = store.db.isEmpty ∧ (store.isEmpty time).2.Coherent ∧
      (store.isEmpty time).2.db = store.db := by
  unfold RBACStore.isEmpty
  obtain ⟨result, cachedAt, hcache, heq⟩ | heq := getCachedEmpty_cases store time.emptyChecked
  · rw [heq]
    exact ⟨(h.empty result cachedAt hcache).symm, h, rfl⟩
  · rw [heq]
    refine ⟨rfl, ⟨h.roles, ?_⟩, rfl⟩
    rintro result cachedAt ⟨⟩
    rfl

theorem getRoles (h : store.Coherent) (subjectId : String) (time : Readings) :
    (store.getRoles subjectId time).1 = store.db.roles subjectId ∧
      (store.getRoles subjectId time).2.Coherent ∧
      (store.getRoles subjectId time).2.db = store.db := by
  unfold RBACStore.getRoles
  obtain ⟨roles, fetchedAt, hcache, heq⟩ | ⟨left, heq, hdb, hempty, hkept⟩ :=
    @getCachedRoles_cases subjectId store time.rolesChecked
  · rw [heq]
    exact ⟨(h.roles subjectId roles fetchedAt hcache).symm, h, rfl⟩
  · rw [heq]
    refine ⟨congrArg (Database.roles · subjectId) hdb, ⟨?_, ?_⟩, hdb⟩
    · intro other roles fetchedAt hlookup
      obtain ⟨rfl, hentry⟩ | hbefore := lookup_setCachedRoles hlookup
      · exact (congrArg Prod.fst hentry).symm
      · exact (congrArg (Database.roles · other) hdb).trans
          (h.roles other roles fetchedAt (hkept other _ hbefore))
    · intro result cachedAt hcache
      exact (congrArg List.isEmpty hdb).trans (h.empty result cachedAt (hempty ▸ hcache))

theorem hasPermission (h : store.Coherent) (permission : Permission) :
    (store.hasPermission subjectId permission time).1 = allows store.db subjectId permission ∧
      (store.hasPermission subjectId permission time).2.Coherent ∧
      (store.hasPermission subjectId permission time).2.db = store.db := by
  obtain ⟨hresult, hcoherent, hdb⟩ := h.isEmpty time
  unfold RBACStore.hasPermission
  generalize store.isEmpty time = checked at hresult hcoherent hdb
  obtain ⟨result, checked⟩ := checked
  dsimp only at hresult hcoherent hdb
  cases result with
  | true => exact ⟨(allows_of_isEmpty hresult.symm).symm, hcoherent, hdb⟩
  | false =>
      obtain ⟨hroles, hcoherent, hdb'⟩ := hcoherent.getRoles subjectId time
      refine ⟨?_, hcoherent, hdb'.trans hdb⟩
      rw [allows_of_not_isEmpty hresult.symm]
      exact congrArg (permitted · permission) (hroles.trans (congrArg (Database.roles · subjectId) hdb))

end RBACStore.Coherent

section Databases

variable {db : Database} {subject other : String} {permission : Permission}

theorem roles_nil_of_delete {role : String} (h : db.delete subject role = []) (hne : other ≠ subject) :
    db.roles other = [] := by
  rw [Database.roles, List.filter_eq_nil_iff.mpr, List.filterMap_nil]
  intro row hrow
  have hdeleted : row.subjectId = subject ∧ row.role = role := by
    simpa using List.filter_eq_nil_iff.mp h row hrow
  simpa [hdeleted.1] using hne.symm

-- A subject holds no more roles after a revocation.
theorem permitted_of_delete {role : String}
    (h : permitted ((db.delete subject role).roles other) permission = true) :
    permitted (db.roles other) permission = true := by
  unfold permitted at h ⊢
  obtain ⟨held, hheld, hpermission⟩ := List.any_eq_true.mp h
  refine List.any_eq_true.mpr ⟨held, ?_, hpermission⟩
  obtain ⟨row, hrow, hrole⟩ := List.mem_filterMap.mp hheld
  obtain ⟨hrow, hsubject⟩ := List.mem_filter.mp hrow
  exact List.mem_filterMap.mpr ⟨row, List.mem_filter.mpr ⟨(List.mem_filter.mp hrow).1, hsubject⟩,
    hrole⟩

theorem insertOrReplace_ne_nil (entry : RBACEntry) : db.insertOrReplace entry ≠ [] :=
  List.concat_ne_nil _ _

end Databases

namespace Granting

variable {state : Granting} {operation : Operation}

-- The caches are right, and grants that have been made have not all been revoked.
structure Inv (state : Granting) : Prop where
  coherent : state.store.Coherent
  some_iff : state.granted = true ↔ state.store.db ≠ []

theorem answer_eq (h : state.store.Coherent) (subjectId : String) (permission : Permission)
    (time : Readings) :
    state.answer subjectId permission time = allows state.store.db subjectId permission :=
  (h.hasPermission permission).1

theorem coherent_perform (h : state.store.Coherent) (operation : Operation) :
    (state.perform operation).store.Coherent := by
  cases operation with
  | grant subjectId role grantedBy now => exact h.change subjectId (.grant role grantedBy) now
  | revoke subjectId role => exact h.change subjectId (.revoke role) 0
  | hasPermission subjectId permission time => exact (h.hasPermission permission).2.1
  | reopen => exact .uncached state.store.db

theorem inv_start : start.Inv := ⟨.uncached [], by decide⟩

theorem Inv.perform (h : state.Inv) (hkeeps : state.KeepsSome operation) :
    (state.perform operation).Inv := by
  refine ⟨coherent_perform h.coherent operation, ?_⟩
  cases operation with
  | grant subjectId role grantedBy now =>
      exact iff_of_true rfl (insertOrReplace_ne_nil _)
  | revoke subjectId role =>
      refine h.some_iff.trans ⟨hkeeps, fun hleft => ?_⟩
      rintro hnone
      refine hleft ?_
      change (Change.revoke role).apply subjectId 0 state.store.db = []
      rw [hnone]
      rfl
  | hasPermission subjectId permission time =>
      change state.granted = true ↔ (state.store.hasPermission subjectId permission time).2.db ≠ []
      rw [(h.coherent.hasPermission permission).2.2]
      exact h.some_iff
  | reopen => exact h.some_iff

theorem monotone_grant (h : state.Inv) (subjectId : String) (role : Role)
    (grantedBy : Option String) (now : ℚ) :
    state.Monotone (.grant subjectId role grantedBy now) := by
  intro other hother permission before after
  have hnext := coherent_perform h.coherent (.grant subjectId role grantedBy now)
  dsimp only
  rw [answer_eq h.coherent, answer_eq hnext]
  have hroles : (state.perform (.grant subjectId role grantedBy now)).store.db.roles other =
      state.store.db.roles other := roles_apply_of_ne hother now (.grant role grantedBy)
  have hsome : (state.perform (.grant subjectId role grantedBy now)).store.db.isEmpty = false :=
    List.isEmpty_eq_false_iff.mpr (insertOrReplace_ne_nil _)
  rw [allows_of_not_isEmpty hsome, hroles]
  cases hgranted : state.granted with
  | true =>
      have hbefore : state.store.db.isEmpty = false :=
        List.isEmpty_eq_false_iff.mpr (h.some_iff.mp hgranted)
      exact Or.inl (allows_of_not_isEmpty hbefore).symm
  | false =>
      -- before the first grant, everybody may do everything and nobody has a role
      have hnone : state.store.db = [] := by
        by_contra hsome
        exact absurd (h.some_iff.mpr hsome) (by simp [hgranted])
      rw [hnone]
      exact Or.inr ⟨rfl, rfl, rfl⟩

theorem monotone_revoke_iff (h : state.store.Coherent) (subjectId : String) (role : Role) :
    state.Monotone (.revoke subjectId role) ↔ state.KeepsSome (.revoke subjectId role) := by
  have hnext := coherent_perform h (.revoke subjectId role)
  have hdb : (state.perform (.revoke subjectId role)).store.db =
      state.store.db.delete subjectId role.value := rfl
  constructor
  · intro hmonotone hsome hnone
    change state.store.db.delete subjectId role.value = [] at hnone
    -- somebody else had no permission, and has all of them when no grant is left
    have hother : subjectId ++ "'" ≠ subjectId := by
      intro heq
      have hlength := congrArg String.length heq
      simp at hlength
    have hbefore : state.answer (subjectId ++ "'") .rbacGrant ⟨0, 0, 0, 0⟩ = false := by
      rw [answer_eq h, allows_of_not_isEmpty (List.isEmpty_eq_false_iff.mpr hsome),
        roles_nil_of_delete hnone hother]
      rfl
    have hafter := hmonotone (subjectId ++ "'") .rbacGrant ⟨0, 0, 0, 0⟩ ⟨0, 0, 0, 0⟩ hbefore
    rw [answer_eq hnext, hdb, allows_of_isEmpty (List.isEmpty_iff.mpr hnone)] at hafter
    cases hafter
  · intro hkeeps other permission before after hbefore
    rw [answer_eq h] at hbefore
    rw [answer_eq hnext, hdb]
    have hsome : state.store.db ≠ [] := by
      rintro hnone
      rw [hnone] at hbefore
      cases hbefore
    have hleft : (state.store.db.delete subjectId role.value).isEmpty = false :=
      List.isEmpty_eq_false_iff.mpr (hkeeps hsome)
    rw [allows_of_not_isEmpty (List.isEmpty_eq_false_iff.mpr hsome)] at hbefore
    rw [allows_of_not_isEmpty hleft, ← Bool.not_eq_true]
    exact fun hafter => absurd (permitted_of_delete hafter) (by simp [hbefore])

-- Along every run from an empty store, permissions are monotone if and only if no revocation
-- takes away the last grant.
theorem monotone_along_iff (operations : List Operation) :
    Along step Monotone start operations ↔ Along step KeepsSome start operations := by
  have hany : Along step (fun _ _ => True) start operations :=
    along_of_forall (fun _ _ => trivial) start operations
  refine along_iff Inv (fun state operation next h hkeeps _ hstep => ?_)
    (fun state operation next h _ _ => ?_) inv_start hany
  · exact Option.some.inj hstep ▸ h.perform hkeeps
  · cases operation with
    | grant subjectId role grantedBy now =>
        exact iff_of_true (monotone_grant h subjectId role grantedBy now) trivial
    | revoke subjectId role => exact monotone_revoke_iff h.coherent subjectId role
    | hasPermission subjectId permission time => exact Iff.rfl
    | reopen => exact Iff.rfl

-- The only grant is revoked, and everybody may grant roles from then on.
theorem not_monotone_last_revoked :
    ¬ Along step Monotone start [.grant "root" .admin none 1, .revoke "root" .admin] := by
  rintro ⟨-, hrevoke, -⟩
  have hafter := hrevoke "mallory" .rbacGrant ⟨2, 2, 2, 2⟩ ⟨3, 3, 3, 3⟩
  revert hafter
  decide

end Granting

end EvoClaw.Rbac
