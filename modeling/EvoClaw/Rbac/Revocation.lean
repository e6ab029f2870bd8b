import EvoClaw.Rbac.Model

namespace EvoClaw.Rbac

open EventSystem State

variable {state : State} {thread : Nat} {subjectId : String} {query : Query} {counts : Bool}
  {now : ℚ}

-- The answer is that of contents the database has had since the last change of the subject
-- has returned.
def Answer.Right (answer : Answer) : Prop :=
  answer.counts = true →
    ∃ db ∈ answer.since, answer.answer = allows db answer.subjectId answer.permission

def RevocationTakesEffect (state : State) : Prop :=
  ∀ answer ∈ state.answers, answer.Right

-- The same roles, in whatever order.
def SameRoles (roles other : List Role) : Prop :=
  (∀ role ∈ roles, role ∈ other) ∧ ∀ role ∈ other, role ∈ roles

instance (roles other : List Role) : Decidable (SameRoles roles other) :=
  inferInstanceAs (Decidable (_ ∧ _))

-- What the next section puts into a cache is something that the database has held since that
-- cache was last invalidated.
def Task.FillsFresh (state : State) : Task → Prop
  | .query _ _ (.storeEmpty result) _ => ∃ db ∈ state.sinceAnyInvalidated, db.isEmpty = result
  | .query subjectId _ (.storeRoles roles) _ =>
      ∃ db ∈ state.sinceInvalidated subjectId, SameRoles (db.roles subjectId) roles
  | .query _ _ .checkEmpty _ | .query _ _ .countGrants _ => True
  | .query _ _ .checkRoles _ | .query _ _ .selectRoles _ => True
  | .change _ _ _ => True

def FillsFresh (state : State) : Event → Prop
  | .proceeds thread _ => ∀ task ∈ state.tasks thread, task.FillsFresh state
  | .begins _ _ => True
  | .raises _ => True

instance (answer : Answer) : Decidable answer.Right :=
  inferInstanceAs (Decidable (_ → _))

instance : DecidablePred RevocationTakesEffect :=
  fun state => inferInstanceAs (Decidable (∀ answer ∈ state.answers, answer.Right))

instance (state : State) : DecidablePred (Task.FillsFresh state)
  | .query _ _ (.storeEmpty result) _ =>
      inferInstanceAs (Decidable (∃ db ∈ state.sinceAnyInvalidated, db.isEmpty = result))
  | .query subjectId _ (.storeRoles roles) _ =>
      inferInstanceAs (Decidable
        (∃ db ∈ state.sinceInvalidated subjectId, SameRoles (db.roles subjectId) roles))
  | .query _ _ .checkEmpty _ | .query _ _ .countGrants _ => isTrue trivial
  | .query _ _ .checkRoles _ | .query _ _ .selectRoles _ => isTrue trivial
  | .change _ _ _ => isTrue trivial

instance (state : State) : DecidablePred (FillsFresh state)
  | .proceeds thread _ =>
      inferInstanceAs (Decidable (∀ task ∈ state.tasks thread, task.FillsFresh state))
  | .begins _ _ => isTrue trivial
  | .raises _ => isTrue trivial

-- What a call that counts has found out so far.
def Known (state : State) (subjectId : String) (query : Query) : Stage → Prop
  | .checkEmpty => True
  | .countGrants => True
  | .storeEmpty result => ∃ db ∈ state.since subjectId, db.isEmpty = result
  | .checkRoles | .selectRoles =>
      ∀ permission, query = .hasPermission permission →
        ∃ db ∈ state.since subjectId, db.isEmpty = false
  | .storeRoles roles => roles = state.store.db.roles subjectId ∧
      ∀ permission, query = .hasPermission permission →
        ∃ db ∈ state.since subjectId, db.isEmpty = false

structure Fresh (state : State) : Prop where
  roles : ∀ subjectId roles fetchedAt,
    state.store.roleCache.lookup subjectId = some (roles, fetchedAt) →
    ∃ db ∈ state.sinceInvalidated subjectId, SameRoles (db.roles subjectId) roles
  empty : ∀ result cachedAt, state.store.emptyCache = some (result, cachedAt) →
    ∃ db ∈ state.sinceAnyInvalidated, db.isEmpty = result
  settled : ∀ subjectId, state.unreturned subjectId = none →
    (∀ db ∈ state.sinceInvalidated subjectId, db.roles subjectId = state.store.db.roles subjectId) ∧
    ∀ db ∈ state.since subjectId, db.roles subjectId = state.store.db.roles subjectId
  here : state.store.db ∈ state.sinceAnyInvalidated
  within : ∀ subjectId, state.sinceAnyInvalidated ⊆ state.since subjectId
  known : ∀ thread subjectId query stage,
    state.tasks thread = some (.query subjectId query stage true) →
    state.unreturned subjectId = none ∧ Known state subjectId query stage
  answered : RevocationTakesEffect state

section Database

variable {db : Database} {subject other : String}

theorem roles_filter {p : RBACEntry → Bool}
    (hp : ∀ row, row.subjectId = other → p row = true) :
    Database.roles (db.filter p) other = db.roles other := by
  unfold Database.roles
  rw [List.filter_filter]
  congr 1
  apply List.filter_congr
  intro row _
  by_cases hrow : row.subjectId = other
  · simp [hrow, hp row hrow]
  · simp [hrow]

-- A change of one subject leaves the roles of the others.
theorem roles_apply_of_ne (h : other ≠ subject) (now : ℚ) (change : Change) :
    (change.apply subject now db).roles other = db.roles other := by
  have hkeep (role : String) (row : RBACEntry) (hrow : row.subjectId = other) :
      decide (¬ (row.subjectId = subject ∧ row.role = role)) = true := by
    simp [hrow, h]
  cases change with
  | grant role grantedBy =>
      simp only [Change.apply, Database.insertOrReplace]
      rw [Database.roles, List.filter_append]
      simp only [Ne.symm h, decide_false, Bool.false_eq_true, not_false_iff,
        List.filter_cons_of_neg, List.filter_nil, List.append_nil]
      exact roles_filter (hkeep role.value)
  | revoke role => exact roles_filter (hkeep role.value)

theorem SameRoles.permitted_eq {roles others : List Role} (h : SameRoles roles others)
    (permission : Permission) : permitted roles permission = permitted others permission := by
  unfold permitted
  rw [Bool.eq_iff_iff, List.any_eq_true, List.any_eq_true]
  exact ⟨fun ⟨role, hrole, hp⟩ => ⟨role, h.1 role hrole, hp⟩,
    fun ⟨role, hrole, hp⟩ => ⟨role, h.2 role hrole, hp⟩⟩

theorem allows_of_isEmpty {permission : Permission} (h : db.isEmpty = true) :
    allows db subject permission = true := by
  simp [allows, h]

theorem allows_of_not_isEmpty {permission : Permission} (h : db.isEmpty = false) :
    allows db subject permission = permitted (db.roles subject) permission := by
  simp [allows, h]

end Database

section Cache

variable {cache : RoleCache} {subject other : String} {entry : List Role × ℚ}

theorem lookup_pop (h : (cache.pop subject).lookup other = some entry) :
    other ≠ subject ∧ cache.lookup other = some entry := by
  induction cache with
  | nil => cases h
  | cons first cache ih =>
      obtain ⟨key, value⟩ := first
      by_cases hkey : key = subject
      · have hrest := ih (by simpa [RoleCache.pop, hkey] using h)
        refine ⟨hrest.1, ?_⟩
        rw [List.lookup_cons, beq_false_of_ne (hkey ▸ hrest.1)]
        exact hrest.2
      · have hpop : RoleCache.pop ((key, value) :: cache) subject =
            (key, value) :: RoleCache.pop cache subject := by simp [RoleCache.pop, hkey]
        rw [hpop, List.lookup_cons] at h
        rw [List.lookup_cons]
        split at h
        · rename_i heq
          exact ⟨by rw [eq_of_beq heq]; exact hkey, h⟩
        · exact ih h

theorem lookup_set {roles : List Role} (h : (cache.set subject roles now).lookup other = some entry) :
    (other = subject ∧ entry = (roles, now)) ∨ cache.lookup other = some entry := by
  induction cache with
  | nil =>
      simp only [RoleCache.set, List.lookup_cons, List.lookup_nil] at h
      split at h
      · rename_i heq
        exact .inl ⟨eq_of_beq heq, (Option.some.inj h).symm⟩
      · cases h
  | cons first cache ih =>
      obtain ⟨key, value⟩ := first
      simp only [RoleCache.set] at h
      split at h
      · rename_i hkey
        rw [List.lookup_cons] at h
        split at h
        · rename_i heq
          exact .inl ⟨eq_of_beq heq, (Option.some.inj h).symm⟩
        · rename_i hne
          right
          rw [List.lookup_cons, show (other == key) = false from hkey ▸ hne]
          exact h
      · rw [List.lookup_cons] at h ⊢
        split at h
        · exact .inr h
        · exact ih h

-- What a section that looks into a cache comes to.
theorem getCachedEmpty_cases (store : RBACStore) (now : ℚ) :
    (∃ result cachedAt, store.emptyCache = some (result, cachedAt) ∧
      store.getCachedEmpty now = (some result, store)) ∨
    store.getCachedEmpty now = (none, { store with emptyCache := none }) := by
  unfold RBACStore.getCachedEmpty
  split
  · rename_i hcache
    refine .inr ?_
    rw [← hcache]
  · rename_i result cachedAt hcache
    split
    · exact .inl ⟨result, cachedAt, hcache, rfl⟩
    · exact .inr rfl

theorem getCachedRoles_cases (store : RBACStore) (now : ℚ) :
    (∃ roles fetchedAt, store.roleCache.lookup subject = some (roles, fetchedAt) ∧
      store.getCachedRoles subject now = (some roles, store)) ∨
    ∃ left, store.getCachedRoles subject now = (none, left) ∧ left.db = store.db ∧
      left.emptyCache = store.emptyCache ∧ ∀ other entry,
        left.roleCache.lookup other = some entry → store.roleCache.lookup other = some entry := by
  unfold RBACStore.getCachedRoles
  split
  · exact .inr ⟨store, rfl, rfl, rfl, fun _ _ => id⟩
  · rename_i roles fetchedAt hcache
    split
    · exact .inl ⟨roles, fetchedAt, hcache, rfl⟩
    · exact .inr ⟨_, rfl, rfl, rfl, fun _ _ hlookup => (lookup_pop hlookup).2⟩

theorem lookup_setCachedRoles {store : RBACStore} {roles : List Role}
    (h : (store.setCachedRoles subject roles now).roleCache.lookup other = some entry) :
    (other = subject ∧ entry = (roles, now)) ∨ store.roleCache.lookup other = some entry := by
  simp only [RBACStore.setCachedRoles] at h
  rcases lookup_set h with hset | hkept
  · exact .inl hset
  · right
    split at hkept
    · split at hkept
      · exact hkept
      · exact (lookup_pop hkept).2
    · exact hkept

end Cache

section Steps

theorem fresh_initial (db : Database) : Fresh (initial db) := by
  refine ⟨nofun, nofun, fun _ _ => ⟨?_, ?_⟩, List.mem_singleton.mpr rfl,
    fun _ => List.Subset.refl _, nofun, nofun⟩
  · intro other hother
    rw [List.mem_singleton.mp hother]
    rfl
  · intro other hother
    rw [List.mem_singleton.mp hother]
    rfl

theorem Fresh.setTask (h : Fresh state) {task : Option Task}
    (htask : ∀ subjectId query stage, task = some (.query subjectId query stage true) →
      state.unreturned subjectId = none ∧ Known state subjectId query stage) :
    Fresh (state.setTask thread task) := by
  refine { h with known := fun other subjectId query stage hother => ?_ }
  by_cases heq : other = thread
  · subst heq
    exact htask subjectId query stage (by simpa [State.setTask] using hother)
  · exact h.known other subjectId query stage (by
      simpa [State.setTask, Function.update_of_ne heq] using hother)

theorem Fresh.withStore (h : Fresh state) {store : RBACStore}
    (hdb : store.db = state.store.db)
    (hroles : ∀ subjectId roles fetchedAt,
      store.roleCache.lookup subjectId = some (roles, fetchedAt) →
      ∃ db ∈ state.sinceInvalidated subjectId, SameRoles (db.roles subjectId) roles)
    (hempty : ∀ result cachedAt, store.emptyCache = some (result, cachedAt) →
      ∃ db ∈ state.sinceAnyInvalidated, db.isEmpty = result) :
    Fresh { state with store := store } := by
  refine ⟨hroles, hempty, ?_, ?_, h.within, ?_, h.answered⟩
  · simpa only [hdb] using h.settled
  · simpa only [hdb] using h.here
  · intro thread subjectId query stage htask
    obtain ⟨hreturned, hknown⟩ := h.known thread subjectId query stage htask
    refine ⟨hreturned, ?_⟩
    cases stage with
    | checkEmpty => trivial
    | countGrants => trivial
    | storeEmpty result => exact hknown
    | checkRoles => exact hknown
    | selectRoles => exact hknown
    | storeRoles roles => exact ⟨by rw [hdb]; exact hknown.1, hknown.2⟩

theorem Fresh.addAnswer (h : Fresh state) {permission : Permission} {answer : Bool}
    (hright : counts = true → ∃ db ∈ state.since subjectId,
      answer = allows db subjectId permission) :
    Fresh (state.answered thread subjectId permission counts answer) := by
  have hset : Fresh (state.setTask thread none) := h.setTask nofun
  refine { hset with answered := ?_ }
  intro entry hentry
  rcases List.mem_cons.mp hentry with rfl | hentry
  · exact hright
  · exact h.answered entry hentry

theorem Fresh.afterEmpty (h : Fresh state) {result : Bool}
    (hknown : counts = true → state.unreturned subjectId = none ∧
      ∃ db ∈ state.since subjectId, db.isEmpty = result) :
    Fresh (state.afterEmpty thread subjectId query counts result) := by
  cases query with
  | hasPermission permission =>
      simp only [State.afterEmpty]
      split
      · rename_i hresult
        refine h.addAnswer fun hcounts => ?_
        obtain ⟨-, db, hdb, hempty⟩ := hknown hcounts
        exact ⟨db, hdb, (allows_of_isEmpty (hempty.trans hresult)).symm⟩
      · rename_i hresult
        refine h.setTask fun subject other stage htask => ?_
        cases htask
        obtain ⟨hreturned, db, hdb, hempty⟩ := hknown rfl
        exact ⟨hreturned, fun _ _ => ⟨db, hdb, hempty.trans (Bool.eq_false_of_not_eq_true hresult)⟩⟩
  | getRoles => exact h.setTask nofun
  | isEmpty => exact h.setTask nofun

theorem Fresh.afterRoles (h : Fresh state) {roles : List Role}
    (hknown : counts = true → state.unreturned subjectId = none ∧
      SameRoles (state.store.db.roles subjectId) roles ∧
      ∀ permission, query = .hasPermission permission →
        ∃ db ∈ state.since subjectId, db.isEmpty = false) :
    Fresh (state.afterRoles thread subjectId query counts roles) := by
  cases query with
  | hasPermission permission =>
      refine h.addAnswer fun hcounts => ?_
      obtain ⟨hreturned, hroles, hsome⟩ := hknown hcounts
      obtain ⟨db, hdb, hempty⟩ := hsome permission rfl
      refine ⟨db, hdb, ?_⟩
      rw [allows_of_not_isEmpty hempty, (h.settled subjectId hreturned).2 db hdb,
        hroles.permitted_eq]
  | getRoles => exact h.setTask nofun
  | isEmpty => exact h.setTask nofun

theorem Fresh.proceedQuery (h : Fresh state) {stage : Stage}
    (htask : state.tasks thread = some (.query subjectId query stage counts))
    (hguard : Task.FillsFresh state (.query subjectId query stage counts)) :
    Fresh (state.proceedQuery thread subjectId query counts now stage) := by
  have hknown : counts = true → state.unreturned subjectId = none ∧
      Known state subjectId query stage := by
    rintro rfl
    exact h.known thread subjectId query stage htask
  cases stage with
  | checkEmpty =>
      simp only [State.proceedQuery]
      rcases getCachedEmpty_cases state.store now with ⟨result, cachedAt, hcache, heq⟩ | heq
      · -- the cached result has held since the last change of the subject
        rw [heq]
        refine h.afterEmpty fun hcounts => ?_
        obtain ⟨db, hdb, hempty⟩ := h.empty result cachedAt hcache
        exact ⟨(hknown hcounts).1, db, h.within subjectId hdb, hempty⟩
      · rw [heq]
        have hcleared := @Fresh.withStore _ h { state.store with emptyCache := none } rfl h.roles nofun
        refine hcleared.setTask fun _ _ _ heq => ?_
        cases heq
        exact ⟨(hknown rfl).1, trivial⟩
  | countGrants =>
      refine h.setTask fun _ _ _ heq => ?_
      cases heq
      exact ⟨(hknown rfl).1, state.store.db, h.within subjectId h.here, rfl⟩
  | storeEmpty result =>
      have hstored := @Fresh.withStore _ h (state.store.setCachedEmpty result now) rfl h.roles
        fun found cachedAt heq => by
          cases heq
          exact hguard
      exact hstored.afterEmpty hknown
  | checkRoles =>
      simp only [State.proceedQuery]
      rcases @getCachedRoles_cases subjectId state.store now with
        ⟨roles, fetchedAt, hcache, heq⟩ | ⟨left, heq, hdb, hempty, hkept⟩
      · rw [heq]
        refine h.afterRoles fun hcounts => ?_
        obtain ⟨hreturned, hsome⟩ := hknown hcounts
        obtain ⟨db, hdb, hroles⟩ := h.roles subjectId roles fetchedAt hcache
        rw [(h.settled subjectId hreturned).1 db hdb] at hroles
        exact ⟨hreturned, hroles, hsome⟩
      · rw [heq]
        refine Fresh.setTask (h.withStore hdb (fun subject roles fetchedAt hlookup =>
          h.roles subject roles fetchedAt (hkept subject _ hlookup))
          (by rw [hempty]; exact h.empty)) fun _ _ _ heq => ?_
        cases heq
        exact hknown rfl
  | selectRoles =>
      refine h.setTask fun _ _ _ heq => ?_
      cases heq
      exact ⟨(hknown rfl).1, rfl, (hknown rfl).2⟩
  | storeRoles roles =>
      have hstored := @Fresh.withStore _ h (state.store.setCachedRoles subjectId roles now) rfl
        (fun subject found fetchedAt hlookup => by
          rcases lookup_setCachedRoles hlookup with ⟨rfl, heq⟩ | hkept
          · cases heq
            exact hguard
          · exact h.roles subject found fetchedAt hkept) h.empty
      refine hstored.afterRoles fun hcounts => ?_
      obtain ⟨hreturned, hroles, hsome⟩ := hknown hcounts
      exact ⟨hreturned, hroles ▸ ⟨fun _ hrole => hrole, fun _ hrole => hrole⟩, hsome⟩

-- The contents after a commit are added to every record, and no query of the subject counts
-- any more.
theorem Fresh.commit (h : Fresh state) (change : Change) :
    Fresh (state.commit thread subjectId change now) := by
  have hother {subject : String}
      (hreturned : (state.commit thread subjectId change now).unreturned subject = none) :
      subject ≠ subjectId ∧ state.unreturned subject = none := by
    have hne : subject ≠ subjectId := by
      rintro rfl
      simp [State.commit] at hreturned
    exact ⟨hne, by simpa [State.commit, Function.update_of_ne hne] using hreturned⟩
  refine ⟨?_, ?_, ?_, List.mem_cons_self, fun subject => List.cons_subset_cons _ (h.within subject),
    ?_, h.answered⟩
  · intro subject roles fetchedAt hlookup
    obtain ⟨db, hdb, hroles⟩ := h.roles subject roles fetchedAt hlookup
    exact ⟨db, List.mem_cons_of_mem _ hdb, hroles⟩
  · intro result cachedAt hcache
    obtain ⟨db, hdb, hempty⟩ := h.empty result cachedAt hcache
    exact ⟨db, List.mem_cons_of_mem _ hdb, hempty⟩
  · intro subject hreturned
    obtain ⟨hne, hbefore⟩ := hother hreturned
    have hsame := @roles_apply_of_ne state.store.db _ _ hne now change
    have hcons {dbs : List Database}
        (hdbs : ∀ db ∈ dbs, db.roles subject = state.store.db.roles subject) :
        ∀ db ∈ change.apply subjectId now state.store.db :: dbs,
          db.roles subject = (change.apply subjectId now state.store.db).roles subject := by
      intro db hdb
      rcases List.mem_cons.mp hdb with rfl | hdb
      · rfl
      · rw [hsame, hdbs db hdb]
    obtain ⟨hinvalidated, hsince⟩ := h.settled subject hbefore
    exact ⟨hcons hinvalidated, hcons hsince⟩
  · intro other subject query stage htask
    have hbefore : subject ≠ subjectId ∧
        state.tasks other = some (.query subject query stage true) := by
      simp only [State.commit] at htask
      split at htask
      · cases htask
      · obtain ⟨task, hget, heq⟩ := Option.map_eq_some_iff.mp htask
        cases task with
        | change _ _ _ => cases heq
        | query _ _ _ counts =>
            simp only [Task.query.injEq, Bool.and_eq_true, decide_eq_true_eq] at heq
            obtain ⟨rfl, rfl, rfl, rfl, hne⟩ := heq
            exact ⟨hne, hget⟩
    obtain ⟨hne, hget⟩ := hbefore
    obtain ⟨hreturned, hknown⟩ := h.known other subject query stage hget
    have hmore {result : Bool} : (∃ db ∈ state.since subject, db.isEmpty = result) →
        ∃ db ∈ (state.commit thread subjectId change now).since subject, db.isEmpty = result :=
      fun ⟨db, hdb, hempty⟩ => ⟨db, List.mem_cons_of_mem _ hdb, hempty⟩
    refine ⟨by simpa [State.commit, Function.update_of_ne hne] using hreturned, ?_⟩
    cases stage with
    | checkEmpty => trivial
    | countGrants => trivial
    | storeEmpty result => exact hmore hknown
    | checkRoles => exact fun permission hquery => hmore (hknown permission hquery)
    | selectRoles => exact fun permission hquery => hmore (hknown permission hquery)
    | storeRoles roles =>
        exact ⟨hknown.1.trans (roles_apply_of_ne hne now change).symm,
          fun permission hquery => hmore (hknown.2 permission hquery)⟩

theorem Fresh.invalidate (h : Fresh state) : Fresh (state.invalidate thread subjectId) := by
  have hother {subject : String} (hne : subject ≠ subjectId) :
      (state.invalidate thread subjectId).unreturned subject = state.unreturned subject ∧
        (state.invalidate thread subjectId).since subject = state.since subject := by
    simp only [State.invalidate]
    split <;> simp [Function.update_of_ne hne]
  -- a query of the subject only counts when its last change has returned already
  have hsince {subject : String} (hreturned : state.unreturned subject = none) :
      (state.invalidate thread subjectId).unreturned subject = none ∧
        (state.invalidate thread subjectId).since subject = state.since subject := by
    by_cases hne : subject = subjectId
    · subst hne
      simp [State.invalidate, hreturned]
    · exact ⟨(hother hne).1.trans hreturned, (hother hne).2⟩
  refine ⟨?_, nofun, ?_, List.mem_singleton.mpr rfl, ?_, ?_, h.answered⟩
  · intro subject roles fetchedAt hlookup
    obtain ⟨hne, hbefore⟩ := lookup_pop hlookup
    obtain ⟨db, hdb, hroles⟩ := h.roles subject roles fetchedAt hbefore
    exact ⟨db, by simpa [State.invalidate, Function.update_of_ne hne] using hdb, hroles⟩
  · intro subject hreturned
    by_cases hne : subject = subjectId
    · subst hne
      refine ⟨fun db hdb => ?_, fun db hdb => ?_⟩
      · simp only [State.invalidate, Function.update_self, List.mem_singleton] at hdb
        rw [hdb]
        rfl
      · by_cases hlast : state.unreturned subject = some thread
        · simp only [State.invalidate, hlast, if_true, Function.update_self,
            List.mem_singleton] at hdb
          rw [hdb]
          rfl
        · simp only [State.invalidate, hlast, if_false] at hreturned hdb
          exact (h.settled subject hreturned).2 db hdb
    · rw [(hother hne).1] at hreturned
      obtain ⟨hinvalidated, hsince⟩ := h.settled subject hreturned
      refine ⟨?_, by rw [(hother hne).2]; exact hsince⟩
      intro db hdb
      exact hinvalidated db (by simpa [State.invalidate, Function.update_of_ne hne] using hdb)
  · intro subject
    rw [show (state.invalidate thread subjectId).sinceAnyInvalidated = [state.store.db] from rfl,
      List.cons_subset]
    refine ⟨?_, List.nil_subset _⟩
    simp only [State.invalidate]
    split
    · by_cases hne : subject = subjectId
      · subst hne
        simp
      · simpa [Function.update_of_ne hne] using h.within subject h.here
    · exact h.within subject h.here
  · intro other subject query stage htask
    have hne : other ≠ thread := by
      rintro rfl
      simp [State.invalidate] at htask
    have hbefore : state.tasks other = some (.query subject query stage true) := by
      simpa [State.invalidate, Function.update_of_ne hne] using htask
    obtain ⟨hreturned, hknown⟩ := h.known other subject query stage hbefore
    refine ⟨(hsince hreturned).1, ?_⟩
    cases stage <;> simp only [Known, (hsince hreturned).2] <;> exact hknown

theorem Fresh.step {next : State} {event : Event} (h : Fresh state)
    (hguard : FillsFresh state event) (he : Rbac.step state event = some next) : Fresh next := by
  cases event with
  | begins thread request =>
      simp only [Rbac.step] at he
      split at he
      · obtain rfl := Option.some.inj he
        refine h.setTask fun subjectId query stage heq => ?_
        cases request with
        | change subject change => cases heq
        | query subject asked =>
            simp only [State.start, Option.some.injEq, Task.query.injEq,
              Option.isNone_iff_eq_none] at heq
            obtain ⟨rfl, rfl, rfl, hreturned⟩ := heq
            refine ⟨hreturned, ?_⟩
            cases asked with
            | hasPermission permission => trivial
            | getRoles => exact fun _ => nofun
            | isEmpty => trivial
      · cases he
  | proceeds thread now =>
      obtain ⟨task, htask, rfl⟩ := Option.map_eq_some_iff.mp he
      cases task with
      | change subjectId change committed =>
          cases committed with
          | false => exact h.commit change
          | true => exact h.invalidate
      | query subjectId query stage counts => exact h.proceedQuery htask (hguard _ htask)
  | raises thread =>
      simp only [Rbac.step] at he
      split at he
      · cases he
      · split at he
        · obtain rfl := Option.some.inj he
          exact h.setTask nofun
        · cases he

end Steps

-- As long as no fill of a cache is older than its last invalidation, every has_permission call
-- that begins after the last change of its subject has returned answers by what the database
-- has held since.
theorem revocationTakesEffect_of_fillsFresh (db : Database) {events : List Event}
    (hguard : Along step FillsFresh (initial db) events) :
    Always step RevocationTakesEffect (initial db) events :=
  hguard.always Fresh (fun _ _ _ h hguard he => h.step hguard he) (fun _ h => h.answered)
    (fresh_initial db)

def staff : Database :=
  [⟨"mallory", "admin", none, 0⟩, ⟨"root", "admin", none, 0⟩]

def mayGrant (thread : Nat) : Event :=
  .begins thread (.query "mallory" (.hasPermission .rbacGrant))

def revokes (thread : Nat) : Event :=
  .begins thread (.change "mallory" (.revoke .admin))

-- The roles are read before the revocation, and cached after it has returned.
theorem revoked_admin_may_grant :
    ¬ Always step RevocationTakesEffect (initial staff)
      ([mayGrant 1, .proceeds 1 1, .proceeds 1 1, .proceeds 1 1, .proceeds 1 1, .proceeds 1 1,
        revokes 2, .proceeds 2 2, .proceeds 2 2, .proceeds 1 3,
        mayGrant 3, .proceeds 3 4, .proceeds 3 4, .proceeds 3 4, .proceeds 3 4]) := by
  decide +kernel

theorem revoked_admin_refused :
    Always step RevocationTakesEffect (initial staff)
      ([mayGrant 1, .proceeds 1 1, .proceeds 1 1, .proceeds 1 1, .proceeds 1 1, .proceeds 1 1,
        .proceeds 1 1, revokes 2, .proceeds 2 2, .proceeds 2 2,
        mayGrant 3, .proceeds 3 4, .proceeds 3 4, .proceeds 3 4, .proceeds 3 4, .proceeds 3 4,
        .proceeds 3 4]) :=
  revocationTakesEffect_of_fillsFresh staff (by decide +kernel)

end EvoClaw.Rbac
