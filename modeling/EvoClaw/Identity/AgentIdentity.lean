import EvoClaw.Json
import EvoClaw.Keyed
import EvoClaw.Text.Delimited
import Mathlib.Algebra.Order.Ring.Rat
import Mathlib.Data.Set.Function

-- The store of host/identity/agent_identity.py. The JSON columns are held decoded.
namespace EvoClaw.Identity.Agents

-- hashlib.sha256(...).hexdigest()[:16] and str.lower
structure Runtime where
  digest : List Char → String
  lower : List Char → List Char

structure Owner where
  name : List Char
  project : List Char
  channel : List Char
deriving DecidableEq

structure AgentIdentity where
  agentId : String
  owner : Owner
  skills : List String := []
  profile : Payload := []
  historySummary : String := ""
  genomeRef : String := ""
  lastActive : ℚ
  createdAt : ℚ
  messageCount : Nat := 0

namespace Owner

variable (runtime : Runtime) (owner : Owner)

def lowered : Owner :=
  ⟨runtime.lower owner.name, runtime.lower owner.project, runtime.lower owner.channel⟩

def raw : List Char :=
  runtime.lower owner.name ++ ':' :: runtime.lower owner.project ++
    ':' :: runtime.lower owner.channel

def makeId : String := runtime.digest (owner.raw runtime)

end Owner

-- The rows of agent_identities, whose key is the id.
structure AgentTable where
  rows : List AgentIdentity
  distinct : (rows.map AgentIdentity.agentId).Nodup

namespace AgentTable

variable (runtime : Runtime) (table : AgentTable)

def empty : AgentTable := ⟨[], List.nodup_nil⟩

-- SELECT ... WHERE agent_id = ?
def find? (agentId : String) : Option AgentIdentity :=
  table.rows.find? fun row => row.agentId = agentId

-- INSERT OR IGNORE
def insertOrIgnore (row : AgentIdentity) : AgentTable :=
  if h : row.agentId ∈ table.rows.map AgentIdentity.agentId then table
  else ⟨table.rows ++ [row], by
    rw [List.map_append]
    exact table.distinct.append (List.nodup_singleton _) (by simpa using h)⟩

-- UPDATE ... SET ... WHERE agent_id = ?
def update (agentId : String) (f : AgentIdentity → AgentIdentity)
    (hkey : ∀ row, (f row).agentId = row.agentId) : AgentTable where
  rows := table.rows.map fun row => if row.agentId = agentId then f row else row
  distinct := by
    have hkeys : (fun row => (if row.agentId = agentId then f row else row).agentId) =
        AgentIdentity.agentId := by
      funext row
      split
      · exact hkey row
      · rfl
    rw [List.map_map, Function.comp_def, hkeys]
    exact table.distinct

-- The row that is not there after the insertion would raise a TypeError.
def getOrCreate (owner : Owner) (now : ℚ) : Option AgentIdentity × AgentTable :=
  let agentId := owner.makeId runtime
  match table.find? agentId with
  | some row => (some row, table)
  | none =>
      let inserted := table.insertOrIgnore { agentId, owner, lastActive := now, createdAt := now }
      (inserted.find? agentId, inserted)

def updateSummary (agentId summary : String) (now : ℚ) : AgentTable :=
  table.update agentId (fun row => { row with historySummary := summary, lastActive := now })
    fun _ => rfl

def addSkill (agentId skill : String) : AgentTable :=
  match table.find? agentId with
  | none => table
  | some row =>
      if skill ∈ row.skills then table
      else table.update agentId (fun other => { other with skills := row.skills ++ [skill] })
        fun _ => rfl

def incrementMessageCount (agentId : String) (now : ℚ) : AgentTable :=
  table.update agentId
    (fun row => { row with messageCount := row.messageCount + 1, lastActive := now }) fun _ => rfl

-- dict.update
def merge (profile updates : Payload) : Payload :=
  updates.foldl (fun dict entry => Keyed.amend entry.2 dict entry.1 fun _ => entry.2) profile

def updateProfile (agentId : String) (updates : Payload) : AgentTable :=
  match table.find? agentId with
  | none => table
  | some row =>
      table.update agentId (fun other => { other with profile := merge row.profile updates })
        fun _ => rfl

end AgentTable

inductive Call where
  | getOrCreate (owner : Owner) (now : ℚ)
  | addSkill (agentId skill : String)
  | updateProfile (agentId : String) (updates : Payload)
  | updateSummary (agentId summary : String) (now : ℚ)
  | incrementMessageCount (agentId : String) (now : ℚ)

namespace AgentTable

-- Each call holds the lock from its first statement to its last.
def apply (runtime : Runtime) (table : AgentTable) : Call → AgentTable
  | .getOrCreate owner now => (table.getOrCreate runtime owner now).2
  | .addSkill agentId skill => table.addSkill agentId skill
  | .updateProfile agentId updates => table.updateProfile agentId updates
  | .updateSummary agentId summary now => table.updateSummary agentId summary now
  | .incrementMessageCount agentId now => table.incrementMessageCount agentId now

def run (runtime : Runtime) (calls : List Call) : AgentTable :=
  calls.foldl (apply runtime) empty

section Rows

variable {table : AgentTable} {agentId other : String}

theorem find?_insertOrIgnore {row : AgentIdentity} (hnone : table.find? row.agentId = none) :
    (table.insertOrIgnore row).find? other =
      if other = row.agentId then some row else table.find? other := by
  have hfresh : row.agentId ∉ table.rows.map AgentIdentity.agentId :=
    Keyed.find?_eq_none_iff.mp hnone
  unfold insertOrIgnore
  rw [dif_neg hfresh]
  exact Keyed.find?_insert hfresh

theorem find?_update {f : AgentIdentity → AgentIdentity}
    (hkey : ∀ row, (f row).agentId = row.agentId) :
    (table.update agentId f hkey).find? other =
      if other = agentId then (table.find? agentId).map f else table.find? other := by
  refine (Keyed.find?_update hkey agentId).trans ?_
  split
  · next heq => rw [← heq, find?]
  · rfl

-- Where the row is left as it is.
theorem find?_same {found : Option AgentIdentity} (hfind : table.find? agentId = found) :
    table.find? other = if other = agentId then found else table.find? other := by
  split
  · next heq => rw [heq, hfind]
  · rfl

end Rows

end AgentTable

namespace Call

variable (runtime : Runtime)

-- The row that a call is about.
def agentId : Call → String
  | getOrCreate owner _ => owner.makeId runtime
  | addSkill agentId _ => agentId
  | updateProfile agentId _ => agentId
  | updateSummary agentId _ _ => agentId
  | incrementMessageCount agentId _ => agentId

-- What becomes of that row.
def effect (call : Call) (row : Option AgentIdentity) : Option AgentIdentity :=
  match call with
  | getOrCreate owner now => some <| row.getD
      { agentId := owner.makeId runtime, owner, lastActive := now, createdAt := now }
  | addSkill _ skill => row.map fun row =>
      if skill ∈ row.skills then row else { row with skills := row.skills ++ [skill] }
  | updateProfile _ updates => row.map fun row =>
      { row with profile := AgentTable.merge row.profile updates }
  | updateSummary _ summary now => row.map fun row =>
      { row with historySummary := summary, lastActive := now }
  | incrementMessageCount _ now => row.map fun row =>
      { row with messageCount := row.messageCount + 1, lastActive := now }

end Call

section Spec

variable {runtime : Runtime} {table : AgentTable} {agentId id : String}

theorem find?_getOrCreate (owner : Owner) (now : ℚ) :
    (table.getOrCreate runtime owner now).2.find? id =
      if id = owner.makeId runtime then
        (Call.getOrCreate owner now).effect runtime (table.find? (owner.makeId runtime))
      else table.find? id := by
  cases hfind : table.find? (owner.makeId runtime) with
  | some row =>
      simp only [AgentTable.getOrCreate, hfind]
      exact AgentTable.find?_same hfind
  | none =>
      simp only [AgentTable.getOrCreate, hfind]
      exact AgentTable.find?_insertOrIgnore hfind

theorem find?_addSkill (skill : String) :
    (table.addSkill agentId skill).find? id =
      if id = agentId then (Call.addSkill agentId skill).effect runtime (table.find? agentId)
      else table.find? id := by
  cases hfind : table.find? agentId with
  | none =>
      simp only [AgentTable.addSkill, hfind]
      exact AgentTable.find?_same hfind
  | some row =>
      simp only [AgentTable.addSkill, hfind, Call.effect, Option.map_some]
      by_cases hskill : skill ∈ row.skills
      · rw [if_pos hskill, if_pos hskill]
        exact AgentTable.find?_same hfind
      · rw [if_neg hskill, if_neg hskill, AgentTable.find?_update, hfind, Option.map_some]

theorem find?_updateProfile (updates : Payload) :
    (table.updateProfile agentId updates).find? id =
      if id = agentId then (Call.updateProfile agentId updates).effect runtime (table.find? agentId)
      else table.find? id := by
  cases hfind : table.find? agentId with
  | none =>
      simp only [AgentTable.updateProfile, hfind]
      exact AgentTable.find?_same hfind
  | some row =>
      simp only [AgentTable.updateProfile, hfind, Call.effect, Option.map_some]
      rw [AgentTable.find?_update, hfind, Option.map_some]

-- A call changes the row with its own id, and no other one.
theorem find?_apply (call : Call) :
    (table.apply runtime call).find? id =
      if id = call.agentId runtime then
        call.effect runtime (table.find? (call.agentId runtime))
      else table.find? id := by
  cases call with
  | getOrCreate owner now => exact find?_getOrCreate owner now
  | addSkill agentId skill => exact find?_addSkill skill
  | updateProfile agentId updates => exact find?_updateProfile updates
  | updateSummary | incrementMessageCount =>
      refine AgentTable.find?_update ?_
      exact fun _ => rfl

-- So the row with an id is what the calls with this id have made of it.
theorem find?_foldl (calls : List Call) :
    (calls.foldl (AgentTable.apply runtime) table).find? id =
      (calls.filter fun call => id = call.agentId runtime).foldl
        (fun row call => call.effect runtime row) (table.find? id) := by
  induction calls generalizing table with
  | nil => rfl
  | cons call calls ih =>
      rw [List.foldl_cons, ih, find?_apply]
      by_cases hid : id = call.agentId runtime
      · rw [if_pos hid, ← hid, List.filter_cons_of_pos (by simpa using hid), List.foldl_cons]
      · rw [if_neg hid, List.filter_cons_of_neg (by simpa using hid)]

-- What get_or_create returns is the row that it leaves.
theorem getOrCreate_returned (owner : Owner) (now : ℚ) :
    (table.getOrCreate runtime owner now).1 =
      (table.getOrCreate runtime owner now).2.find? (owner.makeId runtime) := by
  cases hfind : table.find? (owner.makeId runtime) with
  | some row => simp only [AgentTable.getOrCreate, hfind]
  | none => simp only [AgentTable.getOrCreate, hfind]

theorem getOrCreate_eq_effect (owner : Owner) (now : ℚ) :
    (table.getOrCreate runtime owner now).1 =
      (Call.getOrCreate owner now).effect runtime (table.find? (owner.makeId runtime)) := by
  rw [getOrCreate_returned, find?_getOrCreate, if_pos rfl]

-- No call takes a row away, or gives it to another owner.
theorem effect_owner (call : Call) (row : AgentIdentity) :
    ∃ after, call.effect runtime (some row) = some after ∧ after.owner = row.owner := by
  cases call with
  | addSkill agentId skill =>
      refine ⟨_, rfl, ?_⟩
      dsimp only
      split <;> rfl
  | getOrCreate | updateProfile | updateSummary | incrementMessageCount => exact ⟨_, rfl, rfl⟩

-- Only get_or_create makes a row, for the one that asks for it.
theorem effect_none {call : Call} {row : AgentIdentity} (h : call.effect runtime none = some row) :
    ∃ now, call = .getOrCreate row.owner now := by
  cases call with
  | getOrCreate owner now =>
      cases h
      exact ⟨now, rfl⟩
  | addSkill | updateProfile | updateSummary | incrementMessageCount => cases h

theorem foldl_effect_owner (calls : List Call) (row : AgentIdentity) :
    ∃ after, calls.foldl (fun row call => call.effect runtime row) (some row) = some after ∧
      after.owner = row.owner := by
  induction calls generalizing row with
  | nil => exact ⟨row, rfl, rfl⟩
  | cons call calls ih =>
      obtain ⟨next, hnext, howner⟩ := @effect_owner runtime call row
      obtain ⟨after, hafter, hsame⟩ := ih next
      rw [List.foldl_cons, hnext]
      exact ⟨after, hafter, hsame.trans howner⟩

-- The owner of a row is one that has asked for it.
theorem foldl_effect_none {calls : List Call} {row : AgentIdentity}
    (h : calls.foldl (fun row call => call.effect runtime row) none = some row) :
    ∃ now, Call.getOrCreate row.owner now ∈ calls := by
  induction calls with
  | nil => cases h
  | cons call calls ih =>
      rw [List.foldl_cons] at h
      cases heffect : call.effect runtime none with
      | none =>
          rw [heffect] at h
          obtain ⟨now, hmem⟩ := ih h
          exact ⟨now, List.mem_cons_of_mem call hmem⟩
      | some first =>
          obtain ⟨now, rfl⟩ := effect_none heffect
          obtain ⟨after, hafter, howner⟩ := @foldl_effect_owner runtime calls first
          rw [heffect, hafter] at h
          rw [← Option.some.inj h, howner]
          exact ⟨now, List.mem_cons_self⟩

end Spec

-- The calls for an owner: those that name it up to letter case, and those with its id.
def Owner.Concerns (runtime : Runtime) (owner : Owner) : Call → Prop
  | .getOrCreate other _ => other.lowered runtime = owner.lowered runtime
  | .addSkill agentId _ => agentId = owner.makeId runtime
  | .updateProfile agentId _ => agentId = owner.makeId runtime
  | .updateSummary agentId _ _ => agentId = owner.makeId runtime
  | .incrementMessageCount agentId _ => agentId = owner.makeId runtime

instance (runtime : Runtime) (owner : Owner) : DecidablePred (owner.Concerns runtime)
  | .getOrCreate other _ => inferInstanceAs (Decidable (other.lowered runtime = _))
  | .addSkill agentId _ => inferInstanceAs (Decidable (agentId = _))
  | .updateProfile agentId _ => inferInstanceAs (Decidable (agentId = _))
  | .updateSummary agentId _ _ => inferInstanceAs (Decidable (agentId = _))
  | .incrementMessageCount agentId _ => inferInstanceAs (Decidable (agentId = _))

-- Every get_or_create returns an identity of the one that asks for it, with nothing in it
-- that the calls for other owners have written.
def Separate (runtime : Runtime) (calls : List Call) : Prop :=
  ∀ before owner now behind, calls = before ++ .getOrCreate owner now :: behind →
    ∃ identity,
      ((AgentTable.run runtime before).getOrCreate runtime owner now).1 = some identity ∧
      identity.owner.lowered runtime = owner.lowered runtime ∧
      ((AgentTable.run runtime (before.filter (owner.Concerns runtime))).getOrCreate runtime owner
        now).1 = some identity

-- The owners that are asked for.
def owners (calls : List Call) : Set Owner :=
  { owner | ∃ now, Call.getOrCreate owner now ∈ calls }

-- No two owners of the run have the same joined text.
def NoClash (runtime : Runtime) (calls : List Call) : Prop :=
  ∀ owner ∈ owners calls, ∀ other ∈ owners calls, owner.raw runtime = other.raw runtime →
    owner.lowered runtime = other.lowered runtime

section Separation

variable {runtime : Runtime} {calls before behind : List Call} {owner other : Owner} {now : ℚ}

theorem raw_of_lowered (h : owner.lowered runtime = other.lowered runtime) :
    owner.raw runtime = other.raw runtime := by
  simp only [Owner.lowered, Owner.mk.injEq] at h
  unfold Owner.raw
  rw [h.1, h.2.1, h.2.2]

-- A name and a project without the separator in them can be told apart.
theorem lowered_of_raw (hname : ':' ∉ runtime.lower owner.name)
    (hproject : ':' ∉ runtime.lower owner.project) (hname' : ':' ∉ runtime.lower other.name)
    (hproject' : ':' ∉ runtime.lower other.project)
    (h : owner.raw runtime = other.raw runtime) :
    owner.lowered runtime = other.lowered runtime := by
  unfold Owner.raw at h
  rw [List.append_assoc, List.append_assoc, List.cons_append, List.cons_append] at h
  obtain ⟨hnames, hrest⟩ := Text.parts_of_notMem hname hname' h
  obtain ⟨hprojects, hchannels⟩ := Text.parts_of_notMem hproject hproject' hrest
  unfold Owner.lowered
  rw [hnames, hprojects, hchannels]

theorem noClash_of_no_colon (h : ∀ owner ∈ owners calls,
    ':' ∉ runtime.lower owner.name ∧ ':' ∉ runtime.lower owner.project) : NoClash runtime calls :=
  fun owner howner other hother hraw =>
    lowered_of_raw (h owner howner).1 (h owner howner).2 (h other hother).1 (h other hother).2 hraw

-- The identity that is returned has the owner that the row has at the end of the run.
theorem returned_owner {identity : AgentIdentity}
    (hcalls : calls = before ++ .getOrCreate owner now :: behind)
    (h : ((AgentTable.run runtime before).getOrCreate runtime owner now).1 = some identity) :
    ∃ last, (AgentTable.run runtime calls).find? (owner.makeId runtime) = some last ∧
      last.owner = identity.owner := by
  subst hcalls
  rw [getOrCreate_returned] at h
  unfold AgentTable.run
  rw [List.foldl_append, List.foldl_cons, find?_foldl]
  have hstart : (AgentTable.apply runtime (before.foldl (AgentTable.apply runtime) .empty)
      (.getOrCreate owner now)).find? (owner.makeId runtime) = some identity := h
  rw [hstart]
  exact foldl_effect_owner _ identity

theorem NoClash.of_separate (h : Separate runtime calls) : NoClash runtime calls := by
  rintro owner ⟨now, hmem⟩ other ⟨later, hmem'⟩ hraw
  obtain ⟨before, behind, hcalls⟩ := List.append_of_mem hmem
  obtain ⟨before', behind', hcalls'⟩ := List.append_of_mem hmem'
  obtain ⟨identity, hreturned, hsame, -⟩ := h before owner now behind hcalls
  obtain ⟨identity', hreturned', hsame', -⟩ := h before' other later behind' hcalls'
  obtain ⟨last, hlast, howner⟩ := returned_owner hcalls hreturned
  obtain ⟨last', hlast', howner'⟩ := returned_owner hcalls' hreturned'
  have hid : owner.makeId runtime = other.makeId runtime := congrArg runtime.digest hraw
  rw [hid, hlast'] at hlast
  cases hlast
  rw [← hsame, ← howner, howner', hsame']

-- Then the calls with the id of an owner are the calls for it.
theorem NoClash.concerns_iff (h : NoClash runtime calls)
    (hdigest : Set.InjOn runtime.digest (Owner.raw runtime '' owners calls))
    (howner : owner ∈ owners calls) {call : Call} (hmem : call ∈ calls) :
    owner.Concerns runtime call ↔ owner.makeId runtime = call.agentId runtime := by
  cases call with
  | getOrCreate other now =>
      have hother : other ∈ owners calls := ⟨now, hmem⟩
      refine ⟨fun hsame => ?_, fun hid => ?_⟩
      · exact congrArg runtime.digest (raw_of_lowered hsame).symm
      · have hraw := hdigest ⟨owner, howner, rfl⟩ ⟨other, hother, rfl⟩ hid
        exact h other hother owner howner hraw.symm
  | addSkill | updateProfile | updateSummary | incrementMessageCount => exact eq_comm

theorem NoClash.separate (h : NoClash runtime calls)
    (hdigest : Set.InjOn runtime.digest (Owner.raw runtime '' owners calls)) :
    Separate runtime calls := by
  intro before owner now behind hcalls
  have hbefore : before ⊆ calls := hcalls ▸ List.subset_append_left _ _
  have howner : owner ∈ owners calls := ⟨now, hcalls ▸ by simp⟩
  have hown : ∀ call ∈ before,
      decide (owner.Concerns runtime call) = decide (owner.makeId runtime = call.agentId runtime) :=
    fun call hmem => decide_eq_decide.mpr (h.concerns_iff hdigest howner (hbefore hmem))
  rw [getOrCreate_eq_effect, getOrCreate_eq_effect, AgentTable.run, AgentTable.run, find?_foldl,
    find?_foldl, List.filter_congr hown, List.filter_filter]
  simp only [Bool.and_self]
  generalize hfound :
    (before.filter fun call => owner.makeId runtime = call.agentId runtime).foldl
      (fun row call => call.effect runtime row)
      (AgentTable.empty.find? (owner.makeId runtime)) = found
  cases found with
  | none => exact ⟨_, rfl, rfl, rfl⟩
  | some row =>
      obtain ⟨first, hfirst⟩ := foldl_effect_none hfound
      obtain ⟨hmem, hid⟩ := List.mem_filter.mp hfirst
      have hraw := hdigest ⟨owner, howner, rfl⟩ ⟨row.owner, ⟨first, hbefore hmem⟩, rfl⟩
        (of_decide_eq_true hid)
      exact ⟨row, rfl, (h owner howner row.owner ⟨first, hbefore hmem⟩ hraw).symm, rfl⟩

end Separation

theorem separate_iff_noClash (runtime : Runtime) (calls : List Call)
    (hdigest : Set.InjOn runtime.digest (Owner.raw runtime '' owners calls)) :
    Separate runtime calls ↔ NoClash runtime calls :=
  ⟨NoClash.of_separate, fun h => h.separate hdigest⟩

-- An id that is the text itself.
def plainIds : Runtime := ⟨String.ofList, List.map Char.toLower⟩

def colonInName : Owner := ⟨"a:b".toList, "c".toList, []⟩

def colonInProject : Owner := ⟨"a".toList, "b:c".toList, []⟩

theorem separate_iff_noClash_colons :
    Separate plainIds [.getOrCreate colonInName 1, .getOrCreate colonInProject 2] ↔
      NoClash plainIds [.getOrCreate colonInName 1, .getOrCreate colonInProject 2] :=
  separate_iff_noClash _ _ fun _ _ _ _ => String.ofList_injective

-- Both are joined to "a:b:c:".
theorem colons_clash :
    ¬ Separate plainIds [.getOrCreate colonInName 1, .getOrCreate colonInProject 2] := by
  intro h
  obtain ⟨identity, hreturned, hsame, -⟩ := h [.getOrCreate colonInName 1] colonInProject 2 [] rfl
  have hfirst : ((AgentTable.run plainIds [.getOrCreate colonInName 1]).getOrCreate plainIds
      colonInProject 2).1.map AgentIdentity.owner = some colonInName := by decide
  rw [hreturned] at hfirst
  rw [Option.some.inj hfirst] at hsame
  exact absurd hsame (by decide)

end EvoClaw.Identity.Agents
