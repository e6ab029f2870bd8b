import EvoClaw.Json
import Mathlib.Algebra.Order.Ring.Rat
import Mathlib.Data.List.Sort
import Mathlib.Data.Rat.Defs

-- The triple store of host/memory/knowledge_graph.py.
namespace EvoClaw.KnowledgeGraph

structure Entity where
  id : String
  name : String
  entityType : String
  jid : String
  createdAt : ℚ
deriving DecidableEq

structure Triple where
  id : String
  subjectId : String
  predicate : String
  object : String
  jid : String
  validFrom : ℚ
  validTo : Option ℚ
  confidence : ℚ
  sourceMemoryId : Option String
deriving DecidableEq

-- kg_entities and kg_triples. Their ids are primary keys.
structure Graph where
  entities : List Entity
  triples : List Triple
  entity_ids : (entities.map Entity.id).Nodup
  triple_ids : (triples.map Triple.id).Nodup

def Graph.empty : Graph where
  entities := []
  triples := []
  entity_ids := List.nodup_nil
  triple_ids := List.nodup_nil

-- sha1(text).hexdigest()[:16] and str.lower.
structure Host where
  digest : String → String
  lower : String → String

-- What time.time() answers one after the other in a call of add_triple.
structure Clock where
  created : ℚ
  now : ℚ
  checked : ℚ
  created_le : created ≤ now
  le_checked : now ≤ checked

-- A call of add_triple.
structure Call where
  subject : String
  predicate : String
  object : String
  jid : String
  confidence : ℚ := 1
  sourceMemoryId : Option String := none
  clock : Clock

-- Predicates where a new value closes the old ones.
def HARD_UPDATE_PREDICATES : List String :=
  ["is", "works_at", "located_in", "belongs_to", "has_role", "uses_tool"]

-- Predicates where old and new values stand side by side.
def OPINION_PREDICATES : List String :=
  ["thinks", "believes", "feels", "considers"]

variable (host : Host)

def entityId (name jid : String) : String :=
  host.digest (jid ++ ":" ++ String.ofList (strip (host.lower name).toList))

def tripleId (subjectId predicate object : String) : String :=
  host.digest (subjectId ++ ":" ++ predicate ++ ":" ++ object)

-- INSERT OR IGNORE INTO kg_entities
def Graph.insertEntity (graph : Graph) (entity : Entity) : Graph :=
  if h : entity.id ∈ graph.entities.map Entity.id then graph
  else
    { graph with
      entities := graph.entities ++ [entity]
      entity_ids := by
        rw [List.map_append, List.map_singleton, List.nodup_append_comm]
        exact List.nodup_cons.mpr ⟨h, graph.entity_ids⟩ }

-- INSERT OR IGNORE INTO kg_triples
def Graph.insertTriple (graph : Graph) (triple : Triple) : Graph :=
  if h : triple.id ∈ graph.triples.map Triple.id then graph
  else
    { graph with
      triples := graph.triples ++ [triple]
      triple_ids := by
        rw [List.map_append, List.map_singleton, List.nodup_append_comm]
        exact List.nodup_cons.mpr ⟨h, graph.triple_ids⟩ }

-- The graph after the call, and the entity's id.
def addEntity (graph : Graph) (name entityType jid : String) (createdAt : ℚ) : Graph × String :=
  let eid := entityId host name jid
  (graph.insertEntity
    { id := eid, name := String.ofList (strip name.toList), entityType := entityType
      jid := jid, createdAt := createdAt }, eid)

-- `value or time.time()`
def orNow (value : Option ℚ) (now : ℚ) : ℚ :=
  match value with
  | none => now
  | some value => if value = 0 then now else value

def Triple.close (closedAt : ℚ) (triple : Triple) : Triple :=
  { triple with validTo := some closedAt }

-- UPDATE kg_triples SET valid_to=? WHERE id=?
def invalidate (graph : Graph) (tripleId : String) (validTo : Option ℚ) (now : ℚ) : Graph :=
  { graph with
    triples := graph.triples.map fun triple =>
      if triple.id = tripleId then triple.close (orNow validTo now) else triple
    triple_ids := by
      rw [List.map_map]
      refine (List.map_congr_left fun triple _ => ?_) ▸ graph.triple_ids
      dsimp only [Function.comp_apply]
      split <;> rfl }

-- The open triples with the same subject and predicate and another object.
def checkContradiction (graph : Graph) (subject predicate object jid : String) (now : ℚ) :
    List Triple :=
  graph.triples.filter fun triple =>
    triple.subjectId = entityId host subject jid ∧ triple.predicate = predicate ∧
      triple.jid = jid ∧ triple.object ≠ object ∧ triple.validTo = none ∧ triple.validFrom ≤ now

def isOpinion (predicate : String) : Bool :=
  host.lower predicate ∈ OPINION_PREDICATES

-- Whether a new value of the predicate closes the old ones.
def supersedes (predicate : String) : Bool :=
  host.lower predicate ∈ HARD_UPDATE_PREDICATES ∨ isOpinion host predicate = false

def addTriple (graph : Graph) (call : Call) : Graph :=
  let (graph, subjectId) :=
    addEntity host graph call.subject "general" call.jid call.clock.created
  let conflicts := checkContradiction host graph call.subject call.predicate call.object call.jid
    call.clock.checked
  let graph :=
    if conflicts ≠ [] ∧ supersedes host call.predicate then
      conflicts.foldl (fun graph conflict =>
        invalidate graph conflict.id (some call.clock.now) call.clock.checked) graph
    else graph
  graph.insertTriple
    { id := tripleId host subjectId call.predicate call.object
      subjectId := subjectId
      predicate := call.predicate
      object := call.object
      jid := call.jid
      validFrom := call.clock.now
      validTo := none
      confidence := call.confidence
      sourceMemoryId := call.sourceMemoryId }

def Triple.activeAt (ts : ℚ) (triple : Triple) : Bool :=
  triple.validFrom ≤ ts ∧ ∀ validTo ∈ triple.validTo, ts < validTo

-- The latest triples first.
def queryEntity (graph : Graph) (name jid : String) (asOf : Option ℚ) (now : ℚ) : List Triple :=
  (graph.triples.filter fun triple =>
    triple.subjectId = entityId host name jid ∧ triple.jid = jid ∧
      triple.activeAt (orNow asOf now)).insertionSort fun a b => b.validFrom ≤ a.validFrom

-- The facts that query_entity reports.
def facts (graph : Graph) (name jid : String) (asOf : Option ℚ) (now : ℚ) :
    List (String × String) :=
  (queryEntity host graph name jid asOf now).map fun triple => (triple.predicate, triple.object)

end EvoClaw.KnowledgeGraph
