import EvoClaw.Json
import EvoClaw.Posix.Path
import EvoClaw.Ranking

namespace EvoClaw.MemoryBus

open Ranking

-- A row of shared_memories. The columns are TEXT: any scope may have been stored.
structure SharedRow where
  id : String
  agentId : String
  project : String
  scope : String
  content : String
  ns : String
  topicTag : String
  createdAt : ℚ
deriving DecidableEq

-- A row of vec_memories that has an embedding.
structure VecRow where
  memoryId : String
  agentId : String
  scope : String
  project : String
  content : String
  createdAt : ℚ
deriving DecidableEq

-- The ids are primary keys.
structure Stores where
  shared : List SharedRow
  vec : List VecRow
  vecAvailable : Bool
  shared_ids : (shared.map (·.id)).Nodup
  vec_ids : (vec.map (·.memoryId)).Nodup

structure Call where
  query : String
  agentId : String
  k : Int := 5
  project : String := ""
  includeSources : List String := ["shared", "vector"]
  ns : String := ""
  topicTag : String := ""

-- The scope test that SharedMemoryStore.search adds to its MATCH.
def SharedRow.accessible (call : Call) (row : SharedRow) : Bool :=
  row.scope = "shared" ∨ (row.scope = "private" ∧ row.agentId = call.agentId) ∨
    (row.scope = "project" ∧ row.project = call.project)

-- PalaceStore.search: only the filters that are not empty, and no scope test.
def SharedRow.tagged (call : Call) (row : SharedRow) : Bool :=
  (call.ns = "" ∨ row.ns = call.ns) ∧ (call.topicTag = "" ∨ row.topicTag = call.topicTag)

-- VectorStore.search
def VecRow.accessible (call : Call) (row : VecRow) : Bool :=
  row.scope = "shared" ∨ row.agentId = call.agentId ∨
    (row.scope = "project" ∧ row.project = call.project)

-- LIMIT ?, where a negative limit is none.
def Limit (k : Int) (count : Nat) : Prop := 0 ≤ k → count ≤ k.toNat

-- What the three searches answer: rows that satisfy the rest of the WHERE clause, each with its
-- distance or rank. A store that fails answers no rows.
structure Answers (stores : Stores) (call : Call) where
  vector : List (VecRow × ℚ)
  palace : List (SharedRow × ℚ)
  shared : List (SharedRow × ℚ)
  vector_where : ∀ hit ∈ vector, hit.1 ∈ stores.vec ∧ hit.1.accessible call
  palace_where : ∀ hit ∈ palace, hit.1 ∈ stores.shared ∧ hit.1.tagged call
  shared_where : ∀ hit ∈ shared, hit.1 ∈ stores.shared ∧ hit.1.accessible call
  vector_limit : Limit call.k vector.length
  palace_limit : Limit call.k palace.length
  shared_limit : Limit call.k shared.length

inductive Source where
  | hot
  | vector
  | shared
  | cold
deriving DecidableEq

structure Memory where
  memoryId : String
  content : String
  agentId : String
  scope : String
  score : ℚ
  createdAt : ℚ
  source : Source
  metadata : Option (String × String) := none
deriving DecidableEq

structure ColdHit where
  id : String
  content : String
  createdAt : ℚ
  ftsScore : ℚ
  decay : ℚ

-- The rest of what recall reads: math.exp, the clock, groups/<agent>/MEMORY.md and cold memory.
structure Host where
  exp : ℚ → ℚ
  now : ℚ
  memoryFile : String → Option String
  cold : String → String → Int → List ColdHit

def clamp (score : ℚ) : ℚ := min 1 (max 0 score)

variable (host : Host)

-- `raw_rank = r.get("fts_rank", -1.0) or -1.0`
def ftsScore (rank : ℚ) : ℚ :=
  clamp (1 / (1 + host.exp ((if rank = 0 then -1 else rank) / 5)))

def hotMemories (call : Call) : List Memory :=
  let safeId := (Posix.Path.parse call.agentId.toList).name
  if safeId = [] ∨ safeId ≠ call.agentId.toList then []
  else
    match host.memoryFile call.agentId with
    | none => []
    | some content =>
        if strip content.toList = [] then []
        else [{ memoryId := "hot:" ++ call.agentId
                content := String.ofList (content.toList.take 2000)
                agentId := call.agentId
                scope := "private"
                score := 9 / 10
                createdAt := host.now
                source := .hot }]

def vectorMemory (hit : VecRow × ℚ) : Memory where
  memoryId := hit.1.memoryId
  content := hit.1.content
  agentId := hit.1.agentId
  scope := hit.1.scope
  score := clamp (1 - hit.2)
  createdAt := hit.1.createdAt
  source := .vector

def sharedMemory (hit : SharedRow × ℚ) : Memory where
  memoryId := hit.1.id
  content := hit.1.content
  agentId := hit.1.agentId
  scope := hit.1.scope
  score := ftsScore host hit.2
  createdAt := hit.1.createdAt
  source := .shared

def palaceMemory (hit : SharedRow × ℚ) : Memory :=
  { sharedMemory host hit with metadata := some (hit.1.ns, hit.1.topicTag) }

def coldMemory (call : Call) (hit : ColdHit) : Memory where
  memoryId := hit.id
  content := hit.content
  agentId := call.agentId
  scope := "private"
  score := clamp (1 / (1 + host.exp (-hit.ftsScore / 5)) * hit.decay)
  createdAt := hit.createdAt
  source := .cold

def searchesVector (stores : Stores) (call : Call) : Bool :=
  "vector" ∈ call.includeSources ∧ stores.vecAvailable

def searchesPalace (call : Call) : Bool :=
  "shared" ∈ call.includeSources ∧ (call.ns ≠ "" ∨ call.topicTag ≠ "")

-- An item whose id has been seen is left out.
def «recall» (stores : Stores) (call : Call) (answers : Answers stores call) : List Memory :=
  let merge := Merge.empty
  let merge := if "hot" ∈ call.includeSources then
      merge.offerAll Memory.memoryId (hotMemories host call) else merge
  let merge := if searchesVector stores call then
      merge.offerAll Memory.memoryId (answers.vector.map vectorMemory) else merge
  let merge := if searchesPalace call then
      merge.offerAll Memory.memoryId (answers.palace.map (palaceMemory host)) else merge
  let merge := if "shared" ∈ call.includeSources then
      merge.offerAll Memory.memoryId (answers.shared.map (sharedMemory host)) else merge
  let merge := if "cold" ∈ call.includeSources then
      merge.offerAll Memory.memoryId
        ((host.cold call.query call.agentId call.k).map (coldMemory host call)) else merge
  slice (byScore Memory.score merge.results) call.k

end EvoClaw.MemoryBus
