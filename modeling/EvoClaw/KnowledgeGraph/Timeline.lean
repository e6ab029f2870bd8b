import EvoClaw.EventSystem.Runs
import EvoClaw.KnowledgeGraph.Model
import Mathlib.Data.List.Nodup

-- What a call of add_triple does to the rows, and what queries see of it afterwards.
namespace EvoClaw.KnowledgeGraph

open EventSystem

section Rows

theorem orNow_of_pos {value : ℚ} (now : ℚ) (h : 0 < value) : orNow (some value) now = value :=
  if_neg (ne_of_gt h)

theorem le_orNow {value now : ℚ} (h : value ≤ now) : value ≤ orNow (some value) now := by
  unfold orNow
  dsimp only
  split
  · exact h
  · exact le_refl value

theorem orNow_le {value now : ℚ} (h : value ≤ now) : orNow (some value) now ≤ now := by
  unfold orNow
  dsimp only
  split
  · exact le_refl now
  · exact h

theorem activeAt_iff {ts : ℚ} {row : Triple} :
    row.activeAt ts = true ↔ row.validFrom ≤ ts ∧ ∀ closedAt ∈ row.validTo, ts < closedAt := by
  rw [Triple.activeAt, decide_eq_true_iff]

theorem activeAt_close {closedAt ts : ℚ} {row : Triple} :
    (row.close closedAt).activeAt ts = true ↔ row.validFrom ≤ ts ∧ ts < closedAt := by
  rw [activeAt_iff]
  exact and_congr_right fun _ => ⟨fun h => h closedAt rfl, fun h other hother => by
    cases hother
    exact h⟩

variable (host : Host) (graph : Graph)

-- The rows with one of the ids are closed, the others stay as they are.
theorem foldl_invalidate_triples (conflicts : List Triple) (validTo : Option ℚ) (now : ℚ) :
    (conflicts.foldl (fun graph conflict => invalidate graph conflict.id validTo now)
        graph).triples =
      graph.triples.map fun row =>
        if row.id ∈ conflicts.map Triple.id then row.close (orNow validTo now) else row := by
  induction conflicts generalizing graph with
  | nil => simp
  | cons conflict rest ih =>
      rw [List.foldl_cons, ih]
      simp only [invalidate, List.map_map]
      refine List.map_congr_left fun row _ => ?_
      by_cases hrow : row.id = conflict.id
      · simp only [Function.comp_apply, hrow, if_true, List.map_cons, List.mem_cons, true_or]
        split <;> rfl
      · simp [hrow]

theorem mem_ids_iff {row : Triple} {rows : List Triple} (hrow : row ∈ graph.triples)
    (hrows : ∀ other ∈ rows, other ∈ graph.triples) :
    row.id ∈ rows.map Triple.id ↔ row ∈ rows := by
  refine ⟨fun h => ?_, fun h => List.mem_map_of_mem h⟩
  obtain ⟨other, hother, hid⟩ := List.mem_map.mp h
  exact List.inj_on_of_nodup_map graph.triple_ids (hrows other hother) hrow hid ▸ hother

theorem eq_of_id {row other : Triple} (hrow : row ∈ graph.triples) (hother : other ∈ graph.triples)
    (hid : row.id = other.id) : row = other :=
  List.inj_on_of_nodup_map graph.triple_ids hrow hother hid

theorem insertTriple_triples (row : Triple) :
    (graph.insertTriple row).triples =
      graph.triples ++ if row.id ∈ graph.triples.map Triple.id then [] else [row] := by
  unfold Graph.insertTriple
  split <;> simp

@[simp] theorem insertEntity_triples (entity : Entity) :
    (graph.insertEntity entity).triples = graph.triples := by
  unfold Graph.insertEntity
  split <;> rfl

theorem mem_facts {name jid predicate object : String} {asOf : Option ℚ} {now : ℚ} :
    (predicate, object) ∈ facts host graph name jid asOf now ↔
      ∃ row ∈ graph.triples, row.subjectId = entityId host name jid ∧ row.jid = jid ∧
        row.activeAt (orNow asOf now) = true ∧ row.predicate = predicate ∧ row.object = object := by
  simp only [facts, queryEntity, List.mem_map, List.mem_insertionSort, List.mem_filter,
    decide_eq_true_eq, Prod.mk.injEq, and_assoc]

end Rows

section Calls

variable (host : Host) (call : Call)

def Call.subjectId : String := entityId host call.subject call.jid

def Call.tripleId : String :=
  KnowledgeGraph.tripleId host (call.subjectId host) call.predicate call.object

-- The row that the call stores.
def Call.row : Triple where
  id := call.tripleId host
  subjectId := call.subjectId host
  predicate := call.predicate
  object := call.object
  jid := call.jid
  validFrom := call.clock.now
  validTo := none
  confidence := call.confidence
  sourceMemoryId := call.sourceMemoryId

-- The open row says something else of the subject.
def Call.Contradicts (row : Triple) : Prop :=
  row.subjectId = call.subjectId host ∧ row.predicate = call.predicate ∧ row.jid = call.jid ∧
    row.object ≠ call.object ∧ row.validTo = none ∧ row.validFrom ≤ call.clock.checked

instance (row : Triple) : Decidable (call.Contradicts host row) :=
  inferInstanceAs (Decidable (_ ∧ _))

-- When the call closes what it contradicts.
def Call.closedAt : ℚ := orNow (some call.clock.now) call.clock.checked

-- What becomes of a row that is there before the call.
def Call.revise (row : Triple) : Triple :=
  if supersedes host call.predicate ∧ call.Contradicts host row then row.close call.closedAt
  else row

variable {host call} {row : Triple}

theorem Call.revise_of_not (h : ¬ call.Contradicts host row) : call.revise host row = row :=
  if_neg fun hrow => h hrow.2

theorem Call.revise_of_closed {closedAt : ℚ} (h : closedAt ∈ row.validTo) :
    call.revise host row = row :=
  revise_of_not fun hrow => by simp [hrow.2.2.2.2.1] at h

theorem Call.revise_cases (host : Host) (call : Call) (row : Triple) :
    call.revise host row = row ∨
      row.validTo = none ∧ call.revise host row = row.close call.closedAt := by
  unfold Call.revise
  split
  · rename_i h
    exact Or.inr ⟨h.2.2.2.2.2.1, rfl⟩
  · exact Or.inl rfl

-- A call changes when a row ends, and nothing else of it.
theorem Call.revise_fields (host : Host) (call : Call) (row : Triple) :
    (call.revise host row).id = row.id ∧ (call.revise host row).subjectId = row.subjectId ∧
      (call.revise host row).predicate = row.predicate ∧
      (call.revise host row).object = row.object ∧ (call.revise host row).jid = row.jid ∧
      (call.revise host row).validFrom = row.validFrom := by
  unfold Call.revise
  split <;> exact ⟨rfl, rfl, rfl, rfl, rfl, rfl⟩

theorem Call.map_id_revise (rows : List Triple) :
    (rows.map (call.revise host)).map Triple.id = rows.map Triple.id := by
  rw [List.map_map]
  exact List.map_congr_left fun row _ => (call.revise_fields host row).1

variable (host call)

theorem mem_checkContradiction {graph : Graph} :
    row ∈ checkContradiction host graph call.subject call.predicate call.object call.jid
        call.clock.checked ↔
      row ∈ graph.triples ∧ call.Contradicts host row := by
  simp only [checkContradiction, List.mem_filter, decide_eq_true_eq]
  rfl

-- Closing the contradictions, when there are any that the predicate lets be closed.
theorem supersede_triples (graph : Graph) {conflicts : List Triple}
    (hconflicts : ∀ row, row ∈ conflicts ↔ row ∈ graph.triples ∧ call.Contradicts host row) :
    (if conflicts ≠ [] ∧ supersedes host call.predicate = true then
      conflicts.foldl (fun graph conflict =>
        invalidate graph conflict.id (some call.clock.now) call.clock.checked) graph
    else graph).triples = graph.triples.map (call.revise host) := by
  split
  · rename_i h
    rw [foldl_invalidate_triples]
    refine List.map_congr_left fun row hrow => ?_
    have hids := mem_ids_iff graph hrow fun other hother => ((hconflicts other).mp hother).1
    simp only [hids, hconflicts, hrow, true_and, Call.revise, h.2]
    rfl
  · rename_i h
    refine (List.map_id _).symm.trans (List.map_congr_left fun row hrow => ?_)
    refine (if_neg fun hcall => h ⟨?_, hcall.1⟩).symm
    exact List.ne_nil_of_mem ((hconflicts row).mpr ⟨hrow, hcall.2⟩)

-- The rows of before, some of them closed, and the new fact unless its id is taken.
theorem addTriple_triples (graph : Graph) :
    (addTriple host graph call).triples =
      graph.triples.map (call.revise host) ++
        if call.tripleId host ∈ graph.triples.map Triple.id then [] else [call.row host] := by
  have hadded : ∀ added : Graph, added.triples = graph.triples →
      (Graph.insertTriple (if checkContradiction host added call.subject call.predicate
            call.object call.jid call.clock.checked ≠ [] ∧
          supersedes host call.predicate = true then
        (checkContradiction host added call.subject call.predicate call.object call.jid
            call.clock.checked).foldl (fun graph conflict =>
          invalidate graph conflict.id (some call.clock.now) call.clock.checked) added
      else added) (call.row host)).triples =
        graph.triples.map (call.revise host) ++
          if call.tripleId host ∈ graph.triples.map Triple.id then [] else [call.row host] := by
    intro added htriples
    rw [insertTriple_triples, supersede_triples host call added fun _ =>
      mem_checkContradiction host call, Call.map_id_revise, htriples]
    rfl
  exact hadded _ (insertEntity_triples graph _)

theorem mem_addTriple {graph : Graph} :
    row ∈ (addTriple host graph call).triples ↔
      (∃ old ∈ graph.triples, call.revise host old = row) ∨
        (call.tripleId host ∉ graph.triples.map Triple.id ∧ row = call.row host) := by
  rw [addTriple_triples, List.mem_append, List.mem_map]
  refine or_congr_right ?_
  split
  · rename_i h
    exact iff_of_false (List.not_mem_nil) fun hrow => hrow.1 h
  · rename_i h
    rw [List.mem_singleton]
    exact (and_iff_right h).symm

end Calls

-- Texts stand for their own digests, which are as injective as digests can be.
def plainHost : Host where
  digest text := text
  lower name := name

def works (place : String) (time : ℚ) : Call where
  subject := "ann"
  predicate := "works_at"
  object := place
  jid := "tg:1"
  clock := { created := time, now := time, checked := time, created_le := le_rfl, le_checked := le_rfl }

-- She moves from one place to another and back.
def moved : List Call := [works "acme" 1, works "bank" 2, works "acme" 3]

section Past

variable (host : Host) {call : Call} {row : Triple} {asOf : ℚ}

theorem Call.closedAt_ge (call : Call) : call.clock.now ≤ call.closedAt :=
  le_orNow call.clock.le_checked

theorem Call.closedAt_le (call : Call) : call.closedAt ≤ call.clock.checked :=
  orNow_le call.clock.le_checked

-- A row that the call closes was open at every moment before the call.
theorem Call.revise_activeAt (h : asOf < call.clock.now) :
    (call.revise host row).activeAt asOf = row.activeAt asOf := by
  obtain heq | ⟨hopen, heq⟩ := call.revise_cases host row
  · rw [heq]
  · rw [heq, Bool.eq_iff_iff, activeAt_close, activeAt_iff, hopen]
    have hlt : asOf < call.closedAt := h.trans_le call.closedAt_ge
    exact and_congr_right fun _ => iff_of_true hlt nofun

theorem Call.row_not_activeAt (h : asOf < call.clock.now) :
    ¬ (call.row host).activeAt asOf = true := fun hactive =>
  absurd (activeAt_iff.mp hactive).1 (not_le_of_gt h)

theorem facts_addTriple_past (graph : Graph) (name jid : String) {now now' : ℚ} (hpos : 0 < asOf)
    (hcall : asOf < call.clock.now) (fact : String × String) :
    fact ∈ facts host (addTriple host graph call) name jid (some asOf) now' ↔
      fact ∈ facts host graph name jid (some asOf) now := by
  obtain ⟨predicate, object⟩ := fact
  simp only [mem_facts, orNow_of_pos _ hpos]
  constructor
  · rintro ⟨row, hrow, hsubject, hjid, hactive, hfact⟩
    obtain ⟨old, hold, rfl⟩ | ⟨-, rfl⟩ := (mem_addTriple host call).mp hrow
    · obtain ⟨-, hs, hp, ho, hj, -⟩ := call.revise_fields host old
      rw [call.revise_activeAt host hcall] at hactive
      exact ⟨old, hold, hs ▸ hsubject, hj ▸ hjid, hactive, hp ▸ hfact.1, ho ▸ hfact.2⟩
    · exact absurd hactive (call.row_not_activeAt host hcall)
  · rintro ⟨row, hrow, hsubject, hjid, hactive, hfact⟩
    obtain ⟨-, hs, hp, ho, hj, -⟩ := call.revise_fields host row
    rw [← call.revise_activeAt host hcall] at hactive
    exact ⟨call.revise host row, (mem_addTriple host call).mpr (Or.inl ⟨row, hrow, rfl⟩),
      hs.trans hsubject, hj.trans hjid, hactive, hp.trans hfact.1, ho.trans hfact.2⟩

-- What later calls do, no query about an earlier moment sees.
theorem facts_past_unchanged (graph : Graph) (name jid : String) (asOf : ℚ) (hpos : 0 < asOf)
    (later : List Call) (hlater : ∀ call ∈ later, asOf < call.clock.now) (now now' : ℚ)
    (fact : String × String) :
    fact ∈ facts host (later.foldl (addTriple host) graph) name jid (some asOf) now' ↔
      fact ∈ facts host graph name jid (some asOf) now := by
  induction later generalizing graph with
  | nil =>
      obtain ⟨predicate, object⟩ := fact
      simp only [List.foldl_nil, mem_facts, orNow_of_pos _ hpos]
  | cons call rest ih =>
      have hcall : asOf < call.clock.now := hlater call List.mem_cons_self
      have hrest : ∀ other ∈ rest, asOf < other.clock.now := fun other hother =>
        hlater other (List.mem_cons_of_mem call hother)
      exact (ih (addTriple host graph call) hrest).trans
        (facts_addTriple_past host graph name jid hpos hcall fact)

theorem facts_past_unchanged_after_move :
    ("works_at", "acme") ∈ facts plainHost
        (moved.tail.foldl (addTriple plainHost) (addTriple plainHost .empty (works "acme" 1)))
        "ann" "tg:1" (some 1) 9 ↔
      ("works_at", "acme") ∈ facts plainHost (addTriple plainHost .empty (works "acme" 1))
        "ann" "tg:1" (some 1) 9 :=
  facts_past_unchanged plainHost _ "ann" "tg:1" 1 one_pos moved.tail (by decide) 9 9 _

end Past

section Current

variable (host : Host)

-- The query right after the call finds its fact, and nothing else of a predicate that is no
-- opinion.
def Current (graph : Graph) (call : Call) : Prop :=
  ∀ now, call.clock.checked ≤ now →
    (call.predicate, call.object) ∈ facts host graph call.subject call.jid none now ∧
      (isOpinion host call.predicate = false → ∀ object,
        (call.predicate, object) ∈ facts host graph call.subject call.jid none now →
          object = call.object)

-- The row that has the id of the call's fact, if there is one, is this fact and still open.
def Renewable (graph : Graph) (call : Call) : Prop :=
  ∀ row ∈ graph.triples, row.id = call.tripleId host →
    row.subjectId = call.subjectId host ∧ row.predicate = call.predicate ∧
      row.object = call.object ∧ row.validTo = none

-- What the calls before this moment leave.
structure Past (jid : String) (time : ℚ) (row : Triple) : Prop where
  id_eq : row.id = tripleId host row.subjectId row.predicate row.object
  jid_eq : row.jid = jid
  validFrom_lt : row.validFrom < time
  validTo_lt : ∀ closedAt ∈ row.validTo, closedAt < time

variable {host} {call : Call} {row : Triple} {time : ℚ}

theorem Call.row_past (h : call.clock.checked < time) : Past host call.jid time (call.row host) where
  id_eq := rfl
  jid_eq := rfl
  validFrom_lt := call.clock.le_checked.trans_lt h
  validTo_lt := nofun

theorem Past.revise (hrow : Past host call.jid call.clock.created row)
    (h : call.clock.checked < time) : Past host call.jid time (call.revise host row) := by
  obtain ⟨hid, hs, hp, ho, hj, hfrom⟩ := call.revise_fields host row
  have hstart : call.clock.created < time :=
    (call.clock.created_le.trans call.clock.le_checked).trans_lt h
  refine ⟨?_, hj.trans hrow.jid_eq, hfrom ▸ hrow.validFrom_lt.trans hstart, ?_⟩
  · rw [hid, hs, hp, ho, hrow.id_eq]
  · obtain heq | ⟨-, heq⟩ := call.revise_cases host row
    · rw [heq]
      exact fun closedAt hclosed => (hrow.validTo_lt closedAt hclosed).trans hstart
    · rw [heq]
      rintro _ ⟨⟩
      exact call.closedAt_le.trans_lt h

-- A row that does not say what the call says is closed by it, where it says something else of
-- the subject under the same predicate.
theorem Past.object_eq (hrow : Past host call.jid call.clock.created row)
    (hopinion : isOpinion host call.predicate = false) (hsubject : row.subjectId = call.subjectId host)
    (hpredicate : row.predicate = call.predicate) {now : ℚ} (hnow : call.clock.checked ≤ now)
    (hactive : (call.revise host row).activeAt now = true) : row.object = call.object := by
  by_contra hobject
  have hstart : call.clock.created ≤ call.clock.checked :=
    call.clock.created_le.trans call.clock.le_checked
  by_cases hopen : row.validTo = none
  · have hcall : call.Contradicts host row :=
      ⟨hsubject, hpredicate, hrow.jid_eq, hobject, hopen, hrow.validFrom_lt.le.trans hstart⟩
    have hsupersedes : supersedes host call.predicate = true := by
      simp [supersedes, hopinion]
    rw [Call.revise, if_pos ⟨hsupersedes, hcall⟩, activeAt_close] at hactive
    exact absurd (call.closedAt_le.trans hnow) (not_le_of_gt hactive.2)
  · obtain ⟨closedAt, hclosed⟩ := Option.ne_none_iff_exists'.mp hopen
    rw [call.revise_of_closed hclosed, activeAt_iff] at hactive
    have hlt : closedAt < now :=
      (hrow.validTo_lt closedAt hclosed).trans_le (hstart.trans hnow)
    exact absurd (hactive.2 closedAt hclosed) (not_lt_of_gt hlt)

-- A row that says what the call says is left alone, and seen while it is open.
theorem Past.activeAt_revise_iff (hrow : Past host call.jid call.clock.created row)
    (hobject : row.object = call.object) {now : ℚ} (hnow : call.clock.checked ≤ now) :
    (call.revise host row).activeAt now = true ↔ row.validTo = none := by
  have hstart : call.clock.created ≤ now :=
    (call.clock.created_le.trans call.clock.le_checked).trans hnow
  rw [call.revise_of_not fun h => h.2.2.2.1 hobject, activeAt_iff,
    and_iff_right (hrow.validFrom_lt.le.trans hstart)]
  constructor
  · intro h
    by_contra hclosed
    obtain ⟨closedAt, hclosed⟩ := Option.ne_none_iff_exists'.mp hclosed
    exact absurd (h closedAt hclosed)
      (not_lt_of_gt ((hrow.validTo_lt closedAt hclosed).trans_le hstart))
  · rintro hopen closedAt hclosed
    rw [hopen] at hclosed
    cases hclosed

variable {graph : Graph} (hgraph : ∀ row ∈ graph.triples, Past host call.jid call.clock.created row)

include hgraph

theorem current_object (hopinion : isOpinion host call.predicate = false) {now : ℚ}
    (hnow : call.clock.checked ≤ now) {object : String}
    (hfact : (call.predicate, object) ∈
      facts host (addTriple host graph call) call.subject call.jid none now) :
    object = call.object := by
  obtain ⟨row, hrow, hsubject, -, hactive, hpredicate, rfl⟩ := (mem_facts host _).mp hfact
  obtain ⟨old, hold, rfl⟩ | ⟨-, rfl⟩ := (mem_addTriple host call).mp hrow
  · obtain ⟨-, hs, hp, ho, -, -⟩ := call.revise_fields host old
    exact ho.trans ((hgraph old hold).object_eq hopinion (hs ▸ hsubject) (hp ▸ hpredicate) hnow hactive)
  · rfl

theorem current_iff : Current host (addTriple host graph call) call ↔ Renewable host graph call := by
  constructor
  · intro hcurrent old hold hid
    have hfact := (hcurrent call.clock.checked le_rfl).1
    obtain ⟨row, hrow, hsubject, -, hactive, hpredicate, hobject⟩ := (mem_facts host _).mp hfact
    obtain ⟨other, hother, rfl⟩ | ⟨hfresh, -⟩ := (mem_addTriple host call).mp hrow
    · obtain ⟨-, hs, hp, ho, -, -⟩ := call.revise_fields host other
      rw [hs] at hsubject
      rw [hp] at hpredicate
      rw [ho] at hobject
      have hsame : other.id = old.id := by
        rw [(hgraph other hother).id_eq, hid, hsubject, hpredicate, hobject]
        rfl
      rw [← eq_of_id graph hother hold hsame]
      have hopen := ((hgraph other hother).activeAt_revise_iff hobject le_rfl).mp hactive
      exact ⟨hsubject, hpredicate, hobject, hopen⟩
    · exact absurd (hid ▸ List.mem_map_of_mem hold) hfresh
  · intro hrenewable now hnow
    refine ⟨(mem_facts host _).mpr ?_, fun hopinion object => current_object hgraph hopinion hnow⟩
    by_cases hid : call.tripleId host ∈ graph.triples.map Triple.id
    · obtain ⟨row, hrow, hid⟩ := List.mem_map.mp hid
      obtain ⟨hsubject, hpredicate, hobject, hopen⟩ := hrenewable row hrow hid
      obtain ⟨-, hs, hp, ho, hj, -⟩ := call.revise_fields host row
      have hpast := hgraph row hrow
      exact ⟨call.revise host row, (mem_addTriple host call).mpr (Or.inl ⟨row, hrow, rfl⟩),
        hs.trans hsubject, hj.trans hpast.jid_eq, (hpast.activeAt_revise_iff hobject hnow).mpr hopen,
        hp.trans hpredicate, ho.trans hobject⟩
    · refine ⟨call.row host, (mem_addTriple host call).mpr (Or.inr ⟨hid, rfl⟩), rfl, rfl, ?_, rfl, rfl⟩
      exact activeAt_iff.mpr ⟨call.clock.le_checked.trans hnow, nofun⟩

theorem past_addTriple (h : call.clock.checked < time) :
    ∀ row ∈ (addTriple host graph call).triples, Past host call.jid time row := by
  intro row hrow
  obtain ⟨old, hold, rfl⟩ | ⟨-, rfl⟩ := (mem_addTriple host call).mp hrow
  · exact (hgraph old hold).revise h
  · exact call.row_past h

omit hgraph

-- Every added fact is current right after its call if and only if no call adds a fact that was
-- superseded before, or that shares its id with another one.
theorem current_along_iff (host : Host) (jid : String) (calls : List Call)
    (hjid : ∀ call ∈ calls, call.jid = jid)
    (htimes : calls.Pairwise fun earlier later => earlier.clock.checked < later.clock.created) :
    Along (fun graph call => some (addTriple host graph call))
        (fun graph call => Current host (addTriple host graph call) call) .empty calls ↔
      Along (fun graph call => some (addTriple host graph call)) (Renewable host) .empty calls := by
  have hempty : ∀ call ∈ calls, ∀ row ∈ Graph.empty.triples,
      Past host call.jid call.clock.created row := fun _ _ => nofun
  generalize Graph.empty = graph at hempty ⊢
  induction calls generalizing graph with
  | nil => exact Iff.rfl
  | cons call rest ih =>
      rw [along_cons_of_step rfl, along_cons_of_step rfl,
        current_iff (hempty call List.mem_cons_self)]
      rw [List.pairwise_cons] at htimes
      refine and_congr_right fun _ => ih (fun other hother => hjid other ?_) htimes.2 _ ?_
      · exact List.mem_cons_of_mem call hother
      · intro other hother
        have hsame : other.jid = call.jid :=
          (hjid other (List.mem_cons_of_mem call hother)).trans (hjid call List.mem_cons_self).symm
        rw [hsame]
        exact past_addTriple (hempty call List.mem_cons_self) (htimes.1 other hother)

theorem current_along_iff_move :
    Along (fun graph call => some (addTriple plainHost graph call))
        (fun graph call => Current plainHost (addTriple plainHost graph call) call) .empty
        (moved.take 2) ↔
      Along (fun graph call => some (addTriple plainHost graph call)) (Renewable plainHost) .empty
        (moved.take 2) :=
  current_along_iff plainHost "tg:1" (moved.take 2) (by decide) (by decide)

-- The row of the first stay is closed when she leaves, and keeps the third call's fact out.
theorem moved_back_not_current :
    Function.Injective plainHost.digest ∧ (∀ call ∈ moved, call.jid = "tg:1") ∧
      moved.Pairwise (fun earlier later => earlier.clock.checked < later.clock.created) ∧
      ¬ Along (fun graph call => some (addTriple plainHost graph call))
        (fun graph call => Current plainHost (addTriple plainHost graph call) call) .empty moved := by
  refine ⟨fun _ _ h => h, by decide, by decide, fun h => ?_⟩
  have hlast := (h.2.2.1 3 le_rfl).1
  revert hlast
  decide

end Current

end EvoClaw.KnowledgeGraph
