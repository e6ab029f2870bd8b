import EvoClaw.Posix.Path
import EvoClaw.Posix.Tree

-- Paths with ".." in a tree without links: the system looks up one name after the other.
namespace Posix

variable {β : Type*} {tree after : Tree Name β} {place found p : List Name} {names : List Name}
  {name : Name}

-- The places that the names lead to, one after the other.
def passed (place : List Name) : List Name → List (List Name)
  | [] => []
  | name :: rest => walk place name :: passed (walk place name) rest

theorem mem_passed (h : p ∈ passed place names) :
    ∃ front, front <+: names ∧ p = front.foldl walk place := by
  induction names generalizing place with
  | nil => cases h
  | cons name names ih =>
      rcases List.mem_cons.mp h with rfl | h
      · exact ⟨[name], ⟨names, rfl⟩, rfl⟩
      · obtain ⟨front, hfront, heq⟩ := ih h
        exact ⟨name :: front, List.cons_prefix_cons.mpr ⟨rfl, hfront⟩, heq⟩

namespace Tree

-- Every name has to be looked up in a directory. What the last one leads to need not exist.
def follow (tree : Tree Name β) (place : List Name) : List Name → Option (List Name)
  | [] => some place
  | name :: rest => if tree.isDir place then tree.follow (walk place name) rest else none

-- mkdir(parents=True, exist_ok=True): the directories that are made, and the tree, unless a file is
-- in the way.
def makeWay (tree : Tree Name β) (place : List Name) :
    List Name → List (List Name) × Option (Tree Name β)
  | [] => ([], some tree)
  | name :: rest =>
      match tree.get (walk place name) with
      | some (.file _) => ([], none)
      | some .dir => makeWay tree (walk place name) rest
      | none =>
          let way := makeWay (tree.set (walk place name) .dir) (walk place name) rest
          (walk place name :: way.1, way.2)

-- The places without anything, up to the first file.
def missing (tree : Tree Name β) : List (List Name) → List (List Name)
  | [] => []
  | p :: places =>
      match tree.get p with
      | some (.file _) => []
      | some .dir => missing tree places
      | none => p :: missing tree places

def obstructed (tree : Tree Name β) (places : List (List Name)) : Bool :=
  places.any fun p => (tree.fileAt p).isSome

section Following

theorem follow_eq (h : tree.follow place names = some found) : found = names.foldl walk place := by
  induction names generalizing place with
  | nil => exact (Option.some.inj h).symm
  | cons name names ih =>
      unfold follow at h
      split at h
      · exact ih h
      · cases h

end Following

section Making

variable {places : List (List Name)}

theorem missing_file {content : β} (h : tree.get p = some (.file content)) :
    tree.missing (p :: places) = [] := by
  rw [missing, h]

theorem missing_dir (h : tree.get p = some .dir) :
    tree.missing (p :: places) = tree.missing places := by
  rw [missing, h]

theorem missing_none (h : tree.get p = none) :
    tree.missing (p :: places) = p :: tree.missing places := by
  rw [missing, h]

theorem mem_missing (h : p ∈ tree.missing places) : p ∈ places ∧ tree.get p = none := by
  induction places with
  | nil => cases h
  | cons q places ih =>
      cases hnode : tree.get q with
      | none =>
          rw [missing_none hnode] at h
          rcases List.mem_cons.mp h with rfl | h
          · exact ⟨List.mem_cons_self, hnode⟩
          · exact ⟨List.mem_cons_of_mem q (ih h).1, (ih h).2⟩
      | some node =>
          cases node with
          | file content =>
              rw [missing_file hnode] at h
              cases h
          | dir =>
              rw [missing_dir hnode] at h
              exact ⟨List.mem_cons_of_mem q (ih h).1, (ih h).2⟩

-- A directory that has been made is not missing any more.
theorem mem_missing_set (h : tree.get place = none) :
    p ∈ (tree.set place .dir).missing places ↔ p ∈ tree.missing places ∧ p ≠ place := by
  have hne : place ≠ [] := by
    rintro rfl
    rw [get_nil] at h
    cases h
  have hget (q : List Name) := @get_set _ _ _ tree place .dir hne q
  induction places with
  | nil => simp [missing]
  | cons q places ih =>
      by_cases hq : q = place
      · subst hq
        rw [missing_dir (by rw [hget, if_pos rfl]), missing_none h, List.mem_cons]
        refine ih.trans ?_
        tauto
      · have hsame : (tree.set place .dir).get q = tree.get q := by rw [hget, if_neg hq]
        cases hnode : tree.get q with
        | none =>
            rw [missing_none (hsame.trans hnode), missing_none hnode, List.mem_cons, List.mem_cons]
            refine (or_congr_right ih).trans ?_
            by_cases hp : p = q
            · simp [hp, hq]
            · simp [hp]
        | some node =>
            cases node with
            | file content => simp [missing_file (hsame.trans hnode), missing_file hnode]
            | dir =>
                rw [missing_dir (hsame.trans hnode), missing_dir hnode]
                exact ih

theorem mem_makeWay : p ∈ (tree.makeWay place names).1 ↔ p ∈ tree.missing (passed place names) := by
  induction names generalizing tree place with
  | nil => simp [makeWay, passed, missing]
  | cons name names ih =>
      cases hnode : tree.get (walk place name) with
      | none =>
          rw [makeWay, hnode, passed, missing_none hnode, List.mem_cons, List.mem_cons, ih,
            mem_missing_set hnode]
          tauto
      | some node =>
          cases node with
          | file content =>
              rw [makeWay, hnode, passed, missing_file hnode]
          | dir =>
              rw [makeWay, hnode, passed, missing_dir hnode]
              exact ih

theorem obstructed_cons (places : List (List Name)) :
    tree.obstructed (p :: places) = ((tree.fileAt p).isSome || tree.obstructed places) :=
  List.any_cons

theorem obstructed_set (h : tree.get place = none) :
    (tree.set place .dir).obstructed places = tree.obstructed places := by
  have hne : place ≠ [] := by
    rintro rfl
    rw [get_nil] at h
    cases h
  have hfile (q : List Name) : (tree.set place .dir).fileAt q = tree.fileAt q := by
    have hget := @get_set _ _ _ tree place .dir hne q
    unfold fileAt
    rw [hget]
    by_cases hq : q = place
    · rw [if_pos hq, hq, h]
    · rw [if_neg hq]
  unfold obstructed
  simp only [hfile]

theorem makeWay_eq_none :
    (tree.makeWay place names).2 = none ↔ tree.obstructed (passed place names) = true := by
  induction names generalizing tree place with
  | nil => simp [makeWay, passed, obstructed]
  | cons name names ih =>
      rw [passed, obstructed_cons]
      cases hnode : tree.get (walk place name) with
      | none =>
          have hfile : tree.fileAt (walk place name) = none := by unfold fileAt; rw [hnode]
          rw [makeWay, hnode, hfile, ← obstructed_set hnode]
          exact ih
      | some node =>
          cases node with
          | file content =>
              rw [makeWay, hnode, fileAt_eq_some.mpr hnode]
              simp
          | dir =>
              rw [makeWay, hnode, fileAt_dir (isDir_iff.mpr hnode)]
              exact ih

-- Afterwards the way is there.
theorem isDir_makeWay (h : (tree.makeWay place names).2 = some after) :
    after.isDir p = true ↔ tree.isDir p = true ∨ p ∈ passed place names := by
  induction names generalizing tree place with
  | nil =>
      cases h
      simp [passed]
  | cons name names ih =>
      rw [passed, List.mem_cons]
      cases hnode : tree.get (walk place name) with
      | none =>
          have hne : walk place name ≠ [] := by
            intro hnil
            rw [hnil, get_nil] at hnode
            cases hnode
          have hget := @get_set _ _ _ tree (walk place name) .dir hne p
          rw [makeWay, hnode] at h
          rw [ih h, isDir_iff, isDir_iff, hget]
          by_cases hp : p = walk place name
          · simp [hp]
          · simp [hp]
      | some node =>
          cases node with
          | file content =>
              rw [makeWay, hnode] at h
              cases h
          | dir =>
              rw [makeWay, hnode] at h
              rw [ih h]
              by_cases hp : p = walk place name
              · simp [hp, isDir_iff.mpr hnode]
              · simp [hp]

end Making

end Tree

end Posix
