import EvoClaw.AgentTools.Files
import EvoClaw.Posix.Walk

-- host/skill_loader.py: a skill is a folder with a SKILL.md, and maybe a handler.py, that goes by
-- its name. There are no links, so that Path.resolve only reduces "..".
namespace EvoClaw.Skills

open AgentTools (universalNewlines)
open Posix Text

abbrev Place := List Name

abbrev Files := Tree Name (List UInt8)

def SKILL_MD : Name := "SKILL.md".toList

def HANDLER_PY : Name := "handler.py".toList

def SKILL_MAX_BYTES : Nat := 64 * 1024

inductive SkillError where
  | nullByte
  | traversal (name : List Char)
  | unicodeDecode
  | isADirectory
  | notADirectory
  | fileExists
  | notEmpty
deriving DecidableEq

-- What a call does to the files, and to folders with all that is below them.
inductive Access where
  | read (file : Place)
  | write (file : Place) (content : List UInt8)
  | execute (file : Place)
  | makeDir (folder : Place)
  | removeTree (folder : Place)
deriving DecidableEq

structure Outcome (α : Type) where
  accesses : List Access := []
  result : Except SkillError α

-- Where a path leads, and what stands there. Path.exists is true if something does.
def find (files : Files) (path : List Name) : Option (Place × Node (List UInt8)) :=
  (files.follow [] path).bind fun place => (files.get place).map fun node => (place, node)

-- The directory is the resolved one.
structure SkillLoader where
  dir : Place

namespace SkillLoader

-- self._dir / name
def path (loader : SkillLoader) (name : List Char) : List Name :=
  (AbsPath.join ⟨.slash, loader.dir⟩ (Path.parse name)).parts

-- (self._dir / name).resolve()
def resolved (loader : SkillLoader) (name : List Char) : Place :=
  reduce (loader.path name)

-- str(path)
def text (place : Place) : List Char :=
  Path.toText ⟨some .slash, place⟩

-- str(resolved).startswith(str(self._dir.resolve()))
def accepts (loader : SkillLoader) (name : List Char) : Bool :=
  (text loader.dir).isPrefixOf (text (loader.resolved name))

def load (loader : SkillLoader) (files : Files) (name : List Char) : Outcome (Option (List Char)) :=
  if '\x00' ∈ name then { result := .error .nullByte }
  else if ¬ loader.accepts name then { result := .error (.traversal name) }
  else
    match find files (loader.path name ++ [SKILL_MD]) with
    | none => { result := .ok none }
    | some (_, .dir) => { result := .error .isADirectory }
    | some (place, .file bytes) =>
        { accesses := [.read place]
          result :=
            if SKILL_MAX_BYTES < bytes.length then
              .ok (some (Utf8.decodeReplace (bytes.take SKILL_MAX_BYTES) ++
                "\n... (truncated)".toList))
            else
              match Utf8.decode bytes with
              | some text => .ok (some (universalNewlines text))
              | none => .error .unicodeDecode }

def create (loader : SkillLoader) (files : Files) (name description : List Char)
    (overwrite : Bool) : Outcome Bool :=
  let skill_file := loader.path name ++ [SKILL_MD]
  if '\x00' ∈ name then { result := .error .nullByte }
  else if ¬ loader.accepts name then { result := .error (.traversal name) }
  else if (find files skill_file).isSome ∧ ¬ overwrite then { result := .ok false }
  else
    let way := files.makeWay [] (loader.path name)
    let made := way.1.map Access.makeDir
    match way.2 with
    | none => { accesses := made, result := .error .fileExists }
    | some after =>
        if after.isDir (reduce skill_file) then { accesses := made, result := .error .isADirectory }
        else
          { accesses := made ++ [.write (reduce skill_file) (Utf8.encode description)]
            result := .ok true }

-- shutil.rmtree empties the folder first, and fails to remove it by a path that ends in "..".
def delete (loader : SkillLoader) (files : Files) (name : List Char) : Outcome Bool :=
  if '\x00' ∈ name then { result := .error .nullByte }
  else if ¬ loader.accepts name then { result := .error (.traversal name) }
  else
    match find files (loader.path name) with
    | none => { result := .ok false }
    | some (_, .file _) => { result := .error .notADirectory }
    | some (place, .dir) =>
        { accesses := [.removeTree place]
          result :=
            if (loader.path name).getLast? = some dotdot then .error .notEmpty else .ok true }

-- The name of the module, where its code runs to the end. The bytecode cache lies beside the file.
def exec_skill (loader : SkillLoader) (completes : List UInt8 → Bool) (files : Files)
    (name : List Char) : Outcome (Option (List Char)) :=
  if '\x00' ∈ name then { result := .ok none }
  else
    match find files (loader.path name ++ [HANDLER_PY]) with
    | none => { result := .ok none }
    | some (_, .dir) => { result := .ok none }
    | some (place, .file source) =>
        { accesses := [.execute place]
          result := .ok
            (if completes source then some ("_evoclaw_skill_".toList ++ name) else none) }

end SkillLoader

-- A file lies below a folder, and a folder may be that one.
def Access.Within (folder : Place) : Access → Prop
  | .read file => folder <+: file ∧ file ≠ folder
  | .write file _ => folder <+: file ∧ file ≠ folder
  | .execute file => folder <+: file ∧ file ≠ folder
  | .makeDir made => folder <+: made
  | .removeTree removed => folder <+: removed

-- All of it happens in one sub-folder of the directory.
def Contained (dir : Place) (accesses : List Access) : Prop :=
  ∃ sub : Name, ∀ access ∈ accesses, access.Within (dir ++ [sub])

def Inside (dir place : Place) : Prop :=
  ∃ sub : Name, dir ++ [sub] <+: place

def OneFolder (dir : Place) (places : List Place) : Prop :=
  ∃ sub : Name, ∀ place ∈ places, dir ++ [sub] <+: place

namespace SkillLoader

variable (loader : SkillLoader) (files : Files) (name : List Char)

def refuses : Bool :=
  '\x00' ∈ name ∨ ¬ loader.accepts name

-- A file of a skill.
def holds (file : Name) : Bool :=
  match find files (loader.path name ++ [file]) with
  | some (_, .file _) => true
  | _ => false

def holdsFolder : Bool :=
  match find files (loader.path name) with
  | some (_, .dir) => true
  | _ => false

-- The folders that have to be made for a skill, up to a file in the way, and the folder that its
-- description goes into, if nothing is in the way of that.
def newPlaces : List Place :=
  let places := passed [] (loader.path name)
  let skill_file := loader.resolved name ++ [SKILL_MD]
  files.missing places ++
    if files.obstructed places ∨ files.isDir skill_file ∨ places.contains skill_file then []
    else [loader.resolved name]

end SkillLoader

section Contained

variable {dir place : Place} {places : List Place} {file : Name}

theorem contained_nil (dir : Place) : Contained dir [] :=
  ⟨[], by simp⟩

theorem within_iff : dir <+: place ++ [file] ∧ place ++ [file] ≠ dir ↔ dir <+: place := by
  rw [List.prefix_concat_iff]
  constructor
  · rintro ⟨rfl | hinside, hne⟩
    · exact absurd rfl hne
    · exact hinside
  · intro hinside
    refine ⟨.inr hinside, ?_⟩
    rintro rfl
    have hlength := hinside.length_le
    rw [List.length_append, List.length_singleton] at hlength
    omega

theorem inside_iff : Inside dir place ↔ dir <+: place ∧ dir ≠ place := by
  constructor
  · rintro ⟨sub, rest, rfl⟩
    refine ⟨⟨[sub] ++ rest, by rw [List.append_assoc]⟩, fun heq => ?_⟩
    have hlength := congrArg List.length heq
    simp at hlength
  · rintro ⟨⟨rest, rfl⟩, hne⟩
    cases rest with
    | nil => exact absurd (List.append_nil dir).symm hne
    | cons sub rest => exact ⟨sub, rest, by simp⟩

instance (dir place : Place) : Decidable (Inside dir place) :=
  decidable_of_iff _ inside_iff.symm

theorem oneFolder_singleton : OneFolder dir [place] ↔ Inside dir place := by
  simp only [OneFolder, Inside, List.forall_mem_singleton]

theorem contained_read : Contained dir [.read (place ++ [file])] ↔ Inside dir place := by
  simp only [Contained, Inside, List.forall_mem_singleton, Access.Within, within_iff]

theorem contained_execute : Contained dir [.execute (place ++ [file])] ↔ Inside dir place := by
  simp only [Contained, Inside, List.forall_mem_singleton, Access.Within, within_iff]

theorem contained_removeTree : Contained dir [.removeTree place] ↔ Inside dir place := by
  simp only [Contained, Inside, List.forall_mem_singleton, Access.Within]

theorem contained_makeDirs :
    Contained dir (places.map Access.makeDir) ↔ OneFolder dir places := by
  simp only [Contained, OneFolder, List.forall_mem_map, Access.Within]

theorem contained_write (content : List UInt8) :
    Contained dir (places.map Access.makeDir ++ [.write (place ++ [file]) content]) ↔
      OneFolder dir (places ++ [place]) := by
  simp only [Contained, OneFolder, List.forall_mem_append, List.forall_mem_map,
    List.forall_mem_singleton, Access.Within, within_iff]

end Contained

namespace SkillLoader

variable {loader : SkillLoader} {files : Files} {name description : List Char} {overwrite : Bool}
  {file : Name} {path : List Name} {place : Place} {node : Node (List UInt8)}

theorem find_spec (h : find files path = some (place, node)) : place = reduce path := by
  obtain ⟨found, hfollow, hfound⟩ := Option.bind_eq_some_iff.mp h
  obtain ⟨held, -, heq⟩ := Option.map_eq_some_iff.mp hfound
  cases heq
  exact Tree.follow_eq hfollow

theorem reduce_file (hfile : file ≠ dotdot) :
    reduce (loader.path name ++ [file]) = loader.resolved name ++ [file] :=
  reduce_append_singleton hfile

theorem not_refuses (h : loader.refuses name = false) :
    ¬ '\x00' ∈ name ∧ ¬ ¬ loader.accepts name = true := by
  unfold refuses at h
  exact not_or.mp (of_decide_eq_false h)

-- A refused name has no effect.
theorem accesses_of_refuses (h : loader.refuses name = true) :
    (loader.load files name).accesses = [] ∧
      (loader.create files name description overwrite).accesses = [] ∧
      (loader.delete files name).accesses = [] := by
  unfold load create delete
  by_cases hnull : '\x00' ∈ name
  · simp only [if_pos hnull, and_self]
  · have haccepts : ¬ loader.accepts name = true := (of_decide_eq_true h).resolve_left hnull
    simp only [if_neg hnull, if_pos haccepts, and_self]

theorem contained_load : Contained loader.dir (loader.load files name).accesses ↔
    loader.refuses name = true ∨ loader.holds files name SKILL_MD = false ∨
      Inside loader.dir (loader.resolved name) := by
  cases hrefuses : loader.refuses name with
  | true =>
      rw [(@accesses_of_refuses loader files name [] false hrefuses).1]
      simp [contained_nil]
  | false =>
      obtain ⟨hnull, haccepts⟩ := not_refuses hrefuses
      have hdots : SKILL_MD ≠ dotdot := by decide
      unfold load holds
      rw [if_neg hnull, if_neg haccepts]
      cases hfind : find files (loader.path name ++ [SKILL_MD]) with
      | none => simp [contained_nil]
      | some entry =>
          obtain ⟨place, node⟩ := entry
          cases node with
          | dir => simp [contained_nil]
          | file bytes =>
              rw [find_spec hfind, reduce_file hdots]
              simp [contained_read]

theorem contained_delete : Contained loader.dir (loader.delete files name).accesses ↔
    loader.refuses name = true ∨ loader.holdsFolder files name = false ∨
      Inside loader.dir (loader.resolved name) := by
  cases hrefuses : loader.refuses name with
  | true =>
      rw [(@accesses_of_refuses loader files name [] false hrefuses).2.2]
      simp [contained_nil]
  | false =>
      obtain ⟨hnull, haccepts⟩ := not_refuses hrefuses
      unfold delete holdsFolder
      rw [if_neg hnull, if_neg haccepts]
      cases hfind : find files (loader.path name) with
      | none => simp [contained_nil]
      | some entry =>
          obtain ⟨place, node⟩ := entry
          cases node with
          | file bytes => simp [contained_nil]
          | dir =>
              rw [find_spec hfind]
              simp [contained_removeTree, resolved]

theorem contained_exec_skill (completes : List UInt8 → Bool) :
    Contained loader.dir (loader.exec_skill completes files name).accesses ↔
      '\x00' ∈ name ∨ loader.holds files name HANDLER_PY = false ∨
        Inside loader.dir (loader.resolved name) := by
  have hdots : HANDLER_PY ≠ dotdot := by decide
  unfold exec_skill holds
  by_cases hnull : '\x00' ∈ name
  · simp [hnull, contained_nil]
  rw [if_neg hnull]
  cases hfind : find files (loader.path name ++ [HANDLER_PY]) with
  | none => simp [contained_nil]
  | some entry =>
      obtain ⟨place, node⟩ := entry
      cases node with
      | dir => simp [contained_nil]
      | file bytes =>
          rw [find_spec hfind, reduce_file hdots]
          simp [contained_execute, hnull]

theorem oneFolder_congr {dir : Place} {places others : List Place}
    (h : ∀ place, place ∈ places ↔ place ∈ others) :
    OneFolder dir places ↔ OneFolder dir others := by
  simp only [OneFolder, h]

theorem contained_create : Contained loader.dir
      (loader.create files name description overwrite).accesses ↔
    loader.refuses name = true ∨
      ((find files (loader.path name ++ [SKILL_MD])).isSome = true ∧ overwrite = false) ∨
        OneFolder loader.dir (loader.newPlaces files name) := by
  cases hrefuses : loader.refuses name with
  | true =>
      rw [(@accesses_of_refuses loader files name description overwrite hrefuses).2.1]
      simp [contained_nil]
  | false =>
      obtain ⟨hnull, haccepts⟩ := not_refuses hrefuses
      have hdots : SKILL_MD ≠ dotdot := by decide
      unfold create newPlaces
      dsimp only
      rw [if_neg hnull, if_neg haccepts]
      by_cases hkept :
          (find files (loader.path name ++ [SKILL_MD])).isSome = true ∧ ¬ overwrite = true
      · rw [if_pos hkept]
        simp [contained_nil, hkept.1, hkept.2]
      rw [if_neg hkept]
      have hgoes : ¬ ((find files (loader.path name ++ [SKILL_MD])).isSome = true ∧
          overwrite = false) := by simpa using hkept
      have hmade (p : Place) : p ∈ (files.makeWay [] (loader.path name)).1 ↔
          p ∈ files.missing (passed [] (loader.path name)) := Tree.mem_makeWay
      simp only [hgoes, Bool.false_eq_true, false_or, reduce_file hdots]
      cases hway : (files.makeWay [] (loader.path name)).2 with
      | none =>
          have hobstructed := Tree.makeWay_eq_none.mp hway
          rw [if_pos (.inl hobstructed), List.append_nil, contained_makeDirs, oneFolder_congr hmade]
      | some after =>
          have hclear : ¬ files.obstructed (passed [] (loader.path name)) = true := fun h => by
            rw [Tree.makeWay_eq_none.mpr h] at hway
            cases hway
          have hdir : after.isDir (loader.resolved name ++ [SKILL_MD]) = true ↔
              files.isDir (loader.resolved name ++ [SKILL_MD]) = true ∨
                loader.resolved name ++ [SKILL_MD] ∈ passed [] (loader.path name) :=
            Tree.isDir_makeWay hway
          simp only [List.contains_iff_mem, ← hdir]
          by_cases htaken : after.isDir (loader.resolved name ++ [SKILL_MD]) = true
          · rw [if_pos htaken, if_pos (.inr htaken), List.append_nil, contained_makeDirs,
              oneFolder_congr hmade]
          · rw [if_neg htaken, if_neg (not_or.mpr ⟨hclear, htaken⟩), contained_write]
            refine oneFolder_congr fun p => ?_
            rw [List.mem_append, List.mem_append, hmade]

-- What a call does stays in one sub-folder of the skills directory, if and only if the call is
-- refused, or finds nothing to work on, or the name leads into a sub-folder. For a new skill the
-- folders that are missing on the way count, too.
theorem contained_iff (loader : SkillLoader) (files : Files) (name : List Char) :
    (Contained loader.dir (loader.load files name).accesses ↔
      loader.refuses name = true ∨ loader.holds files name SKILL_MD = false ∨
        Inside loader.dir (loader.resolved name)) ∧
    (∀ description overwrite,
      Contained loader.dir (loader.create files name description overwrite).accesses ↔
        loader.refuses name = true ∨
          ((find files (loader.path name ++ [SKILL_MD])).isSome = true ∧ overwrite = false) ∨
            OneFolder loader.dir (loader.newPlaces files name)) ∧
    (Contained loader.dir (loader.delete files name).accesses ↔
      loader.refuses name = true ∨ loader.holdsFolder files name = false ∨
        Inside loader.dir (loader.resolved name)) ∧
    (∀ completes, Contained loader.dir (loader.exec_skill completes files name).accesses ↔
      '\x00' ∈ name ∨ loader.holds files name HANDLER_PY = false ∨
        Inside loader.dir (loader.resolved name)) :=
  ⟨contained_load, fun _ _ => contained_create, contained_delete, contained_exec_skill⟩

-- A name like those that list_skills gives.
structure Plain (name : List Char) : Prop where
  part : isPart name = true
  inner : name ≠ dotdot
  one : '/' ∉ name

theorem Plain.path_eq (h : Plain name) : loader.path name = loader.dir ++ [name] := by
  unfold path AbsPath.join Path.parse
  dsimp only
  rw [rootOf_of_notMem h.one, splitOn_of_notMem h.one, List.filter_cons_of_pos h.part]
  rfl

-- Such names are safe as long as the skills directory is there.
theorem contained_of_plain (h : Plain name) (hdots : dotdot ∉ loader.dir)
    (hdir : ∀ place, place <+: loader.dir → files.isDir place = true) (description : List Char)
    (overwrite : Bool) (completes : List UInt8 → Bool) :
    Contained loader.dir (loader.load files name).accesses ∧
      Contained loader.dir (loader.create files name description overwrite).accesses ∧
      Contained loader.dir (loader.delete files name).accesses ∧
      Contained loader.dir (loader.exec_skill completes files name).accesses := by
  have hpath : loader.path name = loader.dir ++ [name] := h.path_eq
  have hnodots : dotdot ∉ loader.dir ++ [name] := by
    rw [List.mem_append, List.mem_singleton, not_or]
    exact ⟨hdots, h.inner.symm⟩
  have hresolved : loader.resolved name = loader.dir ++ [name] := by
    rw [resolved, hpath, reduce_of_notMem hnodots]
  have hinside : Inside loader.dir (loader.resolved name) :=
    ⟨name, by rw [hresolved]⟩
  refine ⟨contained_load.mpr (.inr (.inr hinside)), contained_create.mpr (.inr (.inr ?_)),
    contained_delete.mpr (.inr (.inr hinside)),
    (contained_exec_skill completes).mpr (.inr (.inr hinside))⟩
  refine ⟨name, fun place hplace => ?_⟩
  unfold newPlaces at hplace
  rcases List.mem_append.mp hplace with hmissing | hlast
  · obtain ⟨hpassed, hnone⟩ := Tree.mem_missing hmissing
    obtain ⟨front, hfront, rfl⟩ := mem_passed hpassed
    rw [hpath] at hfront
    have hfrontDots : dotdot ∉ front := fun hmem => hnodots (hfront.subset hmem)
    rw [foldl_walk_of_notMem hfrontDots, List.nil_append] at hnone ⊢
    rcases List.prefix_concat_iff.mp hfront with rfl | hfront
    · exact List.prefix_rfl
    · rw [Tree.isDir_iff.mp (hdir front hfront)] at hnone
      cases hnone
  · split at hlast
    · cases hlast
    · rw [List.mem_singleton.mp hlast, hresolved]

def skills : SkillLoader where
  dir := ["srv".toList, "skills".toList]

def disk : Files where
  entries :=
    [(["srv".toList], .dir), (["srv".toList, HANDLER_PY], .file []),
      (["srv".toList, "skills".toList], .dir), (["srv".toList, "skills_old".toList], .dir),
      (["srv".toList, "skills_old".toList, SKILL_MD], .file [])]

-- An empty name removes the skills directory, a dot puts a skill into it, a sibling passes that has
-- the directory's name in front, and code is executed from anywhere.
theorem names_escape :
    ¬ Contained skills.dir (skills.delete disk []).accesses ∧
      ¬ Contained skills.dir (skills.create disk ['.'] [] false).accesses ∧
      ¬ Contained skills.dir (skills.load disk "../skills_old".toList).accesses ∧
      ¬ Contained skills.dir (skills.exec_skill (fun _ => true) disk dotdot).accesses := by
  refine ⟨fun h => ?_, fun h => ?_, fun h => ?_, fun h => ?_⟩
  · exact absurd (contained_delete.mp h) (by decide)
  · have hplaces : skills.newPlaces disk ['.'] = [skills.dir] := by decide
    have hcreate := contained_create.mp h
    rw [hplaces, oneFolder_singleton] at hcreate
    exact absurd hcreate (by decide)
  · exact absurd (contained_load.mp h) (by decide)
  · exact absurd ((contained_exec_skill _).mp h) (by decide)

end SkillLoader

end EvoClaw.Skills
