import EvoClaw.EventSystem.Script
import EvoClaw.SkillsEngine.Files

-- Where the file operations of a skill reach.
namespace EvoClaw.SkillsEngine

open EventSystem Posix Script

variable {β : Type}

section Places

-- _validate_relative_path, which raises unless this holds.
def validatesRelativePath (p : String) : Bool :=
  let path := Path.parse p.toList
  path.root.isNone && !path.parts.contains dotdot

-- What read_manifest demands of an entry of file_ops. A key that is missing is not looked at.
def FileOp.validates (fileOp : FileOp) : Bool :=
  [fileOp.source, fileOp.dest, fileOp.path].all fun path => path = "" || validatesRelativePath path

-- A place below the project root, and not the root itself.
structure BelowRoot (p : Place) : Prop where
  ne_root : p ≠ []
  names : ∀ name ∈ p, isPart name = true ∧ name ≠ dotdot ∧ '/' ∉ name

-- Where shutil.move puts the source: into a directory under its own name.
def moveTarget (files : Files β) (source dest : Place) : Place :=
  if files.isDir dest ∧ source ≠ dest then dest ++ [fileName source] else dest

-- What an operation deletes, moves, or writes.
def touched (world : World β) {α : Type} : Op β α → List Place
  | .makeDirs .project p =>
      p.inits.filter fun above => world.project.occupied above = false
  | .unlink _ p => [p]
  | .discard .project root _ => [root]
  | .move source dest =>
      if (world.project.move source dest).isSome then
        [source, moveTarget world.project source dest]
      else []
  | _ => []

def TouchesBelowRoot {α : Type} (op : Op β α) (world : World β) : Prop :=
  ∀ p ∈ touched world op, BelowRoot p

-- In no run an operation reaches the root or beyond.
def StaysBelowRoot (env : Env β) {α : Type} (script : Engine β α) (world : World β) : Prop :=
  ∀ events, Along (Script.step (engine env)) (Performs TouchesBelowRoot).onStep ⟨script, world⟩ events

-- A path that is spelt with something and has no components, as "." has none.
def namesRoot (path : String) : Bool :=
  path ≠ "" ∧ place path = []

-- No deletion of the root, and no move of the root to itself.
def FileOp.sparesRoot (fileOp : FileOp) : Bool :=
  (fileOp.kind = "delete" → namesRoot fileOp.path = false) ∧
    (fileOp.kind = "rename" ∨ fileOp.kind = "move" →
      ¬ (namesRoot fileOp.source = true ∧ namesRoot fileOp.dest = true))

end Places

section Checks

theorem not_mem_of_mem_splitOn {c : Char} {text name : List Char} (h : name ∈ text.splitOn c) :
    c ∉ name := by
  induction text generalizing name with
  | nil =>
      rw [List.splitOn_nil, List.mem_singleton] at h
      simp [h]
  | cons d text ih =>
      rw [List.splitOn, List.splitOnP_cons_eq_if_modifyHead] at h
      split at h
      · obtain rfl | h := List.mem_cons.mp h
        · simp
        · exact ih h
      · rename_i hd
        have hne : d ≠ c := fun heq => hd (by simp [heq])
        obtain ⟨first, rest, hsplit⟩ := List.exists_cons_of_ne_nil (List.splitOnP_ne_nil (· == c) text)
        rw [hsplit, List.modifyHead_cons] at h
        obtain rfl | h := List.mem_cons.mp h
        · have hfirst : c ∉ first := ih (by
            rw [List.splitOn, hsplit]
            exact List.mem_cons_self)
          simp [hne.symm, hfirst]
        · exact ih (by
            rw [List.splitOn, hsplit]
            exact List.mem_cons_of_mem first h)

theorem checkPathTraversal_none {rel : String} :
    checkPathTraversal rel = none ↔
      rel ≠ "" ∧ (Path.parse rel.toList).root = none ∧ dotdot ∉ (Path.parse rel.toList).parts := by
  unfold checkPathTraversal
  dsimp only
  split
  · simp_all
  · split
    · rename_i hroot
      simp [Option.isSome_iff_ne_none.mp hroot]
    · rename_i hrel hroot
      split <;> simp_all

theorem place_of_root_none {rel : String} (h : (Path.parse rel.toList).root = none) :
    place rel = (Path.parse rel.toList).parts := by
  simp [place, h]

theorem namesRoot_of_checked {rel : String} (h : checkPathTraversal rel = none) :
    namesRoot rel = true ↔ place rel = [] := by
  rw [namesRoot, decide_eq_true_iff]
  exact and_iff_right (checkPathTraversal_none.mp h).1

-- Nothing but "no components" can make a path with a check name the root.
theorem checked_of_namesRoot {rel : String} (h : namesRoot rel = true) :
    checkPathTraversal rel = none := by
  rw [namesRoot, decide_eq_true_iff] at h
  have hroot : (Path.parse rel.toList).root = none := by
    by_contra hroot
    have hsome := Option.isSome_iff_ne_none.mpr hroot
    simp [place, hsome] at h
  have hparts := h.2
  rw [place_of_root_none hroot] at hparts
  exact checkPathTraversal_none.mpr ⟨h.1, hroot, by simp [hparts]⟩

-- What the check lets through stays below the root, if it has components.
theorem belowRoot_of_checked {rel : String} (h : checkPathTraversal rel = none)
    (hne : place rel ≠ []) : BelowRoot (place rel) := by
  obtain ⟨-, hroot, hdotdot⟩ := checkPathTraversal_none.mp h
  refine ⟨hne, fun name hname => ?_⟩
  rw [place_of_root_none hroot] at hname
  obtain ⟨hsplit, hpart⟩ := List.mem_filter.mp hname
  exact ⟨hpart, fun heq => hdotdot (heq ▸ hname), not_mem_of_mem_splitOn hsplit⟩

end Checks

section Operations

variable {world : World β}

theorem touchesBelowRoot_of_nil {α : Type} {op : Op β α} (h : touched world op = []) :
    TouchesBelowRoot op world := by
  intro p hp
  rw [h] at hp
  cases hp

theorem BelowRoot.of_above {p above : Place} (hp : p = [] ∨ BelowRoot p) (hne : above ≠ [])
    (h : above <+: p) : BelowRoot above := by
  refine ⟨hne, fun name hname => ?_⟩
  obtain rfl | hp := hp
  · exact absurd (List.prefix_nil.mp h) hne
  · exact hp.names name (h.subset hname)

theorem makeDirs_belowRoot {p : Place} (hp : p = [] ∨ BelowRoot p) :
    TouchesBelowRoot (.makeDirs .project p.dropLast) world := by
  intro above habove
  obtain ⟨hinit, hfree⟩ := List.mem_filter.mp habove
  have hne : above ≠ [] := by
    rintro rfl
    simp [Tree.occupied] at hfree
  exact .of_above hp hne (((List.mem_inits _ _).mp hinit).trans (List.dropLast_prefix p))

-- The root is not moved anywhere but to itself.
theorem move_root_none {files : Files β} {dest : Place} (hne : dest ≠ []) :
    files.move [] dest = none := by
  unfold Tree.move
  dsimp only
  split
  · split
    · rfl
    · rw [Tree.rename, if_neg (by simp), if_pos (.inl List.nil_prefix)]
  · rw [Tree.rename, if_neg hne.symm, if_pos (.inl List.nil_prefix)]

theorem move_root_self (files : Files β) : files.move [] [] = some files := by
  simp [Tree.move, Tree.rename, Tree.occupied]

theorem move_belowRoot {source dest : Place} (hsource : source = [] ∨ BelowRoot source)
    (hdest : dest = [] ∨ BelowRoot dest) :
    TouchesBelowRoot (.move source dest) world ↔ ¬ (source = [] ∧ dest = []) := by
  constructor
  · rintro h ⟨rfl, rfl⟩
    have hroot : ([] : Place) ∈ touched world (.move [] []) := by
      simp [touched, move_root_self]
    exact (h [] hroot).ne_root rfl
  · intro hnot p hp
    rw [touched] at hp
    split at hp
    · rename_i hmoved
      obtain rfl | hsource := hsource
      · -- the root would have to be moved below itself
        rw [move_root_none fun hdest => hnot ⟨rfl, hdest⟩] at hmoved
        cases hmoved
      · obtain rfl | hp := List.mem_cons.mp hp
        · exact hsource
        · rw [List.mem_singleton.mp hp, moveTarget]
          have hname := List.getLast_mem hsource.ne_root
          split
          · refine ⟨List.append_ne_nil_of_right_ne_nil dest (List.cons_ne_nil _ _), fun name hmem => ?_⟩
            obtain hmem | hmem := List.mem_append.mp hmem
            · obtain rfl | hdest := hdest
              · cases hmem
              · exact hdest.names name hmem
            · rw [List.mem_singleton.mp hmem, fileName, List.getLastD_eq_getLast?,
                List.getLast?_eq_some_getLast hsource.ne_root]
              exact hsource.names _ hname
          · rename_i hstays
            obtain rfl | hdest := hdest
            · refine absurd ⟨?_, hsource.ne_root⟩ hstays
              exact Tree.isDir_iff.mpr (Tree.get_nil _)
            · exact hdest
    · cases hp

end Operations

section Scripts

variable (env : Env β)

theorem throughout_removeTree {p : Place} (hp : BelowRoot p) (world : World β) :
    Throughout (engine env) TouchesBelowRoot (removeTree .project p : Engine β Unit) world := by
  refine Throughout.bind ⟨touchesBelowRoot_of_nil rfl, trivial, fun _ _ _ => trivial⟩
    fun places world => ?_
  induction places generalizing world with
  | nil => trivial
  | cons q rest ih =>
      refine Throughout.bind ⟨fun root hroot => ?_, trivial, fun _ _ _ => trivial⟩ fun _ world => ih world
      rw [List.mem_singleton.mp hroot]
      exact hp

theorem throughout_deletePlace {p : Place} (hp : p = [] ∨ BelowRoot p) (world : World β) :
    Throughout (engine env) TouchesBelowRoot (deletePlace p : Engine β Unit) world ↔ p ≠ [] := by
  constructor
  · rintro h rfl
    -- the root is there, it is a directory, and nothing fails
    have hroot : world.project.get [] = some .dir := Tree.get_nil _
    have hthere : exec (engine env) (Script.op (.occupied .project [])) world = (.ok true, world) := by
      simp [exec, Script.op, engine, perform, Tree.occupied, hroot, World.files]
    have hdir : exec (engine env) (Script.op (.isDir .project [])) world = (.ok true, world) := by
      simp [exec, Script.op, engine, perform, Tree.isDir, hroot, World.files]
    have hremove := (h.behind hthere).behind hdir
    rw [if_pos rfl] at hremove
    -- there is something to remove, at least the root itself
    obtain ⟨q, rest, hbelow⟩ := List.exists_cons_of_ne_nil (Tree.below_ne_nil world.project [])
    have hlisted : exec (engine env) (Script.op (.below .project [])) world =
        (.ok (q :: rest), world) := by
      simp [exec, Script.op, engine, perform, World.files, hbelow]
    exact ((hremove.behind hlisted).1 [] (List.mem_singleton.mpr rfl)).ne_root rfl
  · intro hne
    have hbelow : BelowRoot p := hp.resolve_left hne
    have htouch : ∀ q ∈ [p], BelowRoot q := fun q hq => List.mem_singleton.mp hq ▸ hbelow
    refine Throughout.bind ⟨touchesBelowRoot_of_nil rfl, trivial, fun _ _ _ => trivial⟩ fun there world => ?_
    cases there with
    | false => trivial
    | true =>
        refine Throughout.bind ⟨touchesBelowRoot_of_nil rfl, trivial, fun _ _ _ => trivial⟩ fun isDir world => ?_
        cases isDir with
        | true => exact throughout_removeTree env hbelow world
        | false => exact ⟨htouch, trivial, fun _ _ _ => trivial⟩

theorem throughout_movePlace {source dest : Place} (hsource : source = [] ∨ BelowRoot source)
    (hdest : dest = [] ∨ BelowRoot dest) (world : World β) :
    Throughout (engine env) TouchesBelowRoot (movePlace source dest : Engine β Unit) world ↔
      ¬ (source = [] ∧ dest = []) := by
  constructor
  · rintro h ⟨rfl, rfl⟩
    have hroot : world.project.get [] = some .dir := Tree.get_nil _
    have hthere : exec (engine env) (Script.op (.occupied .project [])) world = (.ok true, world) := by
      simp [exec, Script.op, engine, perform, Tree.occupied, hroot, World.files]
    have hmade : exec (engine env) (Script.op (.makeDirs .project [])) world = (.ok (), world) := by
      simp [exec, Script.op, engine, perform, World.change, World.files, World.setFiles,
        Tree.makeDirs, Tree.makeDirsFrom]
    have hmove := (h.behind hthere).behind hmade
    exact (move_belowRoot (.inl rfl) (.inl rfl)).mp hmove.1 ⟨rfl, rfl⟩
  · intro hnot
    refine Throughout.bind ⟨touchesBelowRoot_of_nil rfl, trivial, fun _ _ _ => trivial⟩ fun there world => ?_
    cases there with
    | false => trivial
    | true =>
        refine Throughout.bind ⟨makeDirs_belowRoot hdest, trivial, fun _ _ _ => trivial⟩
          fun _ world => ?_
        exact ⟨(move_belowRoot hsource hdest).mpr hnot, trivial, fun _ _ _ => trivial⟩

-- A path that passes the check names the root or a place below it.
theorem root_or_below {rel : String} (h : checkPathTraversal rel = none) :
    place rel = [] ∨ BelowRoot (place rel) :=
  or_iff_not_imp_left.mpr (belowRoot_of_checked h)

theorem throughout_deleteFile (fileOp : FileOp) (world : World β) :
    Throughout (engine env) TouchesBelowRoot (deleteFile fileOp : Engine β _) world ↔
      namesRoot fileOp.path = false := by
  unfold deleteFile
  split
  · rename_i error hcheck
    refine iff_of_true trivial (eq_false_of_ne_true fun hroot => ?_)
    rw [checked_of_namesRoot hroot] at hcheck
    cases hcheck
  · rename_i hcheck
    have hplace := throughout_deletePlace env (root_or_below hcheck) world
    rw [← Bool.not_eq_true, namesRoot_of_checked hcheck, ← ne_eq, ← hplace]
    exact ⟨Throughout.of_bind, fun h => h.bind fun _ _ => trivial⟩

theorem throughout_renameFile (fileOp : FileOp) (world : World β) :
    Throughout (engine env) TouchesBelowRoot (renameFile fileOp : Engine β _) world ↔
      ¬ (namesRoot fileOp.source = true ∧ namesRoot fileOp.dest = true) := by
  unfold renameFile
  split
  · rename_i error hcheck
    refine iff_of_true trivial fun hroot => ?_
    rw [checked_of_namesRoot hroot.1, checked_of_namesRoot hroot.2] at hcheck
    cases hcheck
  · rename_i hcheck
    obtain ⟨hsource, hdest⟩ := Option.or_eq_none_iff.mp hcheck
    have hplaces := throughout_movePlace env (root_or_below hsource) (root_or_below hdest) world
    rw [namesRoot_of_checked hsource, namesRoot_of_checked hdest, ← hplaces]
    exact ⟨Throughout.of_bind, fun h => h.bind fun _ _ => trivial⟩

theorem throughout_executeFileOp (fileOp : FileOp) (world : World β) :
    Throughout (engine env) TouchesBelowRoot (executeFileOp fileOp : Engine β _) world ↔
      fileOp.sparesRoot = true := by
  have htry : ∀ x : Engine β (Option FileOpError),
      Throughout (engine env) TouchesBelowRoot
          (tryCatch x fun _ => return some .failed) world ↔
        Throughout (engine env) TouchesBelowRoot x world :=
    fun x => ⟨Throughout.of_tryCatch, fun h => h.tryCatch fun _ _ => trivial⟩
  rw [executeFileOp, htry, FileOp.sparesRoot, decide_eq_true_iff]
  by_cases hmove : fileOp.kind = "rename" ∨ fileOp.kind = "move"
  · rw [if_pos hmove, throughout_renameFile]
    have hdelete : fileOp.kind ≠ "delete" := by
      obtain hkind | hkind := hmove <;> simp [hkind]
    exact ⟨fun h => ⟨fun hkind => absurd hkind hdelete, fun _ => h⟩, fun h => h.2 hmove⟩
  · rw [if_neg hmove]
    by_cases hdelete : fileOp.kind = "delete"
    · rw [if_pos hdelete, throughout_deleteFile]
      exact ⟨fun h => ⟨fun _ => h, fun hkind => absurd hkind hmove⟩, fun h => h.1 hdelete⟩
    · rw [if_neg hdelete]
      exact iff_of_true trivial
        ⟨fun hkind => absurd hkind hdelete, fun hkind => absurd hkind hmove⟩

theorem throughout_executeFileOps (fileOps : List FileOp) (world : World β) :
    Throughout (engine env) TouchesBelowRoot (executeFileOps fileOps : Engine β _) world ↔
      ∀ fileOp ∈ fileOps, fileOp.sparesRoot = true := by
  induction fileOps generalizing world with
  | nil => exact iff_of_true trivial nofun
  | cons fileOp rest ih =>
      rw [List.forall_mem_cons, ← throughout_executeFileOp env fileOp world]
      constructor
      · intro h
        refine ⟨Throughout.of_bind h, ?_⟩
        -- whatever becomes of the operation, the next one is carried out
        have hends : ∃ error, (exec (engine env) (executeFileOp fileOp) world).1 = .ok error :=
          exec_tryCatch_ok fun _ => rfl
        obtain ⟨error, hok⟩ := hends
        exact (ih _).mp (Throughout.of_bind (h.behind (Prod.ext hok rfl)))
      · rintro ⟨hfirst, hrest⟩
        exact hfirst.bind fun _ world => ((ih world).mpr hrest).bind fun _ _ => trivial

-- The file operations stay below the root in every run if and only if none deletes a path that
-- has no components, and none moves such a path to such a path.
theorem staysBelowRoot_iff (fileOps : List FileOp) (world : World β) :
    StaysBelowRoot env (executeFileOps fileOps) world ↔
      ∀ fileOp ∈ fileOps, fileOp.sparesRoot = true :=
  throughout_iff.trans (throughout_executeFileOps env fileOps world)

-- A deletion of "." passes both checks.
theorem delete_dot_reaches_root :
    ({ kind := "delete", path := "." } : FileOp).validates = true ∧
      ¬ StaysBelowRoot (sampleEnv []) (executeFileOps [{ kind := "delete", path := "." }])
        (.initial { entries := [(place "run.py", .file (.ofString "print()"))] }) := by
  refine ⟨by decide, fun h => ?_⟩
  have hspares := (throughout_executeFileOps _ _ _).mp (throughout_iff.mp h)
  exact absurd hspares (by decide)

end Scripts

end EvoClaw.SkillsEngine
