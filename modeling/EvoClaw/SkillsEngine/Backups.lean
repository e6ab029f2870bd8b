import EvoClaw.SkillsEngine.Failures

-- What the backup of an application brings back.
namespace EvoClaw.SkillsEngine

open EventSystem Posix Script

variable {β : Type}

section Condition

-- The place that a file of the backup stands for.
def targetOf (f : Place) : Place :=
  if isTombstone f then originalOf f else f

def Held (backup : Files β) (p : Place) : Prop :=
  ∃ f ∈ backup.files, targetOf f = p

-- The backup has the files as they are, and a tombstone where there is none.
def Agrees (project backup : Files β) : Prop :=
  ∀ f ∈ backup.files,
    project.fileAt (targetOf f) = if isTombstone f then none else backup.fileAt f

-- A file can be put there, or removed.
def Free (files : Files β) (p : Place) : Prop :=
  files.isDir p = false ∧ files.blocked p = false

instance (files : Files β) (p : Place) : Decidable (Free files p) :=
  inferInstanceAs (Decidable (_ ∧ _))

def World.remap (world : World β) : List (String × String) :=
  match world.state with
  | .holds state => state.pathRemap
  | _ => []

-- What a path of the skill finds below its add/.
def sourceOf (skill : Skill β) (rel : String) : Option (Node β) :=
  skill.add.bind (·.get (place rel))

def FileOp.moves (fileOp : FileOp) : Bool :=
  (fileOp.kind = "rename" ∨ fileOp.kind = "move") ∧
    (checkPathTraversal fileOp.source).or (checkPathTraversal fileOp.dest) = none

def FileOp.deletes (fileOp : FileOp) : Bool :=
  fileOp.kind = "delete" ∧ checkPathTraversal fileOp.path = none

variable (env : Env β) (skill : Skill β) (start : World β)

def backedUp : List Place :=
  filesToBackup start.remap skill.manifest

-- What is written through a temporary sibling: added files, tools and the structured files.
def staged : List Place :=
  (skill.manifest.adds.filter fun rel => (sourceOf skill rel).isSome).map
      (fun rel => place (resolvePathRemap rel start.remap)) ++
    (skill.manifest.containerTools.filter fun rel => (sourceOf skill rel).isSome).map
      (toolPlace env) ++
    (if skill.manifest.structured.npmDependencies ≠ [] ∧
        (packageJson ∈ backedUp skill start ∨ (start.project.fileAt packageJson).isSome)
      then [packageJson] else []) ++
    (if skill.manifest.structured.envAdditions ≠ [] then [envExample] else [])

-- Nothing is there, and no file operation moves something there.
def Absent (p : Place) : Prop :=
  start.project.occupied p = false ∧
    ∀ fileOp ∈ skill.manifest.fileOps, fileOp.moves → ¬ p <+: place fileOp.dest

-- The file operation only touches places that are backed up, or it finds nothing.
structure FileOp.Undoable (fileOp : FileOp) : Prop where
  moved : fileOp.moves → Absent skill start (place fileOp.source) ∨
    place fileOp.source ∈ backedUp skill start ∧ place fileOp.dest ∈ backedUp skill start
  deleted : fileOp.deletes → Absent skill start (place fileOp.path) ∨
    place fileOp.path ∈ backedUp skill start

-- A temporary file there takes the place of nothing, unless of something that is backed up.
structure Spare (p : Place) : Prop where
  vacant : p ∈ backedUp skill start ∨ start.project.occupied p = false
  apart : ∀ q ∈ backedUp skill start, p <+: q → p = q

-- Whatever the skill writes is backed up, and the backup can be told from its tombstones and be
-- copied back.
structure Restorable : Prop where
  fresh : start.backup.entries = []
  inside : ∀ p ∈ backedUp skill start,
    isOutside p = false ∧ dotdot ∉ p ∧ p.head? ≠ some EVOCLAW_DIR
  free : ∀ p ∈ backedUp skill start, Free start.project p
  plain : ∀ p ∈ backedUp skill start, start.project.occupied p → isTombstone p = false
  apart : ∀ p ∈ backedUp skill start, ∀ q ∈ backedUp skill start, p <+: q → p = q
  fileOps : ∀ fileOp ∈ skill.manifest.fileOps, fileOp.Undoable skill start
  written : ∀ p ∈ staged env skill start, p ∈ backedUp skill start ∧ Spare skill start (tmpOf p)
  tools : skill.manifest.containerTools ≠ [] →
    ∀ p ∈ backedUp skill start ++ (staged env skill start).map tmpOf, ¬ p <+: env.toolsDir

-- Nothing fails once the skill is recorded, but the test of a skill that is new. The removal of a
-- backup does not fail.
def Spares {α : Type} : Op β α → Error → World β → Prop
  | .below .backup _, _, _ | .discard .backup _ _, _, _ => False
  | .runTest _, .calledProcess, _ => ∀ other ∈ start.applied, other.name ≠ skill.manifest.skill
  | _, _, world => world.applied = start.applied

def Tolerated : Guard (Op β) Error (World β)
  | _, _, .proceed, _ => True
  | _, op, .fail error, world => Spares skill start op error world

instance {α : Type} (op : Op β α) (error : Error) (world : World β) :
    Decidable (Spares skill start op error world) := by
  cases op with
  | below area root => cases area <;> unfold Spares <;> infer_instance
  | discard area root p => cases area <;> unfold Spares <;> infer_instance
  | runTest command => cases error <;> unfold Spares <;> infer_instance
  | _ => unfold Spares; infer_instance

instance (α : Type) (op : Op β α) (event : Script.Event Error) (world : World β) :
    Decidable (Tolerated skill start α op event world) :=
  match event with
  | .proceed => isTrue trivial
  | .fail error => inferInstanceAs (Decidable (Spares skill start op error world))

end Condition

section Places

variable {env : Env β} {skill : Skill β} {start : World β} {p q : Place}

-- Where the run may put a file.
def filePlaces (env : Env β) (skill : Skill β) (start : World β) : List Place :=
  backedUp skill start ++ (staged env skill start).map tmpOf

theorem named_place {path : String} : ∀ name ∈ place path, name ≠ [] := by
  have hparts : ∀ name ∈ (Path.parse path.toList).parts, name ≠ [] := by
    intro name hname
    have hpart := (List.mem_filter.mp hname).2
    rw [isPart, decide_eq_true_eq] at hpart
    exact hpart.1
  intro name hname
  unfold place at hname
  dsimp only at hname
  split at hname
  · rcases List.mem_cons.mp hname with rfl | hname
    · exact List.cons_ne_nil _ _
    · exact hparts name hname
  · exact hparts name hname

theorem named_backedUp (hp : p ∈ backedUp skill start) : ∀ name ∈ p, name ≠ [] := by
  simp only [backedUp, filesToBackup, List.mem_append, List.mem_map, List.mem_cons,
    List.not_mem_nil, or_false] at hp
  rcases hp with ((⟨_, _, rfl⟩ | ⟨_, _, rfl⟩) | ⟨_, _, rfl⟩) | rfl | rfl | rfl <;> exact named_place

-- The original of the tombstone of a place is the place.
theorem targetOf_tombstone (hne : p ≠ []) (hnamed : ∀ name ∈ p, name ≠ []) :
    isTombstone (withSuffix p TOMBSTONE_SUFFIX) = true ∧
      targetOf (withSuffix p TOMBSTONE_SUFFIX) = p := by
  have hlast : p.dropLast ++ [fileName p] = p := by
    rw [fileName, List.getLastD_eq_getLast?, List.getLast?_eq_some_getLast hne]
    exact List.dropLast_append_getLast hne
  have hname : fileName p ≠ [] := by
    refine hnamed _ ?_
    rw [fileName, List.getLastD_eq_getLast?, List.getLast?_eq_some_getLast hne]
    exact List.getLast_mem hne
  have hfile : fileName (withSuffix p TOMBSTONE_SUFFIX) = fileName p ++ TOMBSTONE_SUFFIX := by
    simp [withSuffix, fileName]
  have htomb : isTombstone (withSuffix p TOMBSTONE_SUFFIX) = true := by
    rw [isTombstone, hfile]
    exact List.isSuffixOf_iff_suffix.mpr (List.suffix_append _ _)
  refine ⟨htomb, ?_⟩
  have hstem : (fileName p ++ TOMBSTONE_SUFFIX).take
      ((fileName p ++ TOMBSTONE_SUFFIX).length - TOMBSTONE_SUFFIX.length) = fileName p := by
    rw [List.length_append, Nat.add_sub_cancel, List.take_left]
  rw [targetOf, if_pos htomb, originalOf, hfile, hstem, if_neg hname]
  simpa [withSuffix] using hlast

variable (h : Restorable env skill start)
include h

theorem Restorable.ne_nil (hp : p ∈ backedUp skill start) : p ≠ [] := by
  rintro rfl
  have hdir := (h.free [] hp).1
  simp [Tree.isDir] at hdir

-- No place for a file is above a place that is backed up.
theorem Restorable.not_above (hp : p ∈ filePlaces env skill start)
    (hq : q ∈ backedUp skill start) : ¬ p <+: q.dropLast := by
  intro hprefix
  have habove := hprefix.trans (List.dropLast_prefix q)
  have heq : p = q := by
    rcases List.mem_append.mp hp with hp | hp
    · exact h.apart p hp q hq habove
    · obtain ⟨s, hs, rfl⟩ := List.mem_map.mp hp
      exact (h.written s hs).2.apart q hq habove
  have hlength := hprefix.length_le
  have hpos := List.length_pos_iff.mpr (h.ne_nil hq)
  rw [heq, List.length_dropLast] at hlength
  omega

theorem Restorable.not_dir (hp : p ∈ filePlaces env skill start) :
    start.project.isDir p = false := by
  rcases List.mem_append.mp hp with hp | hp
  · exact (h.free p hp).1
  · obtain ⟨s, hs, rfl⟩ := List.mem_map.mp hp
    rcases (h.written s hs).2.vacant with hheld | hvacant
    · exact (h.free _ hheld).1
    · exact Tree.isDir_of_vacant hvacant

theorem Restorable.vacant (hp : p ∈ staged env skill start)
    (hheld : tmpOf p ∉ backedUp skill start) : start.project.fileAt (tmpOf p) = none :=
  Tree.fileAt_of_vacant ((h.written p hp).2.vacant.resolve_left hheld)

end Places

section Securing

variable {env : Env β} {skill : Skill β} {start world : World β} {spare : List Place} {p : Place}
  {files : Files β}

-- What leads back to the start. At the spare places there may be a temporary file.
structure Secured (env : Env β) (skill : Skill β) (start : World β) (spare : List Place)
    (world : World β) : Prop where
  agrees : Agrees start.project world.backup
  held : ∀ p, Held world.backup p → p ∈ backedUp skill start
  added : ∀ p ∈ world.addedFiles, Held world.backup p
  others : ∀ p, ¬ Held world.backup p → world.project.fileAt p = start.project.fileAt p ∨
    p ∈ spare ∧ start.project.fileAt p = none
  spares : ∀ p ∈ spare, p ∈ (staged env skill start).map tmpOf
  dirs : ∀ p ∈ filePlaces env skill start, world.project.isDir p = false

-- A place that is backed up can be written to at any time.
theorem Secured.free (hs : Secured env skill start spare world) (h : Restorable env skill start)
    (hp : p ∈ backedUp skill start) : Free world.project p := by
  refine ⟨hs.dirs p (List.mem_append_left _ hp), Tree.not_blocked_of fun q hq hne => ?_⟩
  have hnot : ¬ Held world.backup q := fun hheld => hne (h.apart q (hs.held q hheld) p hp hq)
  rcases hs.others q hnot with hsame | ⟨hspare, -⟩
  · rw [hsame]
    exact Tree.fileAt_of_not_blocked (h.free p hp).2 hq hne
  · obtain ⟨s, hstaged, rfl⟩ := List.mem_map.mp (hs.spares q hspare)
    exact absurd ((h.written s hstaged).2.apart p hp hq) hne

theorem Secured.change (hs : Secured env skill start spare world)
    (hfiles : ∀ p, files.fileAt p ≠ world.project.fileAt p →
      Held world.backup p ∨ p ∈ spare ∧ start.project.fileAt p = none)
    (hdirs : ∀ p ∈ filePlaces env skill start, files.isDir p → world.project.isDir p) :
    Secured env skill start spare { world with project := files } := by
  refine ⟨hs.agrees, hs.held, hs.added, fun p hp => ?_, hs.spares, fun p hp => ?_⟩
  · by_cases hsame : files.fileAt p = world.project.fileAt p
    · simpa only [hsame] using hs.others p hp
    · exact .inr ((hfiles p hsame).resolve_left hp)
  · have hbefore := hs.dirs p hp
    exact Bool.eq_false_of_not_eq_true fun hdir => by simp [hdirs p hp hdir] at hbefore

-- Files change where the backup holds something, or at spare places.
theorem Secured.rewrites {places : List Place} (hs : Secured env skill start spare world)
    (hfiles : Tree.Rewrites places world.project files)
    (hplaces : ∀ p ∈ places, Held world.backup p ∨ p ∈ spare ∧ start.project.fileAt p = none) :
    Secured env skill start spare { world with project := files } :=
  hs.change (fun p hp => hplaces p (hfiles.fileAt hp)) fun _ _ => hfiles.isDir

theorem Secured.makeDirs (hs : Secured env skill start spare world)
    (hfiles : world.project.makeDirs p = some files)
    (hp : ∀ q ∈ filePlaces env skill start, ¬ q <+: p) :
    Secured env skill start spare { world with project := files } := by
  refine hs.change (fun q hq => ?_) fun q hq hdir => ?_
  · exact absurd ((Tree.makeDirs_widens hfiles).fileAt q) hq
  · have hsame : files.get q = world.project.get q := by
      by_contra hne
      exact hp q hq (Tree.makeDirs_changed hfiles hne)
    rwa [Tree.isDir_iff, ← hsame, ← Tree.isDir_iff]

theorem change_project {f : Files β → Option (Files β)} (hfiles : f world.project = some files) :
    world.change .project f = (.ok (), { world with project := files }) := by
  simp [World.change, World.files, World.setFiles, hfiles]

end Securing

section Undoing

variable {env : Env β} {skill : Skill β} {start world : World β} {state : StateFile} {p : Place}

def Undone (start : World β) (state : StateFile) (world : World β) : Prop :=
  world.state = state ∧ ∀ p, world.project.fileAt p = start.project.fileAt p

-- A file of the backup has come back, and nothing else has changed.
def Restored (env : Env β) (skill : Skill β) (start world : World β) (p : Place)
    (after : World β) : Prop :=
  ∃ files, after = { world with project := files } ∧
    Secured env skill start [] { world with project := files } ∧
    files.fileAt p = start.project.fileAt p ∧
    ∀ q, q ≠ p → files.fileAt q = world.project.fileAt q

variable (h : Restorable env skill start)
include h

theorem Secured.unlink (hs : Secured env skill start [] world) (hp : Held world.backup p) :
    ∃ files, perform env (.unlink true p) world = (.ok (), { world with project := files }) ∧
      Secured env skill start [] { world with project := files } ∧
      ∀ other, files.get other = if other = p then none else world.project.get other := by
  obtain ⟨hdir, hblocked⟩ := hs.free h (hs.held p hp)
  obtain ⟨files, hfiles⟩ := Tree.unlink_of_free hdir hblocked
  have hperform : perform env (.unlink true p) world = (.ok (), { world with project := files }) := by
    rw [perform, change_project hfiles]
  refine ⟨files, hperform, hs.rewrites (Tree.unlink_rewrites hfiles) ?_,
    (Tree.unlink_spec hfiles).2⟩
  intro q hq
  rw [List.mem_singleton.mp hq]
  exact .inl hp

theorem restoreTombstone_wp {f : Place} (hs : Secured env skill start [] world)
    (hf : f ∈ world.backup.files) (htomb : isTombstone f) :
    wp (engine env) (Tolerated skill start)
      (fun result after => result = .ok () ∧ Restored env skill start world (originalOf f) after)
      (op (.unlink true (originalOf f)) : Engine β Unit).surely world := by
  have htarget : targetOf f = originalOf f := if_pos htomb
  have hnone := hs.agrees f hf
  rw [htarget, if_pos htomb] at hnone
  refine wp_sure.mpr fun _ => ?_
  obtain ⟨files, hperform, hsecured, hget⟩ := hs.unlink h ⟨f, hf, htarget⟩
  rw [show (engine env).perform = perform env from rfl, hperform]
  refine ⟨rfl, files, rfl, hsecured, ?_, fun p hp => ?_⟩
  · rw [hnone]
    simp [Tree.fileAt, hget]
  · exact Tree.fileAt_of_get (by rw [hget, if_neg hp])

theorem restoreCopy_wp {f : Place} (hs : Secured env skill start [] world)
    (hf : f ∈ world.backup.files) (htomb : ¬ isTombstone f) :
    wp (engine env) (Tolerated skill start)
      (fun result after => result = .ok () ∧ Restored env skill start world f after)
      ((op (.makeDirs .project f.dropLast)).bind fun _ => copy2 .backup f .project f).surely
      world := by
  have htarget : targetOf f = f := if_neg htomb
  have hheld : Held world.backup f := ⟨f, hf, htarget⟩
  obtain ⟨content, hcontent⟩ := Option.isSome_iff_exists.mp (Tree.mem_files.mp hf)
  have hstart := hs.agrees f hf
  rw [htarget, if_neg htomb, hcontent] at hstart
  obtain ⟨-, hblocked⟩ := hs.free h (hs.held f hheld)
  obtain ⟨made, hmade⟩ := Tree.makeDirs_of_not_blocked hblocked
  have hfirst := hs.makeDirs hmade fun q hq => h.not_above hq (hs.held f hheld)
  have hperform : perform env (.makeDirs .project f.dropLast) world =
      (.ok (), { world with project := made }) := by
    rw [perform, change_project hmade]
  refine wp_sure.mpr fun _ => ?_
  rw [show (engine env).perform = perform env from rfl, hperform]
  refine wp_sure.mpr fun _ => ?_
  have hfetch : perform env (.fetch .backup f) { world with project := made } =
      (.ok (.file content), { world with project := made }) := by
    simp [perform, World.files, Tree.fileAt_eq_some.mp hcontent]
  rw [show (engine env).perform = perform env from rfl, hfetch]
  obtain ⟨hdir, -⟩ := hfirst.free h (hs.held f hheld)
  obtain ⟨files, hcopy, hget⟩ :=
    @Tree.copy_of_free _ _ _ _ _ content (fileName f) hdir (Tree.makeDirs_isDir hmade)
  have hcopied : perform env (.copy .project (.file content) (fileName f) f)
      { world with project := made } = (.ok (), { world with project := files }) := by
    rw [perform, change_project hcopy]
  refine wp_sure.mpr fun _ => ?_
  rw [show (engine env).perform = perform env from rfl, hcopied]
  have hsecond := hfirst.rewrites (Tree.copy_rewrites hcopy hdir) fun q hq =>
    .inl (List.mem_singleton.mp hq ▸ hheld)
  refine ⟨rfl, files, rfl, hsecond, ?_, fun p hp => ?_⟩
  · rw [hstart]
    exact Tree.fileAt_eq_some.mpr (by rw [hget, if_pos rfl])
  · rw [show files.fileAt p = made.fileAt p from
      Tree.fileAt_of_get (by rw [hget, if_neg hp]), (Tree.makeDirs_widens hmade).fileAt]

theorem restoreFile_wp {f : Place} (hs : Secured env skill start [] world)
    (hf : f ∈ world.backup.files) :
    wp (engine env) (Tolerated skill start)
      (fun result after => result = .ok () ∧ Restored env skill start world (targetOf f) after)
      (restoreFile f).surely world := by
  by_cases htomb : isTombstone f
  · rw [restoreFile, if_pos htomb, targetOf, if_pos htomb]
    exact restoreTombstone_wp h hs hf htomb
  · rw [restoreFile, if_neg htomb, targetOf, if_neg htomb]
    exact restoreCopy_wp h hs hf htomb

theorem restoreFiles_wp (fs : List Place) (hs : Secured env skill start [] world)
    (hfs : ∀ f ∈ fs, f ∈ world.backup.files)
    (hrest : ∀ p, (∀ f ∈ fs, targetOf f ≠ p) →
      world.project.fileAt p = start.project.fileAt p) :
    wp (engine env) (Tolerated skill start)
      (fun result after => result = .ok () ∧ Undone start world.state after)
      (fs.forM fun f => (restoreFile f).surely) world := by
  induction fs generalizing world with
  | nil => exact ⟨rfl, rfl, fun p => hrest p nofun⟩
  | cons f fs ih =>
      refine wp_bind_ok (restoreFile_wp h hs (hfs f (by simp))) ?_
      rintro _ ⟨files, rfl, hsecured, hback, hothers⟩
      refine ih hsecured (fun g hg => hfs g (by simp [hg])) fun p hp => ?_
      by_cases heq : p = targetOf f
      · rw [heq]
        exact hback
      · refine (hothers p heq).trans (hrest p fun g hg => ?_)
        rcases List.mem_cons.mp hg with rfl | hg
        · exact fun h => heq h.symm
        · exact hp g hg

theorem restoreBackup_wp (hs : Secured env skill start [] world) :
    wp (engine env) (Tolerated skill start)
      (fun result after => result = .ok () ∧ Undone start world.state after)
      restoreBackup.surely world := by
  refine wp_sure.mpr fun _ => ?_
  change wp _ _ _ ((world.backup.files.forM restoreFile).surely) _
  rw [surely_forM]
  refine restoreFiles_wp h world.backup.files hs (fun f hf => hf) fun p hp => ?_
  exact (hs.others p fun ⟨f, hf, htarget⟩ => hp f hf htarget).resolve_right nofun

theorem unlinkAdded_wp (added : List Place) (hs : Secured env skill start [] world)
    (hadded : ∀ p ∈ added, Held world.backup p) :
    wp (engine env) (Tolerated skill start)
      (fun result after => result = .ok () ∧ ∃ files, after = { world with project := files } ∧
        Secured env skill start [] after)
      (added.forM fun p => op (.unlink true p) : Engine β Unit).surely world := by
  rw [surely_forM]
  induction added generalizing world with
  | nil => exact ⟨rfl, world.project, rfl, hs⟩
  | cons p added ih =>
      refine wp_sure.mpr fun _ => ?_
      obtain ⟨files, hperform, hsecured, -⟩ := hs.unlink h (hadded p (by simp))
      rw [show (engine env).perform = perform env from rfl, hperform]
      refine (ih hsecured fun q hq => hadded q (by simp [hq])).mono ?_
      rintro _ _ ⟨rfl, last, rfl, hlast⟩
      exact ⟨rfl, last, rfl, hlast⟩

-- The added files go, the backup is copied over the project, and the project is as it was.
theorem bringBack_wp (hs : Secured env skill start [] world) :
    wp (engine env) (Tolerated skill start)
      (fun result after => result = .ok () ∧ Undone start world.state after) bringBack world := by
  refine wp_sure.mpr fun _ => ?_
  change wp _ _ _ ((world.addedFiles.forM fun p => op (.unlink true p)).bind fun _ =>
    restoreBackup).surely _
  rw [surely_bind]
  refine wp_bind_ok (unlinkAdded_wp h _ hs hs.added) ?_
  rintro _ ⟨files, rfl, hsecured⟩
  exact restoreBackup_wp h hsecured

omit h in
-- A backup goes, and nothing else does.
theorem clearBackup_wp :
    wp (engine env) (Tolerated skill start)
      (fun result after => result = .ok () ∧ after.state = world.state ∧
        after.project = world.project)
      clearBackup world := by
  have hplaces (places : List Place) : ∀ world : World β,
      wp (engine env) (Tolerated skill start)
        (fun result after => result = .ok () ∧ after.state = world.state ∧
          after.project = world.project)
        (places.forM fun p => op (.discard .backup [] p)) world := by
    induction places with
    | nil => exact fun _ => ⟨rfl, rfl, rfl⟩
    | cons p places ih =>
        intro world
        exact ⟨fun _ => ih { world with backup := world.backup.remove p },
          fun _ _ _ hfails => hfails.elim⟩
  exact ⟨fun _ => hplaces _ world, fun _ _ _ hfails => hfails.elim⟩

omit h in
-- What is undone stays so without the backup.
theorem Undone.thenClear {x : Engine β Unit}
    (hx : wp (engine env) (Tolerated skill start)
      (fun result after => result = .ok () ∧ Undone start state after) x world) :
    wp (engine env) (Tolerated skill start)
      (fun result after => result = .ok () ∧ Undone start state after)
      (x.bind fun _ => clearBackup) world := by
  refine wp_bind_ok hx fun back hback => clearBackup_wp.mono ?_
  rintro _ after ⟨rfl, hstate, hproject⟩
  exact ⟨rfl, hstate.trans hback.1, fun p => by rw [hproject, hback.2]⟩

-- From what leads back, undoing leads back.
theorem undo_wp (hs : Secured env skill start [] world) :
    wp (engine env) (Tolerated skill start)
      (fun result after => result = .ok () ∧ Undone start world.state after) undo world :=
  Undone.thenClear (bringBack_wp h hs)

theorem restoreAndClear_wp (hs : Secured env skill start [] world) :
    wp (engine env) (Tolerated skill start)
      (fun result after => result = .ok () ∧ Undone start world.state after)
      restoreAndClear world :=
  Undone.thenClear (restoreBackup_wp h hs)

end Undoing

section BackingUp

variable {env : Env β} {skill : Skill β} {start world : World β} {state : StateFile} {p f : Place}
  {files : Files β}

theorem Held.mono {backup : Files β}
    (hfiles : ∀ f, (backup.fileAt f).isSome → (files.fileAt f).isSome) (hp : Held backup p) :
    Held files p := by
  obtain ⟨f, hf, htarget⟩ := hp
  exact ⟨f, Tree.mem_files.mpr (hfiles f (Tree.mem_files.mp hf)), htarget⟩

-- While the backup is made. None of its places is a directory of it.
structure BackingUp (skill : Skill β) (start : World β) (state : StateFile) (world : World β) :
    Prop where
  project : world.project = start.project
  agrees : Agrees start.project world.backup
  held : ∀ p, Held world.backup p → p ∈ backedUp skill start
  added : world.addedFiles = []
  state : world.state = state
  dirs : ∀ p ∈ backedUp skill start, world.backup.isDir p = false

theorem BackingUp.secured (hb : BackingUp skill start state world) (h : Restorable env skill start) :
    Secured env skill start [] world := by
  refine ⟨hb.agrees, hb.held, ?_, fun p _ => .inl (by rw [hb.project]), nofun, fun p hp => ?_⟩
  · rw [hb.added]
    exact nofun
  · rw [hb.project]
    exact h.not_dir hp

theorem BackingUp.makeDirs (hb : BackingUp skill start state world) (h : Restorable env skill start)
    (hp : p ∈ backedUp skill start) (hfiles : world.backup.makeDirs p.dropLast = some files) :
    BackingUp skill start state { world with backup := files } := by
  have hsame := (Tree.makeDirs_widens hfiles).fileAt
  refine ⟨hb.project, fun f hf => ?_, fun q hq => hb.held q ?_, hb.added, hb.state, fun q hq => ?_⟩
  · rw [Tree.mem_files, hsame] at hf
    rw [show ({ world with backup := files } : World β).backup.fileAt f = world.backup.fileAt f from
      hsame f]
    exact hb.agrees f (Tree.mem_files.mpr hf)
  · exact hq.mono fun f hf => by rwa [hsame] at hf
  · refine Bool.eq_false_of_not_eq_true fun hdir => ?_
    have hget : files.get q = world.backup.get q := by
      by_contra hne
      exact h.not_above (List.mem_append_left _ hq) hp (Tree.makeDirs_changed hfiles hne)
    have hbefore := hb.dirs q hq
    rw [Tree.isDir_iff, hget, ← Tree.isDir_iff, hbefore] at hdir
    cases hdir

-- The copy of a file, or the tombstone of none.
theorem BackingUp.put {content : β} (hb : BackingUp skill start state world)
    (hp : p ∈ backedUp skill start) (htarget : targetOf f = p)
    (hagrees : start.project.fileAt p = if isTombstone f then none else some content)
    (hget : ∀ q, files.get q = if q = f then some (.file content) else world.backup.get q) :
    BackingUp skill start state { world with backup := files } ∧
      (∀ q, Held world.backup q → Held files q) ∧ Held files p := by
  have hother {q : Place} (hq : q ≠ f) : files.fileAt q = world.backup.fileAt q :=
    Tree.fileAt_of_get (by rw [hget, if_neg hq])
  have hself : files.fileAt f = some content := Tree.fileAt_eq_some.mpr (by rw [hget, if_pos rfl])
  have hmono (q : Place) (hq : (world.backup.fileAt q).isSome) : (files.fileAt q).isSome := by
    by_cases heq : q = f
    · rw [heq, hself]
      rfl
    · rwa [hother heq]
  refine ⟨⟨hb.project, fun g hg => ?_, fun q hq => ?_, hb.added, hb.state, fun q hq => ?_⟩,
    fun q => Held.mono hmono, f, ?_, htarget⟩
  · by_cases heq : g = f
    · rw [heq, htarget]
      exact hagrees.trans (by rw [hself])
    · have hbefore : g ∈ world.backup.files := by
        rwa [Tree.mem_files, ← hother heq, ← Tree.mem_files]
      rw [hb.agrees g hbefore]
      exact congrArg _ (hother heq).symm
  · obtain ⟨g, hg, rfl⟩ := hq
    by_cases heq : g = f
    · rw [heq, htarget]
      exact hp
    · refine hb.held _ ⟨g, ?_, rfl⟩
      rwa [Tree.mem_files, ← hother heq, ← Tree.mem_files]
  · refine Bool.eq_false_of_not_eq_true fun hdir => ?_
    have hafter := Tree.isDir_iff.mp hdir
    rw [hget] at hafter
    split at hafter
    · cases hafter
    · have hbefore := hb.dirs q hq
      rw [Tree.isDir_iff.mpr hafter] at hbefore
      cases hbefore
  · rw [Tree.mem_files, hself]
    rfl

variable (h : Restorable env skill start)
include h

theorem copyToBackup_wp (hb : BackingUp skill start state world) (hp : p ∈ backedUp skill start)
    (hthere : start.project.occupied p = true) :
    wp (engine env) (Tolerated skill start)
      (fun result after => BackingUp skill start state after ∧
        (∀ q, Held world.backup q → Held after.backup q) ∧
        (result = .ok () → Held after.backup p))
      (copy2 .project p .backup p) world := by
  have hunchanged (e : Error) :
      BackingUp skill start state world ∧ (∀ q, Held world.backup q → Held world.backup q) ∧
        ((.error e : Except Error Unit) = .ok () → Held world.backup p) :=
    ⟨hb, fun _ => id, fun he => by cases he⟩
  refine wp_bind.mpr ⟨fun _ => ?_, fun e _ _ _ => hunchanged e⟩
  cases hnode : world.project.get p with
  | none =>
      simp only [engine, perform, World.files, hnode]
      exact hunchanged _
  | some node =>
      simp only [engine, perform, World.files, hnode]
      refine ⟨fun _ => ?_, fun e _ _ _ => hunchanged e⟩
      simp only [perform, World.change, World.files]
      cases hcopy : world.backup.copy node (fileName p) p with
      | none => exact hunchanged _
      | some files =>
          obtain ⟨content, rfl, hget⟩ := Tree.copy_spec hcopy (hb.dirs p hp)
          have hplain := h.plain p hp hthere
          have htarget : targetOf p = p := if_neg (by simp [hplain])
          rw [hb.project] at hnode
          obtain ⟨hafter, hkept, hnew⟩ := hb.put hp htarget
            (by rw [if_neg (by simp [hplain]), Tree.fileAt_eq_some.mpr hnode]) hget
          exact ⟨hafter, hkept, fun _ => hnew⟩

theorem backupFile_wp (hb : BackingUp skill start state world) (hp : p ∈ backedUp skill start) :
    wp (engine env) (Tolerated skill start)
      (fun result after => BackingUp skill start state after ∧
        (∀ q, Held world.backup q → Held after.backup q) ∧
        (result = .ok () → Held after.backup p))
      (backupFile env p) world := by
  have hunchanged {made : Files β} (hmade : BackingUp skill start state { world with backup := made })
      (hkept : ∀ q, Held world.backup q → Held made q) (e : Error) :
      BackingUp skill start state { world with backup := made } ∧
        (∀ q, Held world.backup q → Held made q) ∧
        ((.error e : Except Error Unit) = .ok () → Held made p) :=
    ⟨hmade, hkept, fun he => by cases he⟩
  refine wp_bind.mpr ⟨fun _ => ?_, fun e _ _ _ => hunchanged hb (fun _ => id) e⟩
  simp only [engine, perform, World.change, World.files]
  cases hfiles : world.backup.makeDirs p.dropLast with
  | none => exact hunchanged hb (fun _ => id) _
  | some made =>
      have hmade := hb.makeDirs h hp hfiles
      have hkept : ∀ q, Held world.backup q → Held made q := fun q => Held.mono fun f hf => by
        rwa [(Tree.makeDirs_widens hfiles).fileAt]
      refine wp_bind.mpr ⟨fun _ => ?_, fun e _ _ _ => hunchanged hmade hkept e⟩
      change wp _ _ _ (if world.project.occupied p = true then _ else _) _
      split
      · rename_i hthere
        rw [hb.project] at hthere
        refine (copyToBackup_wp h hmade hp hthere).mono fun result after hafter => ?_
        exact ⟨hafter.1, fun q hq => hafter.2.1 q (hkept q hq), hafter.2.2⟩
      · rename_i hthere
        rw [hb.project, Bool.not_eq_true] at hthere
        refine ⟨fun _ => ?_, fun e _ _ _ => hunchanged hmade hkept e⟩
        simp only [perform, World.change, World.files, World.setFiles]
        cases hwrite : made.write (withSuffix p TOMBSTONE_SUFFIX) (env.encode []) with
        | none => exact hunchanged hmade hkept _
        | some files =>
            obtain ⟨htomb, htarget⟩ := targetOf_tombstone (h.ne_nil hp) (named_backedUp hp)
            obtain ⟨hafter, hmore, hnew⟩ := hmade.put hp htarget
              (by rw [if_pos htomb, Tree.fileAt_of_vacant hthere]) (Tree.write_spec hwrite).2.2.2
            exact ⟨hafter, fun q hq => hmore q (hkept q hq), fun _ => hnew⟩

-- Each of the places is held in the end.
theorem createBackup_wp (places : List Place) (hplaces : ∀ p ∈ places, p ∈ backedUp skill start)
    (hb : BackingUp skill start state world) :
    wp (engine env) (Tolerated skill start)
      (fun result after => BackingUp skill start state after ∧
        (∀ q, Held world.backup q → Held after.backup q) ∧
        (result = .ok () → ∀ p ∈ places, Held after.backup p))
      (createBackup env places) world := by
  induction places generalizing world with
  | nil => exact ⟨hb, fun _ => id, fun _ p hp => by simp at hp⟩
  | cons p places ih =>
      have hp := hplaces p (by simp)
      have hinside : isOutside p = false := (h.inside p hp).1
      rw [createBackup, List.forM, if_neg (by simp [hinside])]
      refine wp_bind.mpr ((backupFile_wp h hb hp).mono fun result after hafter => ?_)
      cases result with
      | error e => exact ⟨hafter.1, hafter.2.1, fun he => by cases he⟩
      | ok _ =>
          refine (ih (fun q hq => hplaces q (by simp [hq])) hafter.1).mono fun result last hlast => ?_
          refine ⟨hlast.1, fun q hq => hlast.2.1 q (hafter.2.1 q hq), fun he q hq => ?_⟩
          rcases List.mem_cons.mp hq with rfl | hq
          · exact hlast.2.1 q (hafter.2.2 rfl)
          · exact hlast.2.2 he q hq

end BackingUp

end EvoClaw.SkillsEngine
