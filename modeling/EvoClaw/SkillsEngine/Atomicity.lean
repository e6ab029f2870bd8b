import EvoClaw.SkillsEngine.Backups

-- What an application that fails leaves behind.
namespace EvoClaw.SkillsEngine

open EventSystem Posix Script

variable {β : Type}

section Underway

variable {env : Env β} {skill : Skill β} {start world : World β} {spare : List Place}
  {state : StateFile} {files : Files β} {p : Place}

-- While the project is changed, and everything that is backed up is held.
structure Underway (env : Env β) (skill : Skill β) (start : World β) (state : StateFile)
    (spare : List Place) (world : World β) : Prop where
  secured : Secured env skill start spare world
  full : ∀ p ∈ backedUp skill start, Held world.backup p
  state : world.state = state

-- The places that may be written to.
def Writable (skill : Skill β) (start : World β) (spare : List Place) (p : Place) : Prop :=
  p ∈ backedUp skill start ∨ p ∈ spare ∧ start.project.fileAt p = none

theorem Underway.writable (hu : Underway env skill start state spare world)
    (hp : Writable skill start spare p) : p ∈ filePlaces env skill start := by
  rcases hp with hp | ⟨hp, -⟩
  · exact List.mem_append_left _ hp
  · exact List.mem_append_right _ (hu.secured.spares p hp)

theorem Underway.not_dir (hu : Underway env skill start state spare world)
    (hp : Writable skill start spare p) : world.project.isDir p = false :=
  hu.secured.dirs p (hu.writable hp)

theorem Underway.rewrites {places : List Place} (hu : Underway env skill start state spare world)
    (hfiles : Tree.Rewrites places world.project files)
    (hplaces : ∀ p ∈ places, Writable skill start spare p) :
    Underway env skill start state spare { world with project := files } :=
  ⟨hu.secured.rewrites hfiles fun p hp => (hplaces p hp).imp_left (hu.full p), hu.full, hu.state⟩

theorem Underway.noteAdded (hu : Underway env skill start state spare world)
    (hp : p ∈ backedUp skill start) :
    Underway env skill start state spare
      { world with addedFiles := world.addedFiles ++ [p] } := by
  obtain ⟨hagrees, hheld, hadded, hothers, hspares, hdirs⟩ := hu.secured
  refine ⟨⟨hagrees, hheld, fun q hq => ?_, hothers, hspares, hdirs⟩, hu.full, hu.state⟩
  rcases List.mem_append.mp hq with hq | hq
  · exact hadded q hq
  · rw [List.mem_singleton.mp hq]
    exact hu.full p hp

theorem Underway.base (hu : Underway env skill start state spare world) (base : Files β) :
    Underway env skill start state spare { world with base := base } := by
  obtain ⟨hagrees, hheld, hadded, hothers, hspares, hdirs⟩ := hu.secured
  exact ⟨⟨hagrees, hheld, hadded, hothers, hspares, hdirs⟩, hu.full, hu.state⟩

-- From here on there may be a temporary file.
theorem Underway.withTmp (hu : Underway env skill start state [] world)
    (hp : p ∈ staged env skill start) : Underway env skill start state [tmpOf p] world := by
  obtain ⟨hagrees, hheld, hadded, hothers, -, hdirs⟩ := hu.secured
  refine ⟨⟨hagrees, hheld, hadded, fun q hq => .inl ((hothers q hq).resolve_right nofun),
    fun q hq => ?_, hdirs⟩, hu.full, hu.state⟩
  rw [List.mem_singleton.mp hq]
  exact List.mem_map_of_mem hp

theorem Underway.withoutTmp (hu : Underway env skill start state [p] world)
    (hgone : world.project.fileAt p = none) : Underway env skill start state [] world := by
  obtain ⟨hagrees, hheld, hadded, hothers, -, hdirs⟩ := hu.secured
  refine ⟨⟨hagrees, hheld, hadded, fun q hq => .inl ?_, nofun, hdirs⟩, hu.full, hu.state⟩
  rcases hothers q hq with hsame | ⟨hspare, hstart⟩
  · exact hsame
  · rw [hstart, List.mem_singleton.mp hspare, hgone]

theorem Restorable.writable_tmp (h : Restorable env skill start) (hp : p ∈ staged env skill start) :
    Writable skill start [tmpOf p] (tmpOf p) := by
  by_cases hheld : tmpOf p ∈ backedUp skill start
  · exact .inl hheld
  · exact .inr ⟨List.mem_singleton.mpr rfl, h.vacant hp hheld⟩

end Underway

section Operations

variable {env : Env β} {skill : Skill β} {start : World β} {spare : List Place}
  {state : StateFile} {inv : World β → Prop} {α : Type} {sure : Bool} {p q : Place}

-- What keeps the invariant from each world.
def Sound (env : Env β) (inv : World β → Prop) (_ : Bool) (α : Type) (op : Op β α) : Prop :=
  ∀ world, inv world → inv (perform env op world).2

theorem keeps_of_sound {script : Engine β α} (h : Within (Sound env inv) script) :
    Keeps (engine env) (Tolerated skill start) inv script :=
  h.keeps fun _ _ _ before hsound hbefore _ => hsound before hbefore

theorem sound_of_looks {script : Engine β α} (h : Within Looks script) :
    Within (Sound env inv) script :=
  h.mono fun _ _ op hlooks world hworld => by rwa [hlooks env world]

theorem sound_of_reads {script : Engine β α} (h : Within Reads script) :
    Within (Sound env inv) script :=
  sound_of_looks (looks_of_reads h)

theorem keeps_of_looks {script : Engine β α} (h : Within Looks script) :
    Keeps (engine env) (Tolerated skill start) inv script :=
  keeps_of_sound (sound_of_looks h)

theorem sound_fetch (area : Area) (p : Place) :
    Within (Sound env inv) (op (.fetch area p) : Engine β _) := by
  refine sound_of_looks (.op fun env world => ?_)
  simp only [perform]
  split <;> rfl

theorem sound_merge (ours base theirs : β) :
    Within (Sound env inv) (op (.merge ours base theirs) : Engine β _) := by
  refine sound_of_looks (.op fun env world => ?_)
  simp only [perform]
  split <;> rfl

theorem sound_project {o : Op β Unit} {f : Files β → Option (Files β)}
    (hop : ∀ world, perform env o world = world.change .project f)
    (hinv : ∀ world files, inv world → f world.project = some files →
      inv { world with project := files }) : Sound env inv sure Unit o := by
  intro world hworld
  rw [hop, World.change]
  split
  · rename_i files hfiles
    exact hinv world files hworld hfiles
  · exact hworld

theorem sound_base {o : Op β Unit} {f : Files β → Option (Files β)}
    (hop : ∀ world, perform env o world = world.change .base f) :
    Sound env (Underway env skill start state spare) sure Unit o := by
  intro world hu
  rw [hop, World.change]
  split
  · rename_i files hfiles
    exact hu.base files
  · exact hu

theorem sound_makeDirs (hp : ∀ q ∈ filePlaces env skill start, ¬ q <+: p) :
    Sound env (Underway env skill start state spare) sure Unit (.makeDirs .project p) :=
  sound_project (f := fun files => files.makeDirs p) (fun _ => rfl) fun _ _ hu hfiles =>
    ⟨hu.secured.makeDirs hfiles hp, hu.full, hu.state⟩

theorem sound_copy (source : Node β) (name : Posix.Name) (hp : Writable skill start spare p) :
    Sound env (Underway env skill start state spare) sure Unit (.copy .project source name p) :=
  sound_project (f := fun files => files.copy source name p) (fun _ => rfl) fun _ _ hu hfiles =>
    hu.rewrites (Tree.copy_rewrites hfiles (hu.not_dir hp)) (by simpa using hp)

theorem sound_write (content : β) (hp : Writable skill start spare p) :
    Sound env (Underway env skill start state spare) sure Unit (.write .project p content) :=
  sound_project (f := fun files => files.write p content) (fun _ => rfl) fun _ _ hu hfiles =>
    hu.rewrites (Tree.write_rewrites hfiles) (by simpa using hp)

theorem sound_replace (hp : Writable skill start spare p) (hq : Writable skill start spare q) :
    Sound env (Underway env skill start state spare) sure Unit (.replace p q) :=
  sound_project (f := fun files => files.rename p q) (fun _ => rfl) fun _ _ hu hfiles =>
    hu.rewrites (Tree.rename_rewrites hfiles (hu.not_dir hp)) (by simpa using ⟨hp, hq⟩)

theorem sound_noteAdded (hp : p ∈ backedUp skill start) :
    Sound env (Underway env skill start state spare) sure Unit (.noteAdded p) :=
  fun _ hu => hu.noteAdded hp

end Operations

section Staging

variable {env : Env β} {skill : Skill β} {start : World β} {state : StateFile} {p : Place}
  (h : Restorable env skill start)
include h

-- What makes a temporary file and removes it in the end.
theorem keeps_staged {body : Engine β Unit} (hp : p ∈ staged env skill start)
    (hbody : Within (Sound env (Underway env skill start state [tmpOf p])) body) :
    Keeps (engine env) (Tolerated skill start) (Underway env skill start state [])
      (tryFinally body (op (.unlink true (tmpOf p)))) := by
  intro world hworld
  rw [wp_tryFinally]
  refine (keeps_of_sound hbody world (hworld.withTmp hp)).mono fun result before hu => ?_
  refine wp_sure.mpr fun _ => ?_
  have hafter : Underway env skill start state [] (perform env (.unlink true (tmpOf p)) before).2 := by
    rw [perform, World.change]
    split
    · rename_i files hfiles
      refine (hu.rewrites (Tree.unlink_rewrites hfiles) ?_).withoutTmp ?_
      · simpa using h.writable_tmp hp
      · have hget := (Tree.unlink_spec hfiles).2 (tmpOf p)
        rw [if_pos rfl] at hget
        change files.fileAt (tmpOf p) = none
        rw [Tree.fileAt, hget]
    · rename_i hnone
      exact hu.withoutTmp (Tree.fileAt_of_unlink_none hnone)
  change wp _ _ _ (Script.done (perform env (.unlink true (tmpOf p)) before).1) _
  cases (perform env (.unlink true (tmpOf p)) before).1 with
  | ok _ => exact hafter
  | error e => exact hafter

theorem keeps_atomicCopy (source : Node β) (name : Posix.Name) (hp : p ∈ staged env skill start) :
    Keeps (engine env) (Tolerated skill start) (Underway env skill start state [])
      (atomicCopy source name p) :=
  keeps_staged h hp ((Within.op (sound_copy source name (h.writable_tmp hp))).bind fun _ =>
    .op (sound_replace (h.writable_tmp hp) (.inl (h.written p hp).1)))

theorem keeps_atomicWriteText (content : β) (hp : p ∈ staged env skill start) :
    Keeps (engine env) (Tolerated skill start) (Underway env skill start state [])
      (atomicWriteText p content) :=
  keeps_staged h hp ((Within.op (sound_write content (h.writable_tmp hp))).bind fun _ =>
    .op (sound_replace (h.writable_tmp hp) (.inl (h.written p hp).1)))

theorem keeps_addFile {add : Files β} {rel : String} (hadd : skill.add = some add)
    (hrel : rel ∈ skill.manifest.adds) :
    Keeps (engine env) (Tolerated skill start) (Underway env skill start state [])
      (addFile start.remap add rel) := by
  have hp : place (resolvePathRemap rel start.remap) ∈ backedUp skill start := by
    simp only [backedUp, filesToBackup, List.mem_append, List.mem_map]
    exact .inl (.inl (.inr ⟨rel, hrel, rfl⟩))
  refine Keeps.bind (keeps_of_sound ?_) fun _ => ?_
  · exact (sound_of_reads (reads_occupied _ _)).bind fun _ => .ite (.op (sound_noteAdded hp)) trivial
  cases hsource : add.get (place rel) with
  | none => exact .done _
  | some source =>
      have hstaged : place (resolvePathRemap rel start.remap) ∈ staged env skill start := by
        simp only [staged, List.mem_append, List.mem_map, List.mem_filter]
        exact .inl (.inl (.inl ⟨rel, ⟨hrel, by simp [sourceOf, hadd, hsource]⟩, rfl⟩))
      refine Keeps.bind (keeps_of_sound (.op (sound_makeDirs fun q hq => ?_))) fun _ =>
        keeps_atomicCopy h source _ hstaged
      exact h.not_above hq hp

theorem keeps_addFiles :
    Keeps (engine env) (Tolerated skill start) (Underway env skill start state [])
      (addFiles start.remap skill) := by
  unfold addFiles
  cases hadd : skill.add with
  | none => exact .done _
  | some add => exact .forM _ fun rel hrel => keeps_addFile h hadd hrel

theorem keeps_installTool {rel : String} (hrel : rel ∈ skill.manifest.containerTools) :
    Keeps (engine env) (Tolerated skill start) (Underway env skill start state [])
      (installTool env skill.add rel) := by
  unfold installTool
  cases hsource : skill.add.bind (·.get (place rel)) with
  | none => exact .done _
  | some source =>
      refine keeps_atomicCopy h source _ ?_
      simp only [staged, List.mem_append, List.mem_map, List.mem_filter]
      exact .inl (.inl (.inr ⟨rel, ⟨hrel, by simp [sourceOf, hsource]⟩, rfl⟩))

theorem keeps_installTools :
    Keeps (engine env) (Tolerated skill start) (Underway env skill start state [])
      (installTools env skill) := by
  unfold installTools
  split
  · exact .done _
  · rename_i htools
    exact Keeps.bind (keeps_of_sound (.op (sound_makeDirs (h.tools htools)))) fun _ =>
      .forM _ fun rel hrel => keeps_installTool h hrel

theorem sound_mergeInto (source : Node β) (name : Posix.Name) (hp : p ∈ backedUp skill start) :
    Within (Sound env (Underway env skill start state [])) (mergeInto p source name) := by
  have hbase : Within (Sound env (Underway env skill start state []))
      (ensureBase p : Engine β Unit) :=
    (sound_of_reads (reads_occupied _ _)).bind fun _ => .ite
      ((Within.op (sound_base (f := fun files => files.makeDirs p.dropLast) fun _ => rfl)).bind
        fun _ => (sound_fetch _ _).bind fun node =>
          .op (sound_base (f := fun files => files.copy node (fileName p) p) fun _ => rfl)) trivial
  have hmerge : Within (Sound env (Underway env skill start state [])) (mergeFile p source) :=
    (sound_of_reads (reads_read _ _)).bind fun _ => (sound_of_reads (reads_read _ _)).bind fun _ =>
      (Within.orFail _ _).bind fun _ => (sound_merge _ _ _).bind fun _ =>
        (Within.op (sound_write _ (.inl hp))).bind fun _ => trivial
  refine (sound_of_reads (reads_occupied _ _)).bind fun _ => .ite (hbase.bind fun _ => hmerge) ?_
  exact (Within.op (sound_makeDirs fun q hq => h.not_above hq hp)).bind fun _ =>
    (Within.op (sound_copy source name (.inl hp))).bind fun _ => trivial

theorem sound_mergeModified (modifies : List String)
    (hmodifies : ∀ rel ∈ modifies, rel ∈ skill.manifest.modifies) :
    Within (Sound env (Underway env skill start state []))
      (mergeModified start.remap skill modifies) := by
  induction modifies with
  | nil => trivial
  | cons rel rest ih =>
      have hp : place (resolvePathRemap rel start.remap) ∈ backedUp skill start := by
        simp only [backedUp, filesToBackup, List.mem_append, List.mem_map]
        exact .inl (.inl (.inl ⟨rel, hmodifies rel (by simp), rfl⟩))
      exact (Within.orFail _ _).bind fun _ => (sound_mergeInto h _ _ hp).bind fun _ =>
        (ih fun r hr => hmodifies r (by simp [hr])).bind fun _ => trivial

omit h in
-- Where there is no package.json to read, there is none to write.
theorem mergedPackage_wp {world : World β} (incoming : List (String × String))
    (hu : Underway env skill start state [] world)
    (hnone : world.project.fileAt packageJson = none) :
    wp (engine env) (Tolerated skill start)
      (fun result after => Underway env skill start state [] after ∧
        ∀ package, result ≠ .ok (some package))
      (mergedPackage env incoming) world := by
  have hraised (e : Error) : Underway env skill start state [] world ∧
      ∀ package, (.error e : Except Error (Option β)) ≠ .ok (some package) :=
    ⟨hu, fun _ he => by cases he⟩
  refine wp_bind.mpr ⟨fun _ => ?_, fun e _ _ _ => hraised e⟩
  change wp _ _ _ (if world.project.occupied packageJson = true then _ else _) _
  split
  · refine wp_bind.mpr ⟨fun _ => ?_, fun e _ _ _ => hraised e⟩
    simp only [engine, perform, World.files, hnone]
    exact hraised _
  · exact ⟨hu, fun _ he => by cases he⟩

theorem keeps_applyNpm :
    Keeps (engine env) (Tolerated skill start) (Underway env skill start state [])
      (applyNpm env skill.manifest.structured.npmDependencies) := by
  unfold applyNpm
  split
  · rename_i hincoming
    by_cases hthere : packageJson ∈ backedUp skill start ∨
        (start.project.fileAt packageJson).isSome
    · have hp : packageJson ∈ staged env skill start := by
        simp only [staged, List.mem_append]
        exact .inl (.inr (by rw [if_pos ⟨hincoming, hthere⟩]; exact List.mem_singleton.mpr rfl))
      refine Keeps.bind (keeps_of_sound (sound_of_reads (reads_mergedPackage env _))) fun package => ?_
      cases package with
      | none => exact .done _
      | some package => exact keeps_atomicWriteText h package hp
    · intro world hu
      obtain ⟨hheld, hstart⟩ := not_or.mp hthere
      have hnone : world.project.fileAt packageJson = none := by
        rcases hu.secured.others packageJson fun hp => hheld (hu.secured.held _ hp) with
          hsame | ⟨hspare, -⟩
        · rw [hsame]
          simpa using hstart
        · cases hspare
      refine wp_bind.mpr ((mergedPackage_wp _ hu hnone).mono fun result after hafter => ?_)
      cases result with
      | error e => exact hafter.1
      | ok package =>
          cases package with
          | none => exact hafter.1
          | some package => exact absurd rfl (hafter.2 package)
  · exact .done _

theorem keeps_applyEnv :
    Keeps (engine env) (Tolerated skill start) (Underway env skill start state [])
      (applyEnv env skill.manifest.structured.envAdditions) := by
  unfold applyEnv
  split
  · rename_i hincoming
    refine Keeps.bind (keeps_of_sound (sound_of_reads (reads_mergedEnv env _))) fun content =>
      keeps_atomicWriteText h content ?_
    simp only [staged, List.mem_append]
    exact .inr (by rw [if_pos hincoming]; exact List.mem_singleton.mpr rfl)
  · exact .done _

end Staging

section Moving

variable {env : Env β} {skill : Skill β} {start world : World β} {state : StateFile}
  {files : Files β} {fileOp : FileOp} {p : Place}

-- The places that a file operation moves something to, and those above them.
def Reached (skill : Skill β) (p : Place) : Prop :=
  ∃ fileOp ∈ skill.manifest.fileOps, fileOp.moves ∧ p <+: place fileOp.dest

-- While the file operations are carried out.
structure Operating (env : Env β) (skill : Skill β) (start : World β) (state : StateFile)
    (world : World β) : Prop where
  underway : Underway env skill start state [] world
  reached : ∀ p, world.project.occupied p → start.project.occupied p ∨ Reached skill p

theorem Absent.vacant (ha : Absent skill start p) (ho : Operating env skill start state world) :
    world.project.occupied p = false := by
  refine Bool.eq_false_of_not_eq_true fun hthere => ?_
  rcases ho.reached p hthere with hstart | ⟨fileOp, hop, hmoves, hprefix⟩
  · rw [ha.1] at hstart
    cases hstart
  · exact ha.2 fileOp hop hmoves hprefix

theorem Operating.change (ho : Operating env skill start state world)
    (hu : Underway env skill start state [] { world with project := files })
    (hreached : ∀ p, files.get p ≠ world.project.get p → files.get p = none ∨ Reached skill p) :
    Operating env skill start state { world with project := files } := by
  refine ⟨hu, fun p hp => ?_⟩
  by_cases hsame : files.get p = world.project.get p
  · exact ho.reached p (by rwa [Tree.occupied, ← hsame])
  · rcases hreached p hsame with hnone | hreached
    · simp [Tree.occupied, hnone] at hp
    · exact .inr hreached

variable (h : Restorable env skill start)
include h

theorem sound_dirsOf (hop : fileOp ∈ skill.manifest.fileOps) (hmoves : fileOp.moves)
    (hdest : place fileOp.dest ∈ backedUp skill start) :
    Sound env (Operating env skill start state) false Unit
      (.makeDirs .project (place fileOp.dest).dropLast) := by
  refine sound_project (f := fun files => files.makeDirs (place fileOp.dest).dropLast)
    (fun _ => rfl) fun world files ho hfiles => ?_
  obtain ⟨hsecured, hfull, hstate⟩ := ho.underway
  refine ho.change ⟨hsecured.makeDirs hfiles fun q hq => h.not_above hq hdest, hfull, hstate⟩
    fun p hp => .inr ⟨fileOp, hop, hmoves, ?_⟩
  exact (Tree.makeDirs_changed hfiles hp).trans (List.dropLast_prefix _)

omit h in
theorem sound_move (hop : fileOp ∈ skill.manifest.fileOps) (hmoves : fileOp.moves)
    (hsource : place fileOp.source ∈ backedUp skill start)
    (hdest : place fileOp.dest ∈ backedUp skill start) :
    Sound env (Operating env skill start state) false Unit
      (.move (place fileOp.source) (place fileOp.dest)) := by
  refine sound_project (f := fun files => files.move (place fileOp.source) (place fileOp.dest))
    (fun _ => rfl) fun world files ho hfiles => ?_
  obtain ⟨content, hget⟩ := Tree.move_spec hfiles (ho.underway.not_dir (.inl hsource))
    (ho.underway.not_dir (.inl hdest))
  refine ho.change (ho.underway.rewrites (Tree.rewrites_of_moved hget) ?_) fun p hp => ?_
  · simpa using ⟨.inl hsource, .inl hdest⟩
  · rw [hget] at hp ⊢
    by_cases heq : p = place fileOp.dest
    · exact .inr ⟨fileOp, hop, hmoves, by rw [heq]⟩
    · rw [if_neg heq] at hp ⊢
      by_cases hgone : p = place fileOp.source
      · exact .inl (if_pos hgone)
      · exact absurd (if_neg hgone) hp

omit h in
theorem sound_delete (hp : p ∈ backedUp skill start) :
    Sound env (Operating env skill start state) false Unit (.unlink false p) := by
  refine sound_project (f := fun files => files.unlink false p) (fun _ => rfl)
    fun world files ho hfiles => ?_
  refine ho.change (ho.underway.rewrites (Tree.unlink_rewrites hfiles) ?_) fun q hq => ?_
  · simpa using .inl hp
  · rw [(Tree.unlink_spec hfiles).2] at hq ⊢
    by_cases hgone : q = p
    · exact .inl (if_pos hgone)
    · exact absurd (if_neg hgone) hq

theorem keeps_movePlace (hop : fileOp ∈ skill.manifest.fileOps) (hmoves : fileOp.moves) :
    Keeps (engine env) (Tolerated skill start) (Operating env skill start state)
      (movePlace (place fileOp.source) (place fileOp.dest)) := by
  intro world ho
  refine wp_bind.mpr ⟨fun _ => ?_, fun _ _ _ _ => ho⟩
  change wp _ _ _ (if world.project.occupied (place fileOp.source) = true then _ else _) _
  split
  · rename_i hthere
    rcases (h.fileOps fileOp hop).moved hmoves with habsent | ⟨hsource, hdest⟩
    · rw [habsent.vacant ho] at hthere
      cases hthere
    · exact keeps_of_sound ((Within.op (sound_dirsOf h hop hmoves hdest)).bind fun _ =>
        .op (sound_move hop hmoves hsource hdest)) world ho
  · exact ho

-- What is backed up is no directory.
theorem keeps_deletePlace (hop : fileOp ∈ skill.manifest.fileOps) (hdeletes : fileOp.deletes) :
    Keeps (engine env) (Tolerated skill start) (Operating env skill start state)
      (deletePlace (place fileOp.path)) := by
  intro world ho
  refine wp_bind.mpr ⟨fun _ => ?_, fun _ _ _ _ => ho⟩
  change wp _ _ _ (if world.project.occupied (place fileOp.path) = true then _ else _) _
  split
  · rename_i hthere
    rcases (h.fileOps fileOp hop).deleted hdeletes with habsent | hheld
    · rw [habsent.vacant ho] at hthere
      cases hthere
    refine wp_bind.mpr ⟨fun _ => ?_, fun _ _ _ _ => ho⟩
    change wp _ _ _ (if world.project.isDir (place fileOp.path) = true then _ else _) _
    rw [if_neg (by simp [ho.underway.not_dir (.inl hheld)])]
    exact keeps_of_sound (.op (sound_delete hheld)) world ho
  · exact ho

theorem keeps_executeFileOp (hop : fileOp ∈ skill.manifest.fileOps) :
    Keeps (engine env) (Tolerated skill start) (Operating env skill start state)
      (executeFileOp fileOp) := by
  refine Keeps.tryCatch ?_ fun _ => .done _
  split
  · rename_i hkind
    unfold renameFile
    split
    · exact .done _
    · rename_i hcheck
      refine (keeps_movePlace h hop ?_).bind fun _ => .done _
      exact decide_eq_true ⟨hkind, hcheck⟩
  split
  · rename_i hkind
    unfold deleteFile
    split
    · exact .done _
    · rename_i hcheck
      refine (keeps_deletePlace h hop ?_).bind fun _ => .done _
      exact decide_eq_true ⟨hkind, hcheck⟩
  · exact .done _

theorem keeps_executeFileOps (fileOps : List FileOp)
    (hops : ∀ fileOp ∈ fileOps, fileOp ∈ skill.manifest.fileOps) :
    Keeps (engine env) (Tolerated skill start) (Operating env skill start state)
      (executeFileOps fileOps) := by
  induction fileOps with
  | nil => exact .done _
  | cons fileOp rest ih =>
      exact (keeps_executeFileOp h (hops fileOp (by simp))).bind fun _ =>
        (ih fun op hop => hops op (by simp [hop])).bind fun _ => .done _

end Moving

section Application

variable {env : Env β} {skill : Skill β} {start world : World β} {state : StateFile} {γ : Type}

def SecuredWith (env : Env β) (skill : Skill β) (start : World β) (state : StateFile)
    (world : World β) : Prop :=
  Secured env skill start [] world ∧ world.state = state

-- An exit with a result has undone everything, and any other end can be undone.
def Undoable (env : Env β) (skill : Skill β) (start : World β) (state : StateFile) :
    Except Error (Option γ) → World β → Prop
  | .ok (some _), world => Undone start state world
  | _, world => SecuredWith env skill start state world

theorem Underway.securedWith (hu : Underway env skill start state [] world) :
    SecuredWith env skill start state world :=
  ⟨hu.secured, hu.state⟩

theorem applied_congr {after : World β} (h : after.state = world.state) :
    after.applied = world.applied := by
  unfold World.applied
  rw [h]

-- A part of the changes, and what comes behind it.
theorem part_wp {inv : World β → Prop} {x : Engine β γ} {f : γ → Engine β (Option ApplyError)}
    (hworld : inv world) (hinv : ∀ world, inv world → SecuredWith env skill start state world)
    (hx : Keeps (engine env) (Tolerated skill start) inv x)
    (hf : ∀ a world, inv world → wp (engine env) (Tolerated skill start)
      (Undoable env skill start state) (f a) world) :
    wp (engine env) (Tolerated skill start) (Undoable env skill start state) (x.bind f) world := by
  refine wp_bind.mpr ((hx world hworld).mono fun result after hafter => ?_)
  cases result with
  | ok a => exact hf a after hafter
  | error e => exact hinv after hafter

variable (h : Restorable env skill start)
include h

theorem runPostApply_wp (commands : List String) (hs : SecuredWith env skill start state world) :
    wp (engine env) (Tolerated skill start) (Undoable env skill start state)
      (runPostApply commands) world := by
  induction commands with
  | nil => exact hs
  | cons command rest ih =>
      unfold runPostApply
      split
      · refine wp_bind.mpr (wp_tryCatch.mpr ⟨fun _ => ih, fun error _ _ _ => ?_⟩)
        change wp _ _ _ (if error = .calledProcess then _ else _) _
        split
        · refine wp_bind_ok (undo_wp h hs.1) fun after hafter => ?_
          exact ⟨hafter.1.trans hs.2, hafter.2⟩
        · exact hs
      · exact ih

theorem exit_wp (error : ApplyError) (hs : SecuredWith env skill start state world) :
    wp (engine env) (Tolerated skill start) (Undoable env skill start state)
      (restoreAndClear.bind fun _ => .done (.ok (some error))) world := by
  refine wp_bind_ok (restoreAndClear_wp h hs.1) fun after hafter => ?_
  exact ⟨hafter.1.trans hs.2, hafter.2⟩

theorem changeProject_wp (hb : BackingUp skill start state world) :
    wp (engine env) (Tolerated skill start) (Undoable env skill start state)
      (changeProject env start.remap skill) world := by
  have hwith (world : World β) (hu : Underway env skill start state [] world) :
      SecuredWith env skill start state world := hu.securedWith
  refine wp_bind.mpr ((createBackup_wp h _ (fun _ hp => hp) hb).mono fun result world hback => ?_)
  cases result with
  | error e => exact ⟨hback.1.secured h, hback.1.state⟩
  | ok _ =>
  have ho : Operating env skill start state world :=
    ⟨⟨hback.1.secured h, hback.2.2 rfl, hback.1.state⟩, fun p hp => .inl (by rwa [← hback.1.project])⟩
  refine part_wp ho (fun _ ho => ho.underway.securedWith)
    (keeps_executeFileOps h _ fun _ hop => hop) fun errors world ho => ?_
  have hu := ho.underway
  split
  · exact exit_wp h _ hu.securedWith
  refine part_wp hu hwith (keeps_addFiles h) fun _ world hu => ?_
  refine part_wp hu hwith (keeps_installTools h) fun _ world hu => ?_
  refine part_wp hu hwith (keeps_of_sound (sound_mergeModified h _ fun _ hrel => hrel))
    fun conflicts world hu => ?_
  split
  · exact exit_wp h _ hu.securedWith
  refine part_wp hu hwith (keeps_applyNpm h) fun _ world hu => ?_
  refine part_wp hu hwith (keeps_applyEnv h) fun _ world hu => ?_
  refine wp_bind.mpr ((runPostApply_wp h _ hu.securedWith).mono fun result after hafter => ?_)
  cases result with
  | error e => exact hafter
  | ok failed =>
      cases failed with
      | none => exact hafter
      | some command => exact hafter

end Application

section Recording

variable {env : Env β} {skill : Skill β} {start world : World β} {state : StateFile} {γ : Type}

-- What happens to the record does not touch what leads back.
theorem Secured.record (hs : Secured env skill start [] world) (record : StateFile) :
    Secured env skill start [] { world with state := record } :=
  ⟨hs.agrees, hs.held, hs.added, hs.others, hs.spares, hs.dirs⟩

-- Nothing is recorded, and the changes can be undone.
def Unrecorded (env : Env β) (skill : Skill β) (start world : World β) : Prop :=
  Secured env skill start [] world ∧ world.applied = start.applied

-- A recorded application, or nothing.
def Recorded (env : Env β) (skill : Skill β) (start : World β) :
    Except Error (Option γ) → World β → Prop
  | .ok none, _ => True
  | .ok (some _), world => Unchanged start world
  | .error _, world => Unrecorded env skill start world

-- The skill is in the list, and the others are as they were.
structure Listed (skill : Skill β) (start : World β) (record : SkillState) : Prop where
  listed : ∃ applied ∈ record.appliedSkills, applied.name = skill.manifest.skill
  others : (record.without skill.manifest.skill).appliedSkills =
    start.applied.filter (·.name ≠ skill.manifest.skill)

theorem Listed.ne {record : SkillState} (hl : Listed skill start record)
    (hnew : ∀ other ∈ start.applied, other.name ≠ skill.manifest.skill) :
    record.appliedSkills ≠ start.applied := by
  intro heq
  obtain ⟨applied, hmem, hname⟩ := hl.listed
  exact hnew applied (heq ▸ hmem) hname

theorem Listed.without {record : SkillState} (hl : Listed skill start record)
    (hnew : ∀ other ∈ start.applied, other.name ≠ skill.manifest.skill) :
    (record.without skill.manifest.skill).appliedSkills = start.applied :=
  hl.others.trans (List.filter_eq_self.mpr fun other hother => by simpa using hnew other hother)

variable (h : Restorable env skill start)
include h

-- A failing test of a new skill. Nothing else fails, as the skill is recorded.
theorem testFailed_wp {record : SkillState} (hs : Secured env skill start [] world)
    (hrecord : world.state = .holds record) (hlisted : Listed skill start record)
    (hnew : ∀ other ∈ start.applied, other.name ≠ skill.manifest.skill) :
    wp (engine env) (Tolerated skill start)
      (fun result after => result = .ok true ∧ Unchanged start after)
      (bringBack.bind fun _ => (op .readState).bind fun state =>
        (op (.writeState (state.without skill.manifest.skill))).bind fun _ =>
          clearBackup.bind fun _ => .done (.ok true)) world := by
  refine wp_bind_ok (bringBack_wp h hs) fun back hback => ?_
  have hstate : back.state = .holds record := hback.1.trans hrecord
  have hlist : back.applied ≠ start.applied := by
    rw [World.applied, hstate]
    exact hlisted.ne hnew
  refine ⟨fun _ => ?_, fun _ _ _ hfails => absurd hfails hlist⟩
  simp only [engine, perform, hstate]
  refine ⟨fun _ => ?_, fun _ _ _ hfails => absurd hfails hlist⟩
  change wp _ _ _ (clearBackup.bind fun _ => .done (.ok true)) _
  refine wp_bind_ok clearBackup_wp fun last hlast => ⟨rfl, fun p => ?_, ?_⟩
  · rw [hlast.2]
    exact hback.2 p
  · rw [World.applied, hlast.1]
    exact hlisted.without hnew

theorem runTests_wp {record : SkillState} (hs : Secured env skill start [] world)
    (hrecord : world.state = .holds record) (hlisted : Listed skill start record) :
    wp (engine env) (Tolerated skill start)
      (fun result after => match result with
        | .ok true => Unchanged start after
        | .ok false => True
        | .error _ => Unrecorded env skill start after)
      (runTests skill.manifest) world := by
  unfold runTests
  split
  · trivial
  refine wp_tryCatch.mpr ⟨fun _ => trivial, fun error _ _ hfails => ?_⟩
  change wp _ _ _ (if error = .calledProcess then _ else _) _
  split
  · rename_i herror
    subst herror
    refine (testFailed_wp h hs hrecord hlisted hfails).mono ?_
    rintro _ after ⟨rfl, hafter⟩
    exact hafter
  · rename_i herror
    refine ⟨hs, ?_⟩
    cases error with
    | calledProcess => exact absurd rfl herror
    | fileNotFound | other => exact hfails

theorem recordAndTest_wp (hu : Unrecorded env skill start world) :
    wp (engine env) (Tolerated skill start) (Recorded env skill start)
      (recordAndTest env start.remap skill) world := by
  refine wp_bind.mpr ((keeps_of_looks (looks_of_reads (reads_hashFiles _ _ _ _)) world hu).mono
    fun result after hafter => ?_)
  cases result with
  | error e => exact hafter
  | ok hashes =>
  refine wp_bind.mpr ⟨fun _ => ?_, fun e _ _ _ => hafter⟩
  cases hrecord : after.state with
  | missing | unreadable =>
      simp only [engine, perform, hrecord]
      exact hafter
  | holds record =>
      simp only [engine, perform, hrecord]
      refine ⟨fun _ => ?_, fun e _ _ _ => hafter⟩
      have hlisted : Listed skill start { record.without skill.manifest.skill with
          appliedSkills := (record.without skill.manifest.skill).appliedSkills ++
            [⟨skill.manifest.skill, skill.manifest.version, hashes⟩] } := by
        refine ⟨⟨_, List.mem_append_right _ (List.mem_singleton.mpr rfl), rfl⟩, ?_⟩
        have hbefore := hafter.2
        rw [World.applied, hrecord] at hbefore
        simp [SkillState.without, ← hbefore]
      refine wp_bind.mpr ((runTests_wp h (hafter.1.record _) rfl hlisted).mono
        fun result last hlast => ?_)
      cases result with
      | error e => exact hlast
      | ok failed =>
          cases failed with
          | true => exact hlast
          | false => exact wp_bind_ok clearBackup_wp fun _ _ => trivial

theorem applyLocked_wp (hb : BackingUp skill start state world)
    (happlied : world.applied = start.applied) :
    wp (engine env) (Tolerated skill start)
      (fun result after => result ≠ .ok none → Unchanged start after)
      (applyLocked env start.remap skill) world := by
  have hsame {after : World β} (hstate : after.state = state) : after.applied = start.applied :=
    (applied_congr (hstate.trans hb.state.symm)).trans happlied
  have hundo {after : World β} (e : Error) (hu : Unrecorded env skill start after) :
      wp (engine env) (Tolerated skill start)
        (fun result after => result ≠ .ok none → Unchanged start after)
        (undo.bind fun _ => .done (.error e : Except Error (Option ApplyError))) after := by
    refine wp_bind_ok (undo_wp h hu.1) fun last hlast _ => ?_
    exact ⟨hlast.2, (applied_congr hlast.1).trans hu.2⟩
  refine wp_tryCatch.mpr (wp_bind.mpr ((changeProject_wp h hb).mono fun result after hafter => ?_))
  cases result with
  | error e => exact hundo e ⟨hafter.1, hsame hafter.2⟩
  | ok exit =>
      cases exit with
      | some error => exact fun _ => ⟨hafter.2, hsame hafter.1⟩
      | none =>
          refine (recordAndTest_wp h ⟨hafter.1, hsame hafter.2⟩).mono fun result last hlast => ?_
          cases result with
          | error e => exact hundo e hlast
          | ok recorded =>
              cases recorded with
              | none => exact fun hne => absurd rfl hne
              | some error => exact fun _ => hlast

end Recording

section Preparation

variable {env : Env β} {skill : Skill β} {start world : World β}

-- What the steps before the lock do not touch.
structure Untouched (start world : World β) : Prop where
  project : world.project = start.project
  backup : world.backup = start.backup
  applied : world.applied = start.applied
  remap : world.remap = start.remap

theorem Untouched.unchanged (h : Untouched start world) : Unchanged start world :=
  ⟨fun p => by rw [h.project], h.applied⟩

theorem ensureState_wp :
    wp (engine env) (Tolerated skill start) (fun _ after => Untouched start after)
      ensureState start := by
  have hstart : Untouched start start := ⟨rfl, rfl, rfl, rfl⟩
  refine wp_bind.mpr ⟨fun _ => ?_, fun _ _ _ _ => hstart⟩
  change wp _ _ _ (if !decide (start.state ≠ .missing) then initEvoclawDir else pure ()) start
  split
  · rename_i hmissing
    have hnone : start.state = .missing := by simpa using hmissing
    refine ⟨fun _ => ⟨fun _ => ⟨rfl, rfl, ?_, ?_⟩, fun _ _ _ _ => ?_⟩, fun _ _ _ _ => hstart⟩
    · simp [World.applied, engine, perform, hnone]
    · simp [World.remap, engine, perform, hnone]
    · exact ⟨rfl, rfl, rfl, rfl⟩
  · exact hstart

theorem preflight_wp (manifest : Manifest) :
    wp (engine env) (Tolerated skill start) (fun _ after => Untouched start after)
      (preflight manifest) start := by
  obtain ⟨checks, heq, hreads⟩ := @reads_preflight β manifest
  rw [heq]
  refine wp_bind.mpr ((ensureState_wp).mono fun result ready hready => ?_)
  cases result with
  | error e => exact hready
  | ok _ => exact keeps_of_looks (looks_of_reads hreads) ready hready

theorem loadPathRemap_wp (hu : Untouched start world) :
    wp (engine env) (Tolerated skill start)
      (fun result after => Untouched start after ∧ ∀ remap, result = .ok remap → remap = start.remap)
      loadPathRemap world := by
  refine wp_tryCatch.mpr (wp_bind.mpr ⟨fun _ => ?_, fun e _ hmay _ => ?_⟩)
  · have hremap := hu.remap
    cases hstate : world.state with
    | missing =>
        simp only [World.remap, hstate] at hremap
        simp only [engine, perform, hstate]
        exact ⟨hu, fun remap hr => (Except.ok.inj hr).symm.trans hremap⟩
    | unreadable =>
        simp only [engine, perform, hstate]
        exact ⟨hu, fun _ hr => by cases hr⟩
    | holds record =>
        simp only [World.remap, hstate] at hremap
        simp only [engine, perform, hstate]
        exact ⟨hu, fun remap hr => (Except.ok.inj hr).symm.trans hremap⟩
  · have hother : e = .other := by simpa [engine, mayFail] using hmay
    subst hother
    exact ⟨hu, fun _ hr => by cases hr⟩

-- Then the lock is taken, with no backup from before.
theorem Untouched.backingUp (hu : Untouched start world) (h : Restorable env skill start) :
    BackingUp skill start world.state (perform env .startAdded world).2 := by
  have hentries : world.backup.entries = [] := by rw [hu.backup, h.fresh]
  have hnone (f : Place) : f ∉ world.backup.files := by
    simp [Tree.files, hentries]
  refine ⟨hu.project, fun f hf => absurd hf (hnone f), ?_, rfl, rfl, fun p hp => ?_⟩
  · rintro p ⟨f, hf, -⟩
    exact absurd hf (hnone f)
  · refine Tree.isDir_of_vacant ?_
    change world.backup.occupied p = false
    simp [Tree.occupied, Posix.Tree.get, hentries, h.ne_nil hp]

-- An application that has not begun to change anything.
def KeptUnlessDone (start : World β) : Except Error ApplyResult → World β → Prop :=
  fun result after => (∀ a, result = .ok a → ¬ a.success = true) → Unchanged start after

theorem looks_wp {γ : Type} {x : Engine β γ} {f : γ → Engine β ApplyResult}
    (hu : Untouched start world) (hx : Within Looks x)
    (hf : ∀ a world, Untouched start world →
      wp (engine env) (Tolerated skill start) (KeptUnlessDone start) (f a) world) :
    wp (engine env) (Tolerated skill start) (KeptUnlessDone start) (x.bind f) world := by
  refine wp_bind.mpr ((keeps_of_looks hx world hu).mono fun result after hafter => ?_)
  cases result with
  | ok a => exact hf a after hafter
  | error e => exact fun _ => hafter.unchanged

theorem applySkill_wp (h : Restorable env skill start) :
    wp (engine env) (Tolerated skill start) (KeptUnlessDone start) (applySkill env skill) start := by
  refine wp_bind.mpr ⟨fun _ => ?_, fun _ _ _ _ _ => ⟨fun _ => rfl, rfl⟩⟩
  refine wp_bind.mpr ((preflight_wp skill.manifest).mono fun result ready hready => ?_)
  cases result with
  | error e => exact fun _ => hready.unchanged
  | ok refused =>
  cases refused with
  | some error => exact fun _ => hready.unchanged
  | none =>
  refine wp_bind.mpr ((loadPathRemap_wp hready).mono fun result ready hready => ?_)
  cases result with
  | error e => exact fun _ => hready.1.unchanged
  | ok remap =>
  obtain ⟨hready, hremap⟩ := hready
  obtain rfl := hremap remap rfl
  refine looks_wp hready (looks_of_reads (reads_detectDrift _ _ _)) fun drift ready hready => ?_
  refine looks_wp hready (.op fun _ _ => rfl) fun _ ready hready => ?_
  refine wp_bind.mpr (wp_sure.mpr fun _ => ?_)
  have hbacking := @Untouched.backingUp _ env _ _ _ hready h
  change wp _ _ _ ((Script.tryFinally (applyLocked env start.remap skill) (op .releaseLock)).bind
    fun error => .done (.ok (applyResult skill.manifest drift error))) _
  refine wp_bind.mpr (wp_tryFinally.mpr ?_)
  refine (applyLocked_wp h hbacking ((applied_congr rfl).trans hready.applied)).mono
    fun result after hafter => ?_
  refine wp_sure.mpr fun _ => ?_
  cases result with
  | error e => exact fun _ => hafter nofun
  | ok error =>
      cases error with
      | none => exact fun hfailed => absurd rfl (hfailed _ rfl)
      | some error => exact fun _ => hafter nofun

end Preparation

section Instances

-- "logbook" adds a file, and its command fails.
def logbook : Skill Sample where
  manifest :=
    { skill := "logbook", version := "1.0.0", coreVersion := "0.0.0", adds := ["logbook.txt"]
      postApply := ["pytest"] }
  add := some ⟨[(place "logbook.txt", .file (.ofString "empty"))]⟩
  modify := {}

-- "mover" renames a file, and has lost the file that it modifies.
def mover : Skill Sample where
  manifest :=
    { skill := "mover", version := "1.0.0", coreVersion := "0.0.0", modifies := ["log.py"]
      fileOps := [{ kind := "rename", source := "run.py", dest := "main.py" }] }
  add := none
  modify := {}

def plainWorld : World Sample :=
  .initial ⟨[(place "run.py", .file (.ofString "run"))]⟩

-- The command is the operation that fails, and the added file goes again.
def logbookEvents : List (Script.Event Error) :=
  List.replicate 30 .proceed ++ .fail .calledProcess :: List.replicate 14 .proceed

theorem logbook_restorable : Restorable (sampleEnv [logbook]) logbook plainWorld where
  fresh := rfl
  inside := by decide
  free := by decide
  plain := by decide
  apart := by decide
  fileOps := nofun
  written := by
    intro p hp
    obtain rfl : p = place "logbook.txt" := by simpa using (show p ∈ [place "logbook.txt"] from hp)
    exact ⟨by decide, .inr (by decide), by decide⟩
  tools := fun htools => absurd rfl htools

end Instances

end EvoClaw.SkillsEngine
