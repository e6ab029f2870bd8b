import EvoClaw.EventSystem.Runs
import EvoClaw.Ipc.Model
import EvoClaw.Text.Search

-- The registered groups, and what run_container_agent mounts for them.
namespace EvoClaw.ContainerRunner

open EventSystem Ipc Posix Text
open MessageLoop (Group upsertGroup)

section Registration

-- \w of the module re
variable (isWord : Char → Bool)

-- `$` also matches before a newline that ends the text.
def matchesWords (folder : List Char) : Bool :=
  let body := if folder.getLast? = some '\n' then folder.dropLast else folder
  body ≠ [] ∧ body.all fun c => isWord c ∨ c = '-'

-- False where _validate_folder raises.
def validateFolder (folder : List Char) : Bool :=
  (folder ≠ [] ∧ contains folder dotdot = false ∧ '/' ∉ folder ∧ '\\' ∉ folder) ∧
    matchesWords isWord folder = true

-- set_registered_group. A folder of another group violates UNIQUE(folder), and nothing is written.
def setRegisteredGroup (groups : List Group) (group : Group) : List Group :=
  if validateFolder isWord group.folder.toList then upsertGroup groups group else groups

def registerStep (groups : List Group) (group : Group) : Option (List Group) :=
  some (setRegisteredGroup isWord groups group)

end Registration

structure BindMount where
  host : Path
  target : String
  writable : Bool
deriving DecidableEq

-- What _build_volume_mounts asks the machine: Path.resolve(), whether there is a .env in BASE_DIR,
-- the file that hides it, and whether this is Windows.
structure Machine where
  resolve : Path → Option AbsPath
  envExists : Bool
  emptyEnvFile : Option Path
  isWindows : Bool

inductive MountError where
  | outside (label : String)
  | unresolved
deriving DecidableEq

section Mounts

variable (machine : Machine) (settings : Settings) (group : Group)

def assertWithin (child parent : Path) (label : String) : Except MountError Unit :=
  match machine.resolve child, machine.resolve parent with
  | some child, some parent =>
      if child.isRelativeTo parent then .ok () else .error (.outside label)
  | _, _ => .error .unresolved

def groupDir : Path := settings.groupsDir.child group.folder.toList

def sessionDir : Path := (settings.dataDir.child "sessions".toList).child group.folder.toList

def ipcDir : Path := (settings.dataDir.child "ipc".toList).child group.folder.toList

def envMounts : List BindMount :=
  match machine.emptyEnvFile with
  | some empty =>
      if machine.envExists ∧ machine.isWindows = false then
        [⟨empty, "/workspace/project/.env", false⟩]
      else []
  | none => []

def groupMounts : List BindMount :=
  if group.isMain then
    [⟨settings.baseDir, "/workspace/project", false⟩,
      ⟨groupDir settings group, "/workspace/group", true⟩] ++ envMounts machine
  else
    [⟨groupDir settings group, "/workspace/group", true⟩,
      ⟨settings.groupsDir.child "global".toList, "/workspace/global", false⟩]

def buildVolumeMounts : Except MountError (List BindMount) := do
  assertWithin machine (groupDir settings group) settings.groupsDir "group"
  assertWithin machine (sessionDir settings group) (settings.dataDir.child "sessions".toList)
    "sessions"
  assertWithin machine (ipcDir settings group) (settings.dataDir.child "ipc".toList) "ipc"
  return groupMounts machine settings group ++
    [⟨(sessionDir settings group).child ".claude".toList, "/home/node/.claude", true⟩,
      ⟨ipcDir settings group, "/workspace/ipc", true⟩,
      ⟨settings.dataDir.child "dynamic_tools".toList, "/app/dynamic_tools", false⟩]

end Mounts

-- Where a directory lies, symbolic links aside.
def placeOf (cwd : AbsPath) (dir : Path) : AbsPath := (cwd.join dir).normalise

-- No container can write where another group's container writes. One that is not the main group's
-- cannot even read there, unless the folder is the shared one.
def KeptApart (settings : Settings) (cwd : AbsPath) (group other : Group) : Prop :=
  ∀ (machine machine' : Machine) (mounts mounts' : List BindMount),
    buildVolumeMounts machine settings group = .ok mounts →
    buildVolumeMounts machine' settings other = .ok mounts' →
    ∀ mount ∈ mounts, mount.writable = true → ∀ mount' ∈ mounts',
      mount'.writable = true ∨ other.isMain = false ∧ group.folder ≠ "global" →
      ¬ Overlaps (placeOf cwd mount.host) (placeOf cwd mount'.host)

structure Isolated (settings : Settings) (cwd : AbsPath) (groups : List Group) : Prop where
  oneMain : ∀ group ∈ groups, ∀ other ∈ groups, group.isMain = true → other.isMain = true →
    group = other
  keptApart : ∀ group ∈ groups, ∀ other ∈ groups, group ≠ other →
    KeptApart settings cwd group other
  -- the project is mounted for the main group only
  project : ∀ group ∈ groups, group.isMain = false → ∀ machine mounts,
    buildVolumeMounts machine settings group = .ok mounts →
    ∀ mount ∈ mounts, mount.target ≠ "/workspace/project"

section Registered

variable {isWord : Char → Bool} {groups : List Group} {group row : Group} {folder : List Char}

-- A folder that passes is one name of a directory.
theorem validateFolder_plain (hdot : isWord '.' = false) (h : validateFolder isWord folder = true) :
    '/' ∉ folder ∧ isPart folder = true ∧ folder ≠ dotdot := by
  simp only [validateFolder, decide_eq_true_iff] at h
  obtain ⟨⟨hne, hdots, hslash, -⟩, hwords⟩ := h
  refine ⟨hslash, decide_eq_true ⟨hne, ?_⟩, ?_⟩
  · rintro rfl
    simp [matchesWords, hdot] at hwords
  · rintro rfl
    exact absurd hdots (by decide)

def demotedBy (group other : Group) : Group :=
  if group.isMain then { other with isMain := false } else other

theorem demotedBy_folder (group other : Group) : (demotedBy group other).folder = other.folder := by
  unfold demotedBy
  split <;> rfl

-- What the table holds after a call: the new row, and the rows of the other groups.
theorem mem_upsertGroup
    (hfree : ¬ ∃ other ∈ groups, other.jid ≠ group.jid ∧ other.folder = group.folder)
    (h : row ∈ upsertGroup groups group) :
    row = group ∨ ∃ other ∈ groups, other.jid ≠ group.jid ∧ row = demotedBy group other := by
  have hdemoted (other : Group) (hjid : other.jid ≠ group.jid) :
      (if group.isMain = true ∧ other.jid ≠ group.jid then { other with isMain := false }
        else other) = demotedBy group other := by
    simp [demotedBy, hjid]
  unfold upsertGroup at h
  dsimp only at h
  rw [if_neg hfree] at h
  split at h
  · rw [List.map_map] at h
    obtain ⟨other, hother, rfl⟩ := List.mem_map.mp h
    by_cases hjid : other.jid = group.jid
    · simp [hjid]
    · refine .inr ⟨other, hother, hjid, ?_⟩
      rw [Function.comp_apply, hdemoted other hjid, if_neg]
      unfold demotedBy
      split <;> exact hjid
  · next hnew =>
      rcases List.mem_append.mp h with h | h
      · obtain ⟨other, hother, rfl⟩ := List.mem_map.mp h
        have hjid : other.jid ≠ group.jid := fun heq => hnew (heq ▸ List.mem_map_of_mem hother)
        exact .inr ⟨other, hother, hjid, hdemoted other hjid⟩
      · exact .inl (List.mem_singleton.mp h)

theorem upsertGroup_conflict
    (h : ∃ other ∈ groups, other.jid ≠ group.jid ∧ other.folder = group.folder) :
    upsertGroup groups group = groups :=
  if_pos h

-- What every table has that set_registered_group has written.
structure Registered (isWord : Char → Bool) (groups : List Group) : Prop where
  valid : ∀ group ∈ groups, validateFolder isWord group.folder.toList = true
  folders : ∀ group ∈ groups, ∀ other ∈ groups, group.folder = other.folder → group = other
  oneMain : ∀ group ∈ groups, ∀ other ∈ groups, group.isMain = true → other.isMain = true →
    group = other

theorem Registered.empty : Registered isWord [] where
  valid := by simp
  folders := by simp
  oneMain := by simp

theorem Registered.upsertGroup (h : Registered isWord groups)
    (hvalid : validateFolder isWord group.folder.toList = true) :
    Registered isWord (upsertGroup groups group) := by
  by_cases hconflict : ∃ other ∈ groups, other.jid ≠ group.jid ∧ other.folder = group.folder
  · rw [upsertGroup_conflict hconflict]
    exact h
  · have hrows (row : Group) (hmem : row ∈ MessageLoop.upsertGroup groups group) :=
      mem_upsertGroup hconflict hmem
    have hfree : ∀ other ∈ groups, other.jid ≠ group.jid → other.folder ≠ group.folder :=
      fun other hother hjid hfolder => hconflict ⟨other, hother, hjid, hfolder⟩
    refine ⟨fun row hrow => ?_, fun row hrow row' hrow' hfolder => ?_,
      fun row hrow row' hrow' hmain hmain' => ?_⟩
    · rcases hrows row hrow with rfl | ⟨other, hother, -, rfl⟩
      · exact hvalid
      · rw [demotedBy_folder]
        exact h.valid other hother
    · rcases hrows row hrow with rfl | ⟨other, hother, hjid, rfl⟩ <;>
        rcases hrows row' hrow' with rfl | ⟨other', hother', hjid', rfl⟩
      · rfl
      · rw [demotedBy_folder] at hfolder
        exact absurd hfolder.symm (hfree other' hother' hjid')
      · rw [demotedBy_folder] at hfolder
        exact absurd hfolder (hfree other hother hjid)
      · rw [demotedBy_folder, demotedBy_folder] at hfolder
        rw [h.folders other hother other' hother' hfolder]
    · have hdemoted (other : Group) (hmain : (demotedBy group other).isMain = true) :
          group.isMain = false ∧ other.isMain = true := by
        unfold demotedBy at hmain
        split at hmain
        · cases hmain
        · next hgroup => exact ⟨Bool.not_eq_true _ ▸ hgroup, hmain⟩
      rcases hrows row hrow with rfl | ⟨other, hother, -, rfl⟩ <;>
        rcases hrows row' hrow' with rfl | ⟨other', hother', -, rfl⟩
      · rfl
      · exact absurd hmain (Bool.not_eq_true _ ▸ (hdemoted other' hmain').1)
      · exact absurd hmain' (Bool.not_eq_true _ ▸ (hdemoted other hmain).1)
      · rw [h.oneMain other hother other' hother' (hdemoted other hmain).2 (hdemoted other' hmain').2]

theorem Registered.setRegisteredGroup (h : Registered isWord groups) :
    Registered isWord (setRegisteredGroup isWord groups group) := by
  unfold ContainerRunner.setRegisteredGroup
  split
  · next hvalid => exact h.upsertGroup hvalid
  · exact h

end Registered

section Spots

variable {settings : Settings} {cwd : AbsPath} {group other : Group} {mount : BindMount}
  {mounts : List BindMount} {machine : Machine} {folder : Name}

-- A directory below GROUPS_DIR or below DATA_DIR.
structure Spot where
  inGroups : Bool
  rest : List Name

def Spot.base (settings : Settings) (spot : Spot) : Path :=
  if spot.inGroups then settings.groupsDir else settings.dataDir

def Spot.place (settings : Settings) (cwd : AbsPath) (spot : Spot) : AbsPath :=
  (placeOf cwd (spot.base settings)).below spot.rest

def ownSpots (folder : Name) : List Spot :=
  [⟨true, [folder]⟩, ⟨false, ["sessions".toList, folder, ".claude".toList]⟩,
    ⟨false, ["ipc".toList, folder]⟩]

def sharedSpots : List Spot :=
  [⟨true, ["global".toList]⟩, ⟨false, ["dynamic_tools".toList]⟩]

theorem Spot.overlaps {spot spot' : Spot}
    (hapart : ¬ Overlaps (placeOf cwd settings.groupsDir) (placeOf cwd settings.dataDir))
    (h : Overlaps (spot.place settings cwd) (spot'.place settings cwd)) :
    spot.inGroups = spot'.inGroups ∧ (spot.rest <+: spot'.rest ∨ spot'.rest <+: spot.rest) := by
  have hbases : Overlaps (placeOf cwd (spot.base settings)) (placeOf cwd (spot'.base settings)) :=
    h.of_below (AbsPath.below_isRelativeTo _ _) (AbsPath.below_isRelativeTo _ _)
  obtain ⟨inGroups, rest⟩ := spot
  obtain ⟨inGroups', rest'⟩ := spot'
  cases inGroups <;> cases inGroups'
  · exact ⟨rfl, overlaps_below_iff.mp h⟩
  · exact absurd hbases.symm hapart
  · exact absurd hbases hapart
  · exact ⟨rfl, overlaps_below_iff.mp h⟩

-- The spots of two folders lie apart, and so do those of a folder and the shared ones.
theorem ownSpots_apart {name : Name} (hne : folder ≠ name) {spot spot' : Spot}
    (hspot : spot ∈ ownSpots folder) (hspot' : spot' ∈ ownSpots name) :
    ¬ (spot.inGroups = spot'.inGroups ∧ (spot.rest <+: spot'.rest ∨ spot'.rest <+: spot.rest)) := by
  simp only [ownSpots, List.mem_cons, List.not_mem_nil, or_false] at hspot hspot'
  rcases hspot with rfl | rfl | rfl <;> rcases hspot' with rfl | rfl | rfl <;>
    simp [List.cons_prefix_cons, hne, hne.symm]

theorem ownSpots_apart_shared (hne : folder ≠ "global".toList) {spot spot' : Spot}
    (hspot : spot ∈ ownSpots folder) (hspot' : spot' ∈ sharedSpots) :
    ¬ (spot.inGroups = spot'.inGroups ∧ (spot.rest <+: spot'.rest ∨ spot'.rest <+: spot.rest)) := by
  rcases List.mem_pair.mp hspot' with rfl | rfl
  · exact ownSpots_apart hne hspot List.mem_cons_self
  · simp only [ownSpots, List.mem_cons, List.not_mem_nil, or_false] at hspot
    rcases hspot with rfl | rfl | rfl <;> simp

theorem placeOf_child {base : Path} {name : Name} (hslash : '/' ∉ name) (hpart : isPart name = true)
    (hdots : name ≠ dotdot) : placeOf cwd (base.child name) = (placeOf cwd base).below [name] := by
  rw [placeOf, Path.child_of_part hslash hpart]
  exact normalise_join_append cwd (by simpa using hdots.symm)

theorem below_below (dir : AbsPath) (rest behind : List Name) :
    (dir.below rest).below behind = dir.below (rest ++ behind) := by
  simp [AbsPath.below]

-- What a container mounts beside the project and the file that hides .env.
inductive Mounted (settings : Settings) (group : Group) : BindMount → Prop where
  | group : Mounted settings group ⟨groupDir settings group, "/workspace/group", true⟩
  | session : Mounted settings group
      ⟨(sessionDir settings group).child ".claude".toList, "/home/node/.claude", true⟩
  | ipc : Mounted settings group ⟨ipcDir settings group, "/workspace/ipc", true⟩
  | global : Mounted settings group
      ⟨settings.groupsDir.child "global".toList, "/workspace/global", false⟩
  | tools : Mounted settings group
      ⟨settings.dataDir.child "dynamic_tools".toList, "/app/dynamic_tools", false⟩

theorem groupMounts_cases (hm : mount ∈ groupMounts machine settings group) :
    Mounted settings group mount ∨ group.isMain = true ∧ mount.writable = false := by
  unfold groupMounts at hm
  split at hm
  · next hmain =>
      rcases List.mem_append.mp hm with hm | hm
      · rcases List.mem_pair.mp hm with rfl | rfl
        · exact .inr ⟨hmain, rfl⟩
        · exact .inl .group
      · refine .inr ⟨hmain, ?_⟩
        unfold envMounts at hm
        split at hm
        · split at hm
          · rw [List.mem_singleton.mp hm]
          · cases hm
        · cases hm
  · rcases List.mem_pair.mp hm with rfl | rfl
    · exact .inl .group
    · exact .inl .global

-- A check that did not raise lets the rest run.
theorem checked_ok {ε α : Type} {check : Except ε Unit} {rest : Except ε α} {result : α}
    (h : (check >>= fun _ => rest) = .ok result) : rest = .ok result := by
  cases check with
  | error error => cases h
  | ok _ => exact h

theorem mounted_of_mem (h : buildVolumeMounts machine settings group = .ok mounts)
    (hm : mount ∈ mounts) :
    Mounted settings group mount ∨ group.isMain = true ∧ mount.writable = false := by
  have hmounts : mounts = groupMounts machine settings group ++
      [⟨(sessionDir settings group).child ".claude".toList, "/home/node/.claude", true⟩,
        ⟨ipcDir settings group, "/workspace/ipc", true⟩,
        ⟨settings.dataDir.child "dynamic_tools".toList, "/app/dynamic_tools", false⟩] := by
    exact (Except.ok.inj (checked_ok (checked_ok (checked_ok h)))).symm
  rw [hmounts] at hm
  rcases List.mem_append.mp hm with hm | hm
  · exact groupMounts_cases hm
  · simp only [List.mem_cons, List.not_mem_nil, or_false] at hm
    rcases hm with rfl | rfl | rfl
    · exact .inl .session
    · exact .inl .ipc
    · exact .inl .tools

section Plain

variable {isWord : Char → Bool} (hdot : isWord '.' = false)
  (hvalid : validateFolder isWord group.folder.toList = true)

include hdot hvalid

theorem placeOf_folder (base : Path) : placeOf cwd (base.child group.folder.toList) =
    (placeOf cwd base).below [group.folder.toList] := by
  obtain ⟨hslash, hpart, hdots⟩ := validateFolder_plain hdot hvalid
  exact placeOf_child hslash hpart hdots

theorem spot_of_mounted (h : Mounted settings group mount) :
    (∃ spot ∈ ownSpots group.folder.toList, placeOf cwd mount.host = spot.place settings cwd) ∨
      mount.writable = false ∧
        ∃ spot ∈ sharedSpots, placeOf cwd mount.host = spot.place settings cwd := by
  have hchild (base : Path) (name : Name) (hname : '/' ∉ name ∧ isPart name = true ∧ name ≠ dotdot) :
      placeOf cwd (base.child name) = (placeOf cwd base).below [name] :=
    placeOf_child hname.1 hname.2.1 hname.2.2
  cases h with
  | group =>
      refine .inl ⟨⟨true, [group.folder.toList]⟩, by simp [ownSpots], ?_⟩
      exact placeOf_folder hdot hvalid _
  | session =>
      refine .inl ⟨⟨false, ["sessions".toList, group.folder.toList, ".claude".toList]⟩,
        by simp [ownSpots], ?_⟩
      rw [sessionDir, hchild _ _ (by decide), placeOf_folder hdot hvalid, hchild _ _ (by decide),
        below_below, below_below]
      rfl
  | ipc =>
      refine .inl ⟨⟨false, ["ipc".toList, group.folder.toList]⟩, by simp [ownSpots], ?_⟩
      rw [ipcDir, placeOf_folder hdot hvalid, hchild _ _ (by decide), below_below]
      rfl
  | global =>
      exact .inr ⟨rfl, ⟨true, ["global".toList]⟩, by simp [sharedSpots], hchild _ _ (by decide)⟩
  | tools =>
      exact .inr ⟨rfl, ⟨false, ["dynamic_tools".toList]⟩, by simp [sharedSpots],
        hchild _ _ (by decide)⟩

end Plain

theorem keptApart_of_valid {isWord : Char → Bool} (hdot : isWord '.' = false)
    (hapart : ¬ Overlaps (placeOf cwd settings.groupsDir) (placeOf cwd settings.dataDir))
    (hvalid : validateFolder isWord group.folder.toList = true)
    (hvalid' : validateFolder isWord other.folder.toList = true)
    (hne : group.folder ≠ other.folder) : KeptApart settings cwd group other := by
  intro machine machine' mounts mounts' hmounts hmounts' mount hm hwritable mount' hm' hreach hover
  have hfolders : group.folder.toList ≠ other.folder.toList := fun heq =>
    hne (String.toList_injective heq)
  have hown : ∃ spot ∈ ownSpots group.folder.toList,
      placeOf cwd mount.host = spot.place settings cwd := by
    rcases mounted_of_mem hmounts hm with hmounted | ⟨-, hreadOnly⟩
    · rcases spot_of_mounted hdot hvalid hmounted with hspot | ⟨hreadOnly, -⟩
      · exact hspot
      · exact absurd hwritable (by simp [hreadOnly])
    · exact absurd hwritable (by simp [hreadOnly])
  obtain ⟨spot, hspot, hplace⟩ := hown
  rcases mounted_of_mem hmounts' hm' with hmounted | ⟨hmain, hreadOnly⟩
  · rcases spot_of_mounted hdot hvalid' hmounted with ⟨spot', hspot', hplace'⟩ |
      ⟨hreadOnly, spot', hspot', hplace'⟩
    · rw [hplace, hplace'] at hover
      exact ownSpots_apart hfolders hspot hspot' (Spot.overlaps hapart hover)
    · rw [hplace, hplace'] at hover
      obtain ⟨-, hglobal⟩ := hreach.resolve_left (by simp [hreadOnly])
      have hshared : group.folder.toList ≠ "global".toList := fun heq =>
        hglobal (String.toList_injective heq)
      exact ownSpots_apart_shared hshared hspot hspot' (Spot.overlaps hapart hover)
  · rcases hreach with hw | ⟨hnone, -⟩
    · simp [hreadOnly] at hw
    · simp [hmain] at hnone

theorem Registered.isolated {isWord : Char → Bool} {groups : List Group}
    (h : Registered isWord groups) (hdot : isWord '.' = false)
    (hapart : ¬ Overlaps (placeOf cwd settings.groupsDir) (placeOf cwd settings.dataDir)) :
    Isolated settings cwd groups where
  oneMain := h.oneMain
  keptApart group hgroup other hother hne :=
    keptApart_of_valid hdot hapart (h.valid group hgroup) (h.valid other hother) fun hfolder =>
      hne (h.folders group hgroup other hother hfolder)
  project group _ hnone machine mounts hmounts mount hm htarget := by
    rcases mounted_of_mem hmounts hm with hmounted | ⟨hmain, -⟩
    · cases hmounted <;> simp at htarget
    · simp [hmain] at hnone

end Spots

-- Whatever is registered and in which order, the containers of two groups never write in the same
-- place, and only the one main group sees the project.
theorem containers_isolated {isWord : Char → Bool} (hdot : isWord '.' = false) {settings : Settings}
    {cwd : AbsPath}
    (hapart : ¬ Overlaps (placeOf cwd settings.groupsDir) (placeOf cwd settings.dataDir))
    (registrations : List Group) :
    Always (registerStep isWord) (Isolated settings cwd) [] registrations := by
  have hguard : Along (registerStep isWord) (fun _ _ => True) [] registrations :=
    along_of_forall (fun _ _ => trivial) _ _
  refine hguard.always (Registered isWord) ?_ (fun _ h => h.isolated hdot hapart) .empty
  rintro groups group next h - hstep
  cases hstep
  exact h.setRegisteredGroup


-- The directories of the default configuration.
def defaultSettings (baseDir : Path) : Settings where
  baseDir := baseDir
  groupsDir := baseDir.child "groups".toList
  dataDir := baseDir.child "data".toList
  assistantName := ""

theorem defaultSettings_apart (cwd : AbsPath) (baseDir : Path) :
    ¬ Overlaps (placeOf cwd (defaultSettings baseDir).groupsDir)
      (placeOf cwd (defaultSettings baseDir).dataDir) := by
  have hgroups : placeOf cwd (defaultSettings baseDir).groupsDir =
      (placeOf cwd baseDir).below ["groups".toList] :=
    placeOf_child (by decide) (by decide) (by decide)
  have hdata : placeOf cwd (defaultSettings baseDir).dataDir =
      (placeOf cwd baseDir).below ["data".toList] :=
    placeOf_child (by decide) (by decide) (by decide)
  rw [hgroups, hdata, overlaps_below_iff]
  decide

def isAsciiWord (c : Char) : Bool := c.isAlphanum ∨ c = '_'

theorem family_and_work_isolated :
    Always (registerStep isAsciiWord) (Isolated (defaultSettings ⟨some .slash, ["srv".toList]⟩)
        ⟨.slash, []⟩) []
      [⟨"tg:1", "family", true, false⟩, ⟨"tg:2", "../family", true, false⟩,
        ⟨"tg:2", "work", true, true⟩] :=
  containers_isolated (by decide) (defaultSettings_apart _ _) _

end EvoClaw.ContainerRunner
