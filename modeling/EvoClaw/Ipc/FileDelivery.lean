import EvoClaw.Ipc.Jobs

-- Where the files lie that _resolve_container_path lets a group send.
namespace EvoClaw.Ipc

open Posix

inductive Mount where
  | group
  | project
  | ipc
  | global
deriving DecidableEq

namespace Mount

def inContainer : Mount → String
  | group => "/workspace/group/"
  | project => "/workspace/project/"
  | ipc => "/workspace/ipc/"
  | global => "/workspace/global/"

def onHost (settings : Settings) (folder : Folder) : Mount → Path
  | group => settings.groupsDir.child folder.toList
  | project => settings.baseDir
  | ipc => (settings.dataDir.child "ipc".toList).child folder.toList
  | global => settings.groupsDir.child "global".toList

end Mount

def isAscii (c : Char) : Bool :=
  c.toNat < 128

-- What str.lower does to ASCII letters, also at the end of other text.
structure LowersAscii (lower : List Char → List Char) : Prop where
  ascii : ∀ text, text.all isAscii = true → lower text = text.map Char.toLower
  tail : ∀ front tail, tail.all isAscii = true → tail.map Char.toLower <:+ lower (front ++ tail)

-- No symbolic link is met, so that a path resolves to itself or raises.
def ResolvesLexically (cwd : AbsPath) (resolve : Path → Option AbsPath) : Prop :=
  ∀ path resolved, resolve path = some resolved → resolved = (cwd.join path).normalise

-- The name is a sensitive one, or has a sensitive suffix, in some letter case.
def SensitiveName (lower : List Char → List Char) (name : Name) : Prop :=
  isSensitiveName (lower name) = true ∨ isSensitiveName (name.map Char.toLower) = true

def SensitiveDir (lower : List Char → List Char) (name : Name) : Prop :=
  isSensitiveDir (lower name) = true ∨ isSensitiveDir (name.map Char.toLower) = true

-- The path is the directory or lies below it, and nothing sensitive is on the way.
def Deliverable (lower : List Char → List Char) (dir path : AbsPath) : Prop :=
  path.root = dir.root ∧ (∃ rest, path.parts = dir.parts ++ rest ∧
    ∀ part ∈ rest, ¬ SensitiveDir lower part) ∧ ¬ SensitiveName lower path.name

-- The text of a container path that the prefixes are looked for in.
def containerText (containerPath : String) : List Char :=
  strip (containerPath.toList.map fun c => if c = '\\' then '/' else c)

variable {runtime : Runtime} {settings : Settings} {folder : Folder} {isMain : Bool}
  {lower : List Char → List Char} {text rel : List Char} {root host : Path} {name word : Name}
  {cwd : AbsPath} {containerPath : String}

theorem isAscii_of_toLower {c : Char} (h : isAscii c.toLower = true) : isAscii c = true := by
  by_contra hc
  have hbig : 128 ≤ c.toNat := by simpa [isAscii] using hc
  have hlower : c.toLower = c := by
    unfold Char.toLower
    rw [dif_neg]
    rintro ⟨-, hupper⟩
    have := UInt32.le_iff_toNat_le.mp hupper
    simp only [Char.toNat] at hbig
    change c.val.toNat ≤ 90 at this
    omega
  rw [hlower] at h
  exact hc h

theorem all_isAscii_of_toLower (h : (name.map Char.toLower).all isAscii = true) :
    name.all isAscii = true := by
  simp only [List.all_map, List.all_eq_true, Function.comp_apply] at h ⊢
  exact fun c hc => isAscii_of_toLower (h c hc)

theorem LowersAscii.eq_of_toLower (hlower : LowersAscii lower) (hword : word.all isAscii = true)
    (h : name.map Char.toLower = word) : lower name = word := by
  subst h
  exact hlower.ascii name (all_isAscii_of_toLower hword)

theorem LowersAscii.isSuffix_of_toLower (hlower : LowersAscii lower)
    (hword : word.all isAscii = true) (h : word <:+ name.map Char.toLower) :
    word <:+ lower name := by
  obtain ⟨front, hfront⟩ := h
  obtain ⟨stem, ending, rfl, -, hending⟩ := List.map_eq_append_iff.mp hfront.symm
  subst hending
  exact hlower.tail stem ending (all_isAscii_of_toLower hword)

theorem LowersAscii.isSensitiveDir_of_toLower (hlower : LowersAscii lower)
    (h : isSensitiveDir (name.map Char.toLower) = true) : isSensitiveDir (lower name) = true := by
  unfold isSensitiveDir at h ⊢
  obtain ⟨dir, hdir, heq⟩ := List.any_eq_true.mp h
  have hascii : ∀ dir ∈ [".git", "store", "data"], dir.toList.all isAscii = true := by decide
  exact List.any_eq_true.mpr ⟨dir, hdir, by
    simpa using hlower.eq_of_toLower (hascii dir hdir) (of_decide_eq_true heq)⟩

theorem LowersAscii.isSensitiveName_of_toLower (hlower : LowersAscii lower)
    (h : isSensitiveName (name.map Char.toLower) = true) :
    isSensitiveName (lower name) = true := by
  unfold isSensitiveName at h ⊢
  have hnames : ∀ name ∈ [".env", ".env.local", ".netrc", "id_rsa", "id_dsa", "id_ecdsa",
      "id_ed25519"], name.toList.all isAscii = true := by decide
  have hsuffixes : ∀ suffix ∈ [".pem", ".key", ".p12", ".pfx", ".crt"],
      suffix.toList.all isAscii = true := by decide
  rw [decide_eq_true_iff] at h ⊢
  rcases h with h | h
  · obtain ⟨sensitive, hmem, heq⟩ := List.any_eq_true.mp h
    exact .inl (List.any_eq_true.mpr ⟨sensitive, hmem, by
      simpa using hlower.eq_of_toLower (hnames sensitive hmem) (of_decide_eq_true heq)⟩)
  · obtain ⟨suffix, hmem, hsuffix⟩ := List.any_eq_true.mp h
    exact .inr (List.any_eq_true.mpr ⟨suffix, hmem, List.isSuffixOf_iff_suffix.mpr
      (hlower.isSuffix_of_toLower (hsuffixes suffix hmem) (List.isSuffixOf_iff_suffix.mp hsuffix))⟩)

-- The test of the lowered text finds every spelling.
theorem LowersAscii.sensitiveDir_iff (hlower : LowersAscii lower) :
    SensitiveDir lower name ↔ isSensitiveDir (lower name) = true :=
  or_iff_left_of_imp hlower.isSensitiveDir_of_toLower

theorem LowersAscii.sensitiveName_iff (hlower : LowersAscii lower) :
    SensitiveName lower name ↔ isSensitiveName (lower name) = true :=
  or_iff_left_of_imp hlower.isSensitiveName_of_toLower

-- A path passes both tests exactly if it may be delivered.
theorem deliverable_iff {path dir : AbsPath} (hlower : LowersAscii runtime.lower) :
    path.isRelativeTo dir = true ∧ ¬ isSensitiveSendFilePath runtime path dir = true ↔
      Deliverable runtime.lower dir path := by
  rw [AbsPath.isRelativeTo_iff, Deliverable, and_assoc]
  refine and_congr_right fun hroot => ?_
  constructor
  · rintro ⟨⟨rest, hrest⟩, hsafe⟩
    have hinside : path.isRelativeTo dir = true :=
      AbsPath.isRelativeTo_iff.mpr ⟨hroot, rest, hrest⟩
    have hdrop : path.parts.drop dir.parts.length = rest := by rw [← hrest, List.drop_left]
    simp only [isSensitiveSendFilePath, hinside, if_true, hdrop, decide_eq_true_iff, not_or] at hsafe
    refine ⟨⟨rest, hrest.symm, fun part hpart hdir => hsafe.1 ?_⟩, fun hname => hsafe.2 ?_⟩
    · exact List.any_eq_true.mpr
        ⟨_, List.mem_map_of_mem hpart, hlower.sensitiveDir_iff.mp hdir⟩
    · exact hlower.sensitiveName_iff.mp hname
  · rintro ⟨⟨rest, hrest, hdirs⟩, hname⟩
    have hinside : path.isRelativeTo dir = true :=
      AbsPath.isRelativeTo_iff.mpr ⟨hroot, rest, hrest.symm⟩
    have hdrop : path.parts.drop dir.parts.length = rest := by rw [hrest, List.drop_left]
    refine ⟨⟨rest, hrest.symm⟩, ?_⟩
    simp only [isSensitiveSendFilePath, hinside, if_true, hdrop, decide_eq_true_iff, not_or]
    refine ⟨fun h => ?_, fun h => hname (hlower.sensitiveName_iff.mpr h)⟩
    obtain ⟨lowered, hmem, hdir⟩ := List.any_eq_true.mp h
    obtain ⟨part, hpart, rfl⟩ := List.mem_map.mp hmem
    exact hdirs part hpart (hlower.sensitiveDir_iff.mpr hdir)

theorem mountOf_eq_some (h : mountOf settings folder isMain text = some (root, rel)) :
    ∃ mount : Mount, text = mount.inContainer.toList ++ rel ∧
      (mount = .project → isMain = true) ∧ root = mount.onHost settings folder := by
  have below : ∀ (pre : String) {rest : List Char},
      (if pre.toList.isPrefixOf text then some (text.drop pre.toList.length) else none) =
        some rest → text = pre.toList ++ rest := by
    intro pre rest hbelow
    split at hbelow
    · rename_i hpre
      rw [← Option.some.inj hbelow]
      exact (List.prefix_iff_eq_append.mp (List.isPrefixOf_iff_prefix.mp hpre)).symm
    · cases hbelow
  unfold mountOf at h
  dsimp only at h
  split at h
  · rename_i hgroup
    cases h
    exact ⟨.group, below _ hgroup, nofun, rfl⟩
  · split at h
    · rename_i hproject
      split at h
      · rename_i hmain
        cases h
        exact ⟨.project, below _ hproject, fun _ => hmain, rfl⟩
      · cases h
    · split at h
      · rename_i hipc
        cases h
        exact ⟨.ipc, below _ hipc, nofun, rfl⟩
      · obtain ⟨rest, hglobal, heq⟩ := Option.map_eq_some_iff.mp h
        cases heq
        exact ⟨.global, below _ hglobal, nofun, rfl⟩

-- A host path is only given for a file of one of the group's own mounts.
theorem resolve_container_path_confined (hresolve : ResolvesLexically cwd runtime.resolve)
    (hlower : LowersAscii runtime.lower)
    (h : resolveContainerPath runtime settings containerPath folder isMain = some host) :
    ∃ mount : Mount, mount.inContainer.toList <+: containerText containerPath ∧
      (mount = .project → isMain = true) ∧
      Deliverable runtime.lower (cwd.join (mount.onHost settings folder)).normalise
        (cwd.join host).normalise := by
  unfold resolveContainerPath at h
  split at h
  · cases h
  · obtain ⟨⟨root, rel⟩, hmount, h⟩ := Option.bind_eq_some_iff.mp h
    obtain ⟨resolved, hhost, h⟩ := Option.bind_eq_some_iff.mp h
    obtain ⟨dir, hdir, h⟩ := Option.bind_eq_some_iff.mp h
    obtain ⟨mount, htext, hmain, rfl⟩ := mountOf_eq_some hmount
    split at h
    · rename_i hsafe
      have hdeliver := (deliverable_iff hlower).mp hsafe
      rw [hresolve _ _ hhost, hresolve _ _ hdir, Option.some.inj h] at hdeliver
      exact ⟨mount, ⟨rel, htext.symm⟩, hmain, hdeliver⟩
    · cases h

def asciiRuntime : Runtime := { plainRuntime with lower := List.map Char.toLower }

theorem asciiRuntime_lowers : LowersAscii asciiRuntime.lower where
  ascii := fun _ _ => rfl
  tail := fun front _ _ => ⟨front.map Char.toLower, List.map_append.symm⟩

def monthlyReport : Path := Path.parse "/srv/groups/one/reports/../June.pdf".toList

theorem resolve_container_path_confined_report :
    resolveContainerPath asciiRuntime plainSettings " \\workspace\\group\\reports/../June.pdf" "one"
        false = some monthlyReport ∧
      ∃ mount : Mount,
        mount.inContainer.toList <+: containerText " \\workspace\\group\\reports/../June.pdf" ∧
        (mount = .project → false = true) ∧
        Deliverable asciiRuntime.lower
          (AbsPath.join ⟨.slash, []⟩ (mount.onHost plainSettings "one")).normalise
          (AbsPath.join ⟨.slash, []⟩ monthlyReport).normalise := by
  have hreport : resolveContainerPath asciiRuntime plainSettings
      " \\workspace\\group\\reports/../June.pdf" "one" false = some monthlyReport := by
    decide +kernel
  exact ⟨hreport, resolve_container_path_confined
    (fun path resolved h => (Option.some.inj h).symm) asciiRuntime_lowers hreport⟩

example : resolveContainerPath asciiRuntime plainSettings "/workspace/group/.GIT/config" "one"
    false = none := by
  decide +kernel

end EvoClaw.Ipc
