import Mathlib.Data.List.Basic
import Mathlib.Data.List.Infix

-- A tree of files and directories without links. An operation that raises gives none.
namespace Posix

inductive Node (β : Type*) where
  | file (content : β)
  | dir
deriving DecidableEq

structure Tree (ν β : Type*) where
  entries : List (List ν × Node β) := []

namespace Tree

variable {ν β : Type*} [DecidableEq ν]

-- The root is always there.
def get (tree : Tree ν β) (place : List ν) : Option (Node β) :=
  if place = [] then some .dir else tree.entries.lookup place

def set (tree : Tree ν β) (place : List ν) (node : Node β) : Tree ν β :=
  ⟨(place, node) :: tree.entries.filter fun entry => entry.1 ≠ place⟩

def remove (tree : Tree ν β) (place : List ν) : Tree ν β :=
  ⟨tree.entries.filter fun entry => entry.1 ≠ place⟩

def fileAt (tree : Tree ν β) (place : List ν) : Option β :=
  match tree.get place with
  | some (.file content) => some content
  | _ => none

def isDir (tree : Tree ν β) (place : List ν) : Bool :=
  match tree.get place with
  | some .dir => true
  | _ => false

def occupied (tree : Tree ν β) (place : List ν) : Bool :=
  (tree.get place).isSome

-- A file where a path needs a directory.
def blocked (tree : Tree ν β) (place : List ν) : Bool :=
  place.inits.any fun above => above ≠ place ∧ (tree.fileAt above).isSome

-- The files, each where it stands.
def files (tree : Tree ν β) : List (List ν) :=
  (tree.entries.map Prod.fst).filter fun place => (tree.fileAt place).isSome

-- The directories of `rest` below `above`.
def makeDirsFrom (tree : Tree ν β) (above : List ν) : List ν → Option (Tree ν β)
  | [] => some tree
  | name :: rest =>
      match tree.get (above ++ [name]) with
      | some (.file _) => none
      | some .dir => makeDirsFrom tree (above ++ [name]) rest
      | none => makeDirsFrom (tree.set (above ++ [name]) .dir) (above ++ [name]) rest

-- mkdir(parents=True, exist_ok=True)
def makeDirs (tree : Tree ν β) (place : List ν) : Option (Tree ν β) :=
  makeDirsFrom tree [] place

def write (tree : Tree ν β) (place : List ν) (content : β) : Option (Tree ν β) :=
  if tree.isDir place.dropLast ∧ tree.isDir place = false then some (tree.set place (.file content))
  else none

-- Where shutil.copy2 puts a file: into a directory under its own name.
def copyTarget (tree : Tree ν β) (name : ν) (place : List ν) : List ν :=
  if tree.isDir place then place ++ [name] else place

def copy (tree : Tree ν β) (source : Node β) (name : ν) (place : List ν) : Option (Tree ν β) :=
  match source with
  | .dir => none
  | .file content => tree.write (tree.copyTarget name place) content

def unlink (tree : Tree ν β) (missingOk : Bool) (place : List ν) : Option (Tree ν β) :=
  match tree.get place with
  | some (.file _) => some (tree.remove place)
  | some .dir => none
  | none => if missingOk ∧ tree.blocked place = false then some tree else none

-- The places directly below.
def children (tree : Tree ν β) (place : List ν) : List (List ν) :=
  (tree.entries.map Prod.fst).filter fun below => below ≠ [] ∧ below.dropLast = place

-- Each directory behind what is in it.
def postorder (tree : Tree ν β) : Nat → List ν → List (List ν)
  | 0, place => [place]
  | levels + 1, place => (tree.children place).flatMap (postorder tree levels) ++ [place]

-- What shutil.rmtree removes, one after the other. There are no more levels than entries.
def below (tree : Tree ν β) (place : List ν) : List (List ν) :=
  tree.postorder tree.entries.length place

-- Everything at and below the source stands at the destination afterwards.
def relocate (tree : Tree ν β) (source dest : List ν) : Tree ν β :=
  ⟨tree.entries.filterMap fun entry =>
    if source <+: entry.1 then some (dest ++ entry.1.drop source.length, entry.2)
    else if entry.1 = dest then none
    else some entry⟩

-- os.replace. A directory brings what is below it, and only takes the place of an empty one.
def rename (tree : Tree ν β) (source dest : List ν) : Option (Tree ν β) :=
  if source = dest then if tree.occupied source then some tree else none
  else if source <+: dest ∨ tree.isDir dest.dropLast = false then none
  else
    match tree.get source, tree.get dest with
    | none, _ => none
    | some (.file _), some .dir => none
    | some (.file content), _ => some ((tree.remove source).set dest (.file content))
    | some .dir, some (.file _) => none
    | some .dir, some .dir =>
        if tree.entries.any fun entry => dest <+: entry.1 ∧ entry.1 ≠ dest then none
        else some (tree.relocate source dest)
    | some .dir, none => some (tree.relocate source dest)

-- shutil.move
def move [Inhabited ν] (tree : Tree ν β) (source dest : List ν) : Option (Tree ν β) :=
  if tree.isDir dest ∧ source ≠ dest then
    let inside := dest ++ [source.getLastD default]
    if tree.occupied inside then none else tree.rename source inside
  else tree.rename source dest

section Lookup

variable {tree after : Tree ν β} {place other : List ν} {node : Node β} {content : β}

@[simp] theorem get_nil (tree : Tree ν β) : tree.get [] = some .dir := if_pos rfl

theorem lookup_filter_ne (entries : List (List ν × Node β)) (h : other ≠ place) :
    (entries.filter fun entry => entry.1 ≠ place).lookup other = entries.lookup other := by
  induction entries with
  | nil => rfl
  | cons entry entries ih =>
      by_cases hentry : entry.1 = place
      · have hother : (other == entry.1) = false := by simpa [hentry] using h
        rw [List.filter_cons_of_neg (by simpa using hentry), ih, List.lookup_cons, hother]
      · rw [List.filter_cons_of_pos (by simpa using hentry), List.lookup_cons, List.lookup_cons, ih]

theorem lookup_filter_self (entries : List (List ν × Node β)) :
    (entries.filter fun entry => entry.1 ≠ place).lookup place = none := by
  rw [List.lookup_eq_none_iff]
  intro entry hentry
  have hne : entry.1 ≠ place := by simpa using (List.mem_filter.mp hentry).2
  exact bne_iff_ne.mpr hne.symm

theorem get_remove (h : place ≠ []) (other : List ν) :
    (tree.remove place).get other = if other = place then none else tree.get other := by
  unfold get remove
  by_cases heq : other = place
  · subst heq
    rw [if_neg h, if_pos rfl, lookup_filter_self]
  · rw [if_neg heq, lookup_filter_ne _ heq]

theorem get_set (h : place ≠ []) (other : List ν) :
    (tree.set place node).get other = if other = place then some node else tree.get other := by
  unfold get set
  by_cases heq : other = place
  · subst heq
    simp [h]
  · have hother : (other == place) = false := by simpa using heq
    rw [if_neg heq, List.lookup_cons, hother, lookup_filter_ne _ heq]

theorem fileAt_eq_some : tree.fileAt place = some content ↔ tree.get place = some (.file content) := by
  unfold fileAt
  split
  · rename_i held hget
    simp [hget]
  · rename_i hnot
    simp only [reduceCtorEq, false_iff]
    exact hnot content

theorem isDir_iff : tree.isDir place ↔ tree.get place = some .dir := by
  unfold isDir
  split
  · simp_all
  · rename_i hnot
    simpa using hnot

theorem fileAt_of_get (h : after.get place = tree.get place) :
    after.fileAt place = tree.fileAt place := by
  unfold fileAt
  rw [h]

theorem fileAt_dir (h : tree.isDir place) : tree.fileAt place = none := by
  unfold fileAt
  rw [isDir_iff.mp h]

theorem get_of_vacant (h : tree.occupied place = false) : tree.get place = none := by
  simpa [occupied] using h

theorem fileAt_of_vacant (h : tree.occupied place = false) : tree.fileAt place = none := by
  unfold fileAt
  rw [get_of_vacant h]

theorem isDir_of_vacant (h : tree.occupied place = false) : tree.isDir place = false := by
  unfold isDir
  rw [get_of_vacant h]

theorem mem_files : place ∈ tree.files ↔ (tree.fileAt place).isSome := by
  unfold files
  rw [List.mem_filter, and_iff_right_iff_imp]
  intro h
  obtain ⟨content, hcontent⟩ := Option.isSome_iff_exists.mp h
  have hget := fileAt_eq_some.mp hcontent
  have hne : place ≠ [] := by
    rintro rfl
    simp at hget
  unfold get at hget
  rw [if_neg hne, List.lookup_eq_some_iff] at hget
  obtain ⟨before, behind, heq, -⟩ := hget
  exact List.mem_map.mpr ⟨(place, .file content), by simp [heq], rfl⟩

end Lookup

section Directories

variable {tree after : Tree ν β} {place above rest other : List ν}

-- What making a directory does to a place.
def Widens (tree after : Tree ν β) : Prop :=
  ∀ place, after.get place = tree.get place ∨
    tree.get place = none ∧ after.get place = some .dir

theorem Widens.refl (tree : Tree ν β) : Widens tree tree := fun _ => .inl rfl

theorem Widens.fileAt (h : Widens tree after) (place : List ν) :
    after.fileAt place = tree.fileAt place := by
  rcases h place with h | ⟨hnone, hdir⟩
  · exact fileAt_of_get h
  · unfold Tree.fileAt
    rw [hnone, hdir]

theorem Widens.isDir (h : Widens tree after) (hdir : tree.isDir place) : after.isDir place := by
  rw [isDir_iff] at hdir ⊢
  rcases h place with h | ⟨hnone, -⟩
  · rw [h, hdir]
  · rw [hdir] at hnone
    cases hnone

theorem makeDirsFrom_spec (h : tree.makeDirsFrom above rest = some after)
    (habove : tree.isDir above) :
    Widens tree after ∧ after.isDir (above ++ rest) ∧
      ∀ other, after.get other ≠ tree.get other → other <+: above ++ rest := by
  induction rest generalizing tree above with
  | nil =>
      cases h
      exact ⟨.refl _, by simpa using habove, fun _ hne => absurd rfl hne⟩
  | cons name rest ih =>
      rw [makeDirsFrom] at h
      split at h
      · cases h
      · rename_i hdir
        have hspec := ih h (isDir_iff.mpr hdir)
        rwa [List.append_assoc, List.singleton_append] at hspec
      · rename_i hnone
        have hget := fun other => @get_set _ _ _ tree (above ++ [name]) .dir (by simp) other
        obtain ⟨hwidens, hdir, hchanged⟩ := ih h (isDir_iff.mpr (by rw [hget, if_pos rfl]))
        rw [List.append_assoc, List.singleton_append] at hdir hchanged
        refine ⟨fun place => ?_, hdir, fun other hne => ?_⟩
        · by_cases hplace : place = above ++ [name]
          · subst hplace
            right
            refine ⟨hnone, ?_⟩
            rcases hwidens (above ++ [name]) with h | h
            · rw [h, hget, if_pos rfl]
            · exact h.2
          · have h := hwidens place
            rwa [hget, if_neg hplace] at h
        · by_cases hother : other = above ++ [name]
          · exact ⟨rest, by rw [hother]; simp⟩
          · exact hchanged other (by rwa [hget, if_neg hother])

theorem makeDirs_widens (h : tree.makeDirs place = some after) : Widens tree after :=
  (makeDirsFrom_spec h (by simp [isDir])).1

theorem below_ne_nil (tree : Tree ν β) (place : List ν) : tree.below place ≠ [] := by
  unfold below postorder
  split
  · exact List.cons_ne_nil _ _
  · exact List.append_ne_nil_of_right_ne_nil _ (List.cons_ne_nil _ _)

theorem makeDirs_changed (h : tree.makeDirs place = some after)
    (hother : after.get other ≠ tree.get other) : other <+: place :=
  (makeDirsFrom_spec h (by simp [isDir])).2.2 other hother

theorem makeDirs_isDir (h : tree.makeDirs place = some after) : after.isDir place :=
  (makeDirsFrom_spec h (by simp [isDir])).2.1

-- No directory of the way is missing for good.
theorem makeDirsFrom_of_no_file (h : ∀ q, q <+: above ++ rest → tree.fileAt q = none) :
    ∃ after, tree.makeDirsFrom above rest = some after := by
  induction rest generalizing tree above with
  | nil => exact ⟨tree, rfl⟩
  | cons name rest ih =>
      have happend : above ++ name :: rest = above ++ [name] ++ rest := by simp
      rw [makeDirsFrom]
      split
      · rename_i content hfile
        have hnone := h (above ++ [name]) ⟨rest, by simp⟩
        rw [fileAt_eq_some.mpr hfile] at hnone
        cases hnone
      · exact ih (happend ▸ h)
      · refine ih fun q hq => ?_
        have hnamed : above ++ [name] ≠ [] := by simp
        have hget := @get_set _ _ _ tree _ Node.dir hnamed q
        by_cases heq : q = above ++ [name]
        · rw [if_pos heq] at hget
          exact fileAt_dir (isDir_iff.mpr hget)
        · rw [if_neg heq] at hget
          rw [fileAt_of_get hget]
          exact h q (happend ▸ hq)

theorem fileAt_of_not_blocked (h : tree.blocked place = false) (hother : other <+: place)
    (hne : other ≠ place) : tree.fileAt other = none := by
  unfold blocked at h
  rw [List.any_eq_false] at h
  simpa [hne] using h other ((List.mem_inits _ _).mpr hother)

theorem not_blocked_of (h : ∀ other, other <+: place → other ≠ place → tree.fileAt other = none) :
    tree.blocked place = false := by
  unfold blocked
  rw [List.any_eq_false]
  intro above habove
  rw [decide_eq_true_eq, not_and]
  intro hne
  simp [h above ((List.mem_inits _ _).mp habove) hne]

theorem makeDirs_of_not_blocked (h : tree.blocked place = false) :
    ∃ after, tree.makeDirs place.dropLast = some after := by
  refine makeDirsFrom_of_no_file fun q hq => ?_
  rw [List.nil_append] at hq
  by_cases hnil : q = []
  · subst hnil
    simp [fileAt]
  · refine fileAt_of_not_blocked h (hq.trans (List.dropLast_prefix place)) ?_
    rintro rfl
    have hlength := hq.length_le
    have hpos : 0 < q.length := List.length_pos_iff.mpr hnil
    rw [List.length_dropLast] at hlength
    omega

end Directories

section Writing

variable {tree after : Tree ν β} {place other : List ν} {content : β} {missingOk : Bool}

theorem write_spec (h : tree.write place content = some after) :
    place ≠ [] ∧ tree.isDir place = false ∧ tree.isDir place.dropLast ∧
      ∀ other, after.get other = if other = place then some (.file content) else tree.get other := by
  unfold write at h
  split at h
  · rename_i hdirs
    cases h
    have hne : place ≠ [] := by
      rintro rfl
      simp [isDir] at hdirs
    exact ⟨hne, hdirs.2, hdirs.1, get_set hne⟩
  · cases h

theorem unlink_spec (h : tree.unlink missingOk place = some after) :
    tree.isDir place = false ∧
      ∀ other, after.get other = if other = place then none else tree.get other := by
  unfold unlink at h
  split at h
  · rename_i content hfile
    cases h
    have hne : place ≠ [] := by
      rintro rfl
      simp at hfile
    exact ⟨by simp [isDir, hfile], get_remove hne⟩
  · cases h
  · rename_i hnone
    split at h
    · cases h
      refine ⟨by simp [isDir, hnone], fun other => ?_⟩
      split
      · rename_i heq
        rw [heq, hnone]
      · rfl
    · cases h

theorem unlink_of_free (hdir : tree.isDir place = false) (hblocked : tree.blocked place = false) :
    ∃ after, tree.unlink true place = some after := by
  unfold unlink
  split
  · exact ⟨_, rfl⟩
  · rename_i h
    rw [isDir_iff.mpr h] at hdir
    cases hdir
  · exact ⟨tree, if_pos ⟨rfl, hblocked⟩⟩

theorem fileAt_of_unlink_none (h : tree.unlink true place = none) : tree.fileAt place = none := by
  unfold unlink at h
  split at h
  · cases h
  · rename_i hdir
    exact fileAt_dir (isDir_iff.mpr hdir)
  · rename_i hnone
    unfold fileAt
    rw [hnone]

theorem copy_of_free (name : ν) (hdir : tree.isDir place = false)
    (hparent : tree.isDir place.dropLast) :
    ∃ after, tree.copy (.file content) name place = some after ∧
      ∀ other, after.get other = if other = place then some (.file content) else tree.get other := by
  have hwrite : tree.write place content = some (tree.set place (.file content)) :=
    if_pos ⟨hparent, hdir⟩
  refine ⟨tree.set place (.file content), ?_, (write_spec hwrite).2.2.2⟩
  unfold copy copyTarget
  rw [hdir]
  exact hwrite

-- Files are put at the places, or removed from there.
def Rewrites (places : List (List ν)) (tree after : Tree ν β) : Prop :=
  ∀ other, after.get other = tree.get other ∨ other ∈ places ∧ after.isDir other = false

theorem Rewrites.fileAt {places : List (List ν)} (h : Rewrites places tree after)
    (hother : after.fileAt other ≠ tree.fileAt other) : other ∈ places :=
  ((h other).resolve_left fun hsame => hother (fileAt_of_get hsame)).1

theorem Rewrites.isDir {places : List (List ν)} (h : Rewrites places tree after)
    (hother : after.isDir other) : tree.isDir other := by
  rcases h other with hsame | ⟨-, hdir⟩
  · rwa [isDir_iff, ← hsame, ← isDir_iff]
  · rw [hdir] at hother
    cases hother

theorem rewrites_of_file
    (h : ∀ other, after.get other = if other = place then some (.file content) else tree.get other) :
    Rewrites [place] tree after := by
  intro other
  by_cases hother : other = place
  · refine .inr ⟨List.mem_singleton.mpr hother, ?_⟩
    simp [isDir, h, hother]
  · exact .inl (by rw [h, if_neg hother])

theorem rewrites_of_none
    (h : ∀ other, after.get other = if other = place then none else tree.get other) :
    Rewrites [place] tree after := by
  intro other
  by_cases hother : other = place
  · refine .inr ⟨List.mem_singleton.mpr hother, ?_⟩
    simp [isDir, h, hother]
  · exact .inl (by rw [h, if_neg hother])

theorem write_rewrites (h : tree.write place content = some after) : Rewrites [place] tree after :=
  rewrites_of_file (write_spec h).2.2.2

theorem unlink_rewrites (h : tree.unlink missingOk place = some after) :
    Rewrites [place] tree after :=
  rewrites_of_none (unlink_spec h).2

theorem copy_spec {source : Node β} {name : ν} (h : tree.copy source name place = some after)
    (hdir : tree.isDir place = false) :
    ∃ content, source = .file content ∧ ∀ other,
      after.get other = if other = place then some (.file content) else tree.get other := by
  unfold copy at h
  split at h
  · cases h
  · rename_i content
    unfold copyTarget at h
    rw [if_neg (by simp [hdir])] at h
    exact ⟨content, rfl, (write_spec h).2.2.2⟩

theorem copy_rewrites {source : Node β} {name : ν} (h : tree.copy source name place = some after)
    (hdir : tree.isDir place = false) : Rewrites [place] tree after := by
  obtain ⟨content, -, hget⟩ := copy_spec h hdir
  exact rewrites_of_file hget

-- A file that gets another name.
theorem rename_spec {source dest : List ν} (h : tree.rename source dest = some after)
    (hdir : tree.isDir source = false) :
    ∃ content, ∀ other, after.get other =
      if other = dest then some (.file content) else if other = source then none
      else tree.get other := by
  unfold rename at h
  split at h
  · rename_i heq
    subst heq
    split at h
    · rename_i hthere
      cases h
      cases hget : tree.get source with
      | none => simp [occupied, hget] at hthere
      | some node =>
          cases node with
          | dir => simp [isDir, hget] at hdir
          | file content =>
              refine ⟨content, fun other => ?_⟩
              by_cases hother : other = source
              · rw [if_pos hother, hother, hget]
              · rw [if_neg hother, if_neg hother]
    · cases h
  split at h
  · cases h
  split at h
  · cases h
  · cases h
  · rename_i content hfile hdest
    cases h
    have hsource : source ≠ [] := by
      rintro rfl
      simp at hfile
    have hnamed : dest ≠ [] := by
      rintro rfl
      exact hdest (get_nil _)
    refine ⟨content, fun other => ?_⟩
    rw [get_set hnamed, get_remove hsource]
  all_goals
    rename_i hsource _
    simp [isDir, hsource] at hdir

theorem move_spec [Inhabited ν] {source dest : List ν} (h : tree.move source dest = some after)
    (hsource : tree.isDir source = false) (hdest : tree.isDir dest = false) :
    ∃ content, ∀ other, after.get other =
      if other = dest then some (.file content) else if other = source then none
      else tree.get other := by
  unfold move at h
  rw [if_neg (by simp [hdest])] at h
  exact rename_spec h hsource

theorem rewrites_of_moved {source dest : List ν}
    (h : ∀ other, after.get other =
      if other = dest then some (.file content) else if other = source then none
      else tree.get other) : Rewrites [source, dest] tree after := by
  intro other
  by_cases hdest : other = dest
  · exact .inr ⟨by simp [hdest], by simp [isDir, h, hdest]⟩
  by_cases hsource : other = source
  · refine .inr ⟨by simp [hsource], ?_⟩
    simp only [isDir, h, if_neg hdest, if_pos hsource]
  · exact .inl (by rw [h, if_neg hdest, if_neg hsource])

theorem rename_rewrites {source dest : List ν} (h : tree.rename source dest = some after)
    (hdir : tree.isDir source = false) : Rewrites [source, dest] tree after := by
  obtain ⟨content, hget⟩ := rename_spec h hdir
  exact rewrites_of_moved hget

end Writing

end Tree

end Posix
