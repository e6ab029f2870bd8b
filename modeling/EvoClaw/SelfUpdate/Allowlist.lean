import EvoClaw.SelfUpdate.Attempts
import EvoClaw.Text.Blanks

namespace EvoClaw.SelfUpdate

open Text

-- What git apply reads: the header lines that it finds in a text, and the paths that it takes
-- from each of them. A corrupt patch, or one that does not fit the files, is refused as a whole.
structure Git where
  refuses : List Char → Bool
  headers : List Char → List (List Char)
  paths : List Char → List Char → List FilePath

def withoutFirst (path : FilePath) : FilePath :=
  (path.dropWhile (· ≠ '/')).drop 1

-- /dev/null
def devNull : FilePath := ['/', 'd', 'e', 'v', '/', 'n', 'u', 'l', 'l']

-- Neither white space nor a quote, and no end of a C string.
def isBare (c : Char) : Bool :=
  ! isSpace c && c != '"' && c.toNat != 0

def Bare (text : List Char) : Prop :=
  ∀ c ∈ text, isBare c = true

-- A name that git apply reads as it stands: two slashes would be squashed into one.
structure Neat (path : FilePath) : Prop where
  bare : Bare path
  squashed : ¬ ['/', '/'] <:+: path

def singleMarks : List String := ["--- ", "+++ "]

-- git apply takes the first components from the paths, unless it meets a file name without any slash
-- beside a mark: then it may guess that there is nothing to take.
def Git.Strips (git : Git) (diff : List Char) : Prop :=
  ∀ line ∈ git.headers diff, ∀ mark ∈ singleMarks, ∀ path, line = mark.toList ++ path →
    path = devNull ∨ '/' ∈ path.takeWhile isBare

-- Names that need no quotes are read up to the blank, and /dev/null is no file.
structure Git.Documented (git : Git) : Prop where
  lines : ∀ diff, ∀ line ∈ git.headers diff, line ∈ diff.splitOn '\n'
  pair : ∀ diff, git.Strips diff → ∀ old new, Neat old → Neat new →
    git.paths diff ("diff --git ".toList ++ (old ++ ' ' :: new)) ⊆
      [withoutFirst old, withoutFirst new]
  single : ∀ diff, git.Strips diff → ∀ mark ∈ singleMarks, ∀ path, Neat path →
    git.paths diff (mark.toList ++ path) ⊆ if path = devNull then [] else [withoutFirst path]

def climbs (path : FilePath) : Bool :=
  (path.splitOn '/').contains ['.', '.']

def Git.named (git : Git) (diff : List Char) : List FilePath :=
  (git.headers diff).flatMap (git.paths diff)

-- A patch that names a path with ".." is refused too.
def Git.rejects (git : Git) (diff : List Char) : Bool :=
  git.refuses diff || (git.named diff).any climbs

def Git.touched (git : Git) (diff : List Char) : List FilePath :=
  if git.rejects diff then [] else git.named diff

def AllowlistSound (git : Git) (diff : List Char) : Prop :=
  ∀ path ∈ git.touched diff, Allowed path

-- The header lines that the check reads.
inductive Plain : List Char → Prop
  | pair {old new : FilePath} (hold : Neat ("a/".toList ++ old)) (hnew : Neat ("b/".toList ++ new)) :
      Plain ("diff --git a/".toList ++ (old ++ ' ' :: ("b/".toList ++ new)))
  | old {path : FilePath} (hpath : Neat ("a/".toList ++ path)) : Plain ("--- a/".toList ++ path)
  | new {path : FilePath} (hpath : Neat ("b/".toList ++ path)) : Plain ("+++ b/".toList ++ path)
  | created : Plain ("--- ".toList ++ devNull)
  | deleted : Plain ("+++ ".toList ++ devNull)

-- The patch is refused, or its header lines name allowed paths only, save for those that the check
-- reads as git apply does.
def OtherHeadersAllowed (git : Git) (diff : List Char) : Prop :=
  git.rejects diff = true ∨
    ∀ line ∈ git.headers diff, ¬ (git.Strips diff ∧ Plain line) →
      ∀ path ∈ git.paths diff line, Allowed path

section Reading

variable {text : List Char} {git : Git} {diff line : List Char}

theorem bare_of_all (h : text.all isBare = true) : Bare text :=
  List.all_eq_true.mp h

theorem Bare.right {mark : List Char} (h : Bare (mark ++ text)) : Bare text :=
  fun c hc => h c (List.mem_append_right mark hc)

theorem Bare.notSpace (h : Bare text) : ∀ c ∈ text, isSpace c = false := by
  intro c hc
  have hbare := h c hc
  simp only [isBare, Bool.and_eq_true, Bool.not_eq_true'] at hbare
  exact hbare.1.1

theorem neat_devNull : Neat devNull where
  bare := bare_of_all (by decide)
  squashed := by decide

theorem words_pair {old new : FilePath} (hold : Bare old) (hnew : Bare new) (ho : old ≠ [])
    (hn : new ≠ []) : words ("diff --git ".toList ++ (old ++ ' ' :: new)) =
      ["diff".toList, "--git".toList, old, new] := by
  have hline : "diff --git ".toList ++ (old ++ ' ' :: new) =
      "diff".toList ++ ' ' :: ("--git".toList ++ ' ' :: (old ++ ' ' :: new)) := rfl
  rw [hline, words_cons (by decide) (none_of_all (by decide)),
    words_cons (by decide) (none_of_all (by decide)),
    words_cons ho hold.notSpace, words_singleton hn hnew.notSpace]

theorem pathsOf_pair {old new : FilePath} (hold : Bare ("a/".toList ++ old))
    (hnew : Bare ("b/".toList ++ new)) :
    pathsOf ("diff --git a/".toList ++ (old ++ ' ' :: ("b/".toList ++ new))) = [old, new] := by
  have hwords := words_pair hold hnew (by simp) (by simp)
  have hline : "diff --git ".toList ++ ("a/".toList ++ old ++ ' ' :: ("b/".toList ++ new)) =
      "diff --git a/".toList ++ (old ++ ' ' :: ("b/".toList ++ new)) := by simp
  rw [hline] at hwords
  rw [pathsOf, if_pos (by rfl), hwords]
  rfl

theorem pathsOf_old {path : FilePath} (h : Bare ("a/".toList ++ path)) :
    pathsOf ("--- a/".toList ++ path) = [path] := by
  rw [pathsOf, if_neg (by simp), if_pos (.inr (by rfl))]
  exact congrArg ([·]) (Text.strip_of_no_blank h.right.notSpace)

theorem pathsOf_new {path : FilePath} (h : Bare ("b/".toList ++ path)) :
    pathsOf ("+++ b/".toList ++ path) = [path] := by
  rw [pathsOf, if_neg (by simp), if_pos (.inl (by rfl))]
  exact congrArg ([·]) (Text.strip_of_no_blank h.right.notSpace)

theorem Bare.noBreak (h : Bare text) : ∀ c ∈ text, isLineBreak c = false := by
  intro c hc
  cases hbreak : isLineBreak c with
  | false => rfl
  | true =>
      have hspace := isSpace_of_isLineBreak hbreak
      rw [h.notSpace c hc] at hspace
      cases hspace

theorem Plain.noBreak (h : Plain line) : ∀ c ∈ line, isLineBreak c = false := by
  cases h with
  | pair hold hnew =>
      have hmark : ∀ c ∈ ' ' :: "b/".toList, isLineBreak c = false := none_of_all (by decide)
      have hsecond := List.forall_mem_append.mpr ⟨hmark, hnew.bare.right.noBreak⟩
      exact List.forall_mem_append.mpr ⟨none_of_all (by decide),
        List.forall_mem_append.mpr ⟨hold.bare.right.noBreak, hsecond⟩⟩
  | old hpath =>
      exact List.forall_mem_append.mpr ⟨none_of_all (by decide), hpath.bare.right.noBreak⟩
  | new hpath =>
      exact List.forall_mem_append.mpr ⟨none_of_all (by decide), hpath.bare.right.noBreak⟩
  | created => exact none_of_all (by decide)
  | deleted => exact none_of_all (by decide)

theorem Plain.ne_nil (h : Plain line) : line ≠ [] := by
  cases h <;> exact List.cons_ne_nil _ _

theorem withoutFirst_mark {mark : String} (h : mark ∈ ["a/", "b/"]) {path : FilePath} :
    withoutFirst (mark.toList ++ path) = path := by
  simp only [List.mem_cons, List.not_mem_nil, or_false] at h
  rcases h with rfl | rfl <;> simp [withoutFirst]

-- What git apply takes from a plain line, the check takes from it too.
theorem Plain.paths_subset (h : Plain line) (hgit : git.Documented) (hstrips : git.Strips diff) :
    git.paths diff line ⊆ pathsOf line := by
  have ha : "a/" ∈ ["a/", "b/"] := List.mem_cons_self
  have hb : "b/" ∈ ["a/", "b/"] := List.mem_cons_of_mem _ List.mem_cons_self
  cases h with
  | @pair old new hold hnew =>
      have hpaths := hgit.pair diff hstrips _ _ hold hnew
      have hline : "diff --git ".toList ++ ("a/".toList ++ old ++ ' ' :: ("b/".toList ++ new)) =
          "diff --git a/".toList ++ (old ++ ' ' :: ("b/".toList ++ new)) := by simp
      rw [hline, withoutFirst_mark ha, withoutFirst_mark hb] at hpaths
      rw [pathsOf_pair hold.bare hnew.bare]
      exact hpaths
  | @old path hpath =>
      have hpaths := hgit.single diff hstrips "--- " (by simp [singleMarks]) _ hpath
      have hfile : "a/".toList ++ path ≠ devNull := by simp [devNull]
      have hline : "--- ".toList ++ ("a/".toList ++ path) = "--- a/".toList ++ path := by simp
      rw [if_neg hfile, withoutFirst_mark ha, hline] at hpaths
      rw [pathsOf_old hpath.bare]
      exact hpaths
  | @new path hpath =>
      have hpaths := hgit.single diff hstrips "+++ " (by simp [singleMarks]) _ hpath
      have hfile : "b/".toList ++ path ≠ devNull := by simp [devNull]
      have hline : "+++ ".toList ++ ("b/".toList ++ path) = "+++ b/".toList ++ path := by simp
      rw [if_neg hfile, withoutFirst_mark hb, hline] at hpaths
      rw [pathsOf_new hpath.bare]
      exact hpaths
  | created =>
      have hpaths := hgit.single diff hstrips "--- " (by simp [singleMarks]) devNull neat_devNull
      rw [if_pos rfl] at hpaths
      exact fun path hpath => absurd (hpaths hpath) List.not_mem_nil
  | deleted =>
      have hpaths := hgit.single diff hstrips "+++ " (by simp [singleMarks]) devNull neat_devNull
      rw [if_pos rfl] at hpaths
      exact fun path hpath => absurd (hpaths hpath) List.not_mem_nil

-- The check keeps git apply to the allowed paths exactly when the header lines that it does not
-- read as git apply does name allowed paths only, or the patch is refused.
theorem allowlistSound_iff (hgit : git.Documented)
    (haccepted : (diffTouchesOnlyAllowlist diff).1 = true) :
    AllowlistSound git diff ↔ OtherHeadersAllowed git diff := by
  unfold AllowlistSound Git.touched OtherHeadersAllowed
  cases hrejects : git.rejects diff with
  | true => simp
  | false =>
      simp only [Bool.false_eq_true, if_false, false_or]
      constructor
      · intro hsound line hline _ path hpath
        exact hsound path (List.mem_flatMap.mpr ⟨line, hline, hpath⟩)
      · intro hother path hpath
        obtain ⟨line, hline, hpath⟩ := List.mem_flatMap.mp hpath
        by_cases hread : git.Strips diff ∧ Plain line
        · obtain ⟨hstrips, hplain⟩ := hread
          have hmem := mem_splitlines hplain.ne_nil hplain.noBreak (hgit.lines diff line hline)
          exact diffTouchesOnlyAllowlist_iff.mp haccepted line hmem path
            (hplain.paths_subset hgit hstrips hpath)
        · exact hother line hline hread path hpath

end Reading

section Examples

def headerMarks : List (List Char) :=
  ["--- ".toList, "+++ ".toList, "rename from ".toList, "rename to ".toList,
    "copy from ".toList, "copy to ".toList]

def marked (mark line : List Char) : Bool :=
  mark.isPrefixOf line

-- A git that refuses a text without a newline behind its last hunk line, and takes every line with
-- such a beginning for a header line.
def plainGit : Git where
  refuses := fun diff => match (diff.splitOn '\n').getLast? with
    | some (c :: _) => "+- ".toList.contains c
    | _ => false
  headers := fun diff => (diff.splitOn '\n').filter fun line =>
    marked "diff --git ".toList line || headerMarks.any fun mark => marked mark line
  paths := fun _ line =>
    if marked "diff --git ".toList line then
      (words (line.drop "diff --git ".toList.length)).map withoutFirst
    else match headerMarks.find? fun mark => marked mark line with
      | some mark =>
          let path := line.drop mark.length
          if path = devNull then [] else [withoutFirst path]
      | none => []

theorem marked_append (mark path : List Char) : marked mark (mark ++ path) = true :=
  List.isPrefixOf_iff_prefix.mpr (List.prefix_append mark path)

theorem marked_of_head {c d : Char} (h : c ≠ d) (mark line : List Char) :
    marked (c :: mark) (d :: line) = false := by
  rw [marked, List.isPrefixOf_cons_cons, beq_false_of_ne h, Bool.false_and]

theorem words_bare {old new : FilePath} (hold : Bare old) (hnew : Bare new) :
    words (old ++ ' ' :: new) ⊆ [old, new] := by
  have hlast : words new ⊆ [new] := by
    by_cases hn : new = []
    · rw [hn]
      exact List.nil_subset _
    · rw [words_singleton hn hnew.notSpace]
      exact List.Subset.refl _
  by_cases ho : old = []
  · rw [ho, List.nil_append, words, wordsFrom, if_pos (by decide), if_pos rfl]
    exact List.subset_cons_of_subset _ hlast
  · rw [words_cons ho hold.notSpace]
    exact List.cons_subset_cons _ hlast

theorem plainGit_documented : plainGit.Documented where
  lines := fun diff line hline => (List.mem_filter.mp hline).1
  pair := fun diff _ old new hold hnew => by
    have hmark := marked_append "diff --git ".toList (old ++ ' ' :: new)
    have hdrop : ("diff --git ".toList ++ (old ++ ' ' :: new)).drop "diff --git ".toList.length =
        old ++ ' ' :: new := List.drop_left
    simp only [plainGit, hmark, if_true, hdrop]
    exact List.map_subset withoutFirst (words_bare hold.bare hnew.bare)
  single := fun diff _ mark hmark path _ => by
    rw [singleMarks] at hmark
    have hdiff : marked "diff --git ".toList (mark.toList ++ path) = false := by
      simp only [List.mem_cons, List.not_mem_nil, or_false] at hmark
      rcases hmark with rfl | rfl
      · exact marked_of_head (by decide) "iff --git ".toList ("-- ".toList ++ path)
      · exact marked_of_head (by decide) "iff --git ".toList ("++ ".toList ++ path)
    have hfind : headerMarks.find? (fun other => marked other (mark.toList ++ path)) =
        some mark.toList := by
      simp only [List.mem_cons, List.not_mem_nil, or_false] at hmark
      rcases hmark with rfl | rfl
      · exact List.find?_cons_of_pos (marked_append _ path)
      · have hother : marked "--- ".toList ("+++ ".toList ++ path) = false :=
          marked_of_head (by decide) "-- ".toList ("++ ".toList ++ path)
        rw [headerMarks, List.find?_cons_of_neg (by rw [hother]; decide)]
        exact List.find?_cons_of_pos (marked_append _ path)
    have hdrop : (mark.toList ++ path).drop mark.toList.length = path := List.drop_left
    simp only [plainGit, hdiff, hfind, hdrop, Bool.false_eq_true, if_false]
    exact List.Subset.refl _

-- The first component is no a/ and no b/, so that the check reads no path at all.
def runDiff : List Char :=
  ("--- host/run.py\n+++ host/run.py\n@@ -1 +1 @@\n-import sys\n+import os\n" ++
    "\\ No newline at end of file").toList

theorem run_patch_accepted :
    plainGit.Documented ∧
    extractDiff ("```diff\n".toList ++ runDiff ++ "\n```".toList) = some runDiff ∧
    (diffTouchesOnlyAllowlist runDiff).1 = true ∧
    plainGit.touched runDiff = ["run.py".toList, "run.py".toList] ∧
    ¬ AllowlistSound plainGit runDiff := by
  have htouched : plainGit.touched runDiff = ["run.py".toList, "run.py".toList] := by
    decide +kernel
  have hforbidden : ¬ Allowed "run.py".toList := by decide +kernel
  refine ⟨plainGit_documented, by decide +kernel, by decide +kernel, htouched, fun hsound => ?_⟩
  exact hforbidden (hsound _ (htouched ▸ List.mem_cons_self))

def routerDiff : List Char :=
  ("--- a/host/router.py\n+++ b/host/router.py\n@@ -1 +1 @@\n-import sys\n+import os\n" ++
    "\\ No newline at end of file").toList

theorem router_patch_sound_iff :
    AllowlistSound plainGit routerDiff ↔ OtherHeadersAllowed plainGit routerDiff :=
  allowlistSound_iff plainGit_documented (by decide +kernel)

end Examples

end EvoClaw.SelfUpdate
