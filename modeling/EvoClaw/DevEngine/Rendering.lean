import EvoClaw.DevEngine.Blocks
import EvoClaw.DevEngine.Review
import Mathlib.Data.List.Nodup

-- Files that are rendered the way the prompt of the implement stage asks for.
namespace EvoClaw.DevEngine

open Posix Text

-- A file in an artifact, with the text in front of it. The content is followed by a newline, which
-- may be the last one of its own.
structure FileBlock where
  before : List Char := []
  path : List Char
  content : List Char
  newline : Bool := true

namespace FileBlock

def body (block : FileBlock) : List Char :=
  if block.newline then block.content ++ ['\n'] else block.content

def render (block : FileBlock) (rest : List Char) : List Char :=
  block.before ++ (opening block.path ++ '\n' :: (block.body ++ (END_FILE ++ '\n' :: rest)))

-- The text in front is no file of its own, and the markers stand on lines of their own.
structure Rendered (block : FileBlock) : Prop where
  beginsLine : EndsLine block.before
  silent : filesOf block.before = []
  endsLine : block.newline = false → block.content ≠ [] → ∃ text, block.content = text ++ ['\n']
  unmarked : ∀ line ∈ block.content.splitOn '\n', ¬ IsMarker line

-- The body without its last newline.
def kept (block : FileBlock) : List Char :=
  if block.newline then block.content else block.content.dropLast

def file (block : FileBlock) : File :=
  (block.path, block.kept)

end FileBlock

def render (blocks : List FileBlock) (after : List Char) : List Char :=
  blocks.foldr FileBlock.render after

def UpToNewline (written content : List Char) : Prop :=
  written = content ∨ written ++ ['\n'] = content ∨ written = content ++ ['\n']

instance (written content : List Char) : Decidable (UpToNewline written content) :=
  inferInstanceAs (Decidable (_ ∨ _ ∨ _))

-- The block has something to write, and its path and content are sound.
def FileBlock.Survives (block : FileBlock) : Prop :=
  Sound (block.path, block.content) ∧ block.body ≠ []

-- The last of the blocks that go to the same file as the path.
def lastAt (target : List Char → AbsPath) (blocks : List FileBlock) (path : List Char) :
    Option FileBlock :=
  blocks.reverse.find? fun block => target block.path = target path

-- Every block survives, no file has to lie below another one, and what a file gets last is the
-- content of every block that goes to it.
structure Deployable (target : List Char → AbsPath) (blocks : List FileBlock) : Prop where
  survives : ∀ block ∈ blocks, block.Survives
  clear : blocks.Pairwise fun block other => ¬ Nested (target block.path) (target other.path)
  last : ∀ block ∈ blocks, ∀ last ∈ lastAt target blocks block.path,
    UpToNewline last.kept block.content

-- Exactly the files of the blocks are written, and each file holds the content of its block.
structure Deploys (target : List Char → AbsPath) (blocks : List FileBlock) (deployed : Deployed) :
    Prop where
  names : deployed.written = blocks.map FileBlock.path
  contents : ∀ block ∈ blocks, ∃ content ∈ deployed.holds (target block.path),
    UpToNewline content block.content
  only : ∀ entry ∈ deployed.stored, ∃ block ∈ blocks, entry.1 = target block.path

section Rendering

variable {b : FileBlock} {blocks : List FileBlock} {after : List Char}

theorem FileBlock.Rendered.body_eq (h : b.Rendered) (hne : b.body ≠ []) : b.body = b.kept ++ ['\n'] := by
  unfold FileBlock.body FileBlock.kept at *
  by_cases hnewline : b.newline = true
  · rw [if_pos hnewline, if_pos hnewline]
  · rw [if_neg hnewline] at hne ⊢
    rw [if_neg hnewline]
    obtain ⟨text, htext⟩ := h.endsLine ((Bool.not_eq_true _).mp hnewline) hne
    rw [htext, List.dropLast_concat]

theorem FileBlock.Rendered.upToNewline (h : b.Rendered) (hne : b.body ≠ []) :
    UpToNewline b.kept b.content := by
  have hbody := h.body_eq hne
  unfold FileBlock.body at hbody
  unfold FileBlock.kept at *
  by_cases hnewline : b.newline = true
  · rw [if_pos hnewline]
    exact .inl rfl
  · rw [if_neg hnewline, if_neg hnewline] at hbody
    rw [if_neg hnewline]
    exact .inr (.inl hbody.symm)

theorem FileBlock.mem_of_mem_kept {c : Char} (hc : c ∈ b.kept) : c ∈ b.content := by
  unfold FileBlock.kept at hc
  split at hc
  · exact hc
  · exact List.mem_of_mem_dropLast hc

-- The lines of the body are lines of the content.
theorem FileBlock.Rendered.kept_unmarked (h : b.Rendered) (hne : b.body ≠ []) :
    ∀ line ∈ b.kept.splitOn '\n', ¬ IsMarker line := by
  intro line hline
  refine h.unmarked line ?_
  have hbody := h.body_eq hne
  unfold FileBlock.body at hbody
  unfold FileBlock.kept at hline hbody
  by_cases hnewline : b.newline = true
  · rwa [if_pos hnewline] at hline
  · rw [if_neg hnewline, if_neg hnewline] at hbody
    rw [if_neg hnewline] at hline
    rw [hbody, List.splitOn_append_cons_self]
    exact List.mem_append_left _ hline

-- The lines between the two markers.
def FileBlock.inner (b : FileBlock) : List (List Char) :=
  if b.body = [] then [] else b.kept.splitOn '\n'

theorem oneLine_opening {path : List Char} (h : ∀ c ∈ path, isLineBreak c = false) :
    ∀ c ∈ opening path, isLineBreak c = false := by
  have hfront : ∀ c ∈ "--- FILE:".toList, isLineBreak c = false := none_of_all (by decide)
  have hrear : ∀ c ∈ "---".toList, isLineBreak c = false := none_of_all (by decide)
  have hblank : isLineBreak ' ' = false := by decide
  intro c hc
  unfold opening at hc
  rcases List.mem_append.mp hc with hc | hc
  · exact hfront c hc
  rcases List.mem_append.mp hc with hc | hc
  · rcases List.mem_cons.mp hc with rfl | hc
    · exact hblank
    rcases List.mem_append.mp hc with hc | hc
    · exact h c hc
    · rw [List.mem_singleton.mp hc]
      exact hblank
  · exact hrear c hc

theorem splitlines_body (h : b.Rendered) (hunixy : Unixy b.content) (rest : List Char) :
    splitlines (b.body ++ rest) = b.inner ++ splitlines rest := by
  unfold FileBlock.inner
  by_cases hne : b.body = []
  · rw [if_pos hne, hne]
    rfl
  · have hkept : Unixy b.kept := fun c hc => hunixy c (FileBlock.mem_of_mem_kept hc)
    rw [if_neg hne, h.body_eq hne, List.append_assoc, List.singleton_append,
      splitlines_append_newline, splitlines_unixy hkept]

theorem splitlines_render (h : b.Rendered) (hsound : Sound (b.path, b.content)) (rest : List Char) :
    splitlines (b.render rest) = splitlines b.before ++
      opening b.path :: (b.inner ++ END_FILE :: splitlines rest) := by
  have hend : ∀ c ∈ END_FILE, isLineBreak c = false := none_of_all (by decide)
  have hhead : (opening b.path ++ '\n' :: (b.body ++ (END_FILE ++ '\n' :: rest))).head? ≠ some '\n' := by
    have hopen : "--- FILE:".toList = '-' :: "-- FILE:".toList := by decide
    unfold opening
    rw [hopen]
    simp
  unfold FileBlock.render
  rw [splitlines_append h.beginsLine hhead, splitlines_line (oneLine_opening hsound.oneLine),
    splitlines_body h hsound.unixy, splitlines_line hend]

theorem read_opening (block : Block) (path : List Char) :
    block.read (opening path) = { file := some (strip path) } := by
  rw [Block.read, if_pos (opensFile_opening path), fileOf_opening]

theorem read_end (block : Block) : block.read END_FILE = {} := by
  have hopens : ¬ opensFile END_FILE = true := by decide
  have hcloses : strip END_FILE = END_FILE := by decide
  rw [Block.read, if_neg hopens, if_pos hcloses]

-- One block of the artifact is one file, unless its body is empty.
theorem filesOf_block (h : b.Rendered) (hsound : Sound (b.path, b.content)) (rest : List Char) :
    filesOf (b.render rest) = (if b.body = [] then [] else [b.file]) ++ filesOf rest := by
  have hmarker : IsMarker END_FILE := .inr (by decide)
  have hlines : ∀ line ∈ b.inner, ¬ IsMarker line := by
    unfold FileBlock.inner
    split
    · simp
    · next hne => exact h.kept_unmarked hne
  rw [filesOf, splitlines_render h hsound, filesIn_silent h.silent (.inl (opensFile_opening _)),
    read_opening, filesIn_plain hlines, filesIn_cons, if_pos hmarker, read_end, hsound.bare]
  congr 1
  unfold FileBlock.inner
  by_cases hne : b.body = []
  · rw [if_pos hne, if_pos hne]
    exact files_empty _
  · rw [if_neg hne, if_neg hne, List.nil_append,
      files_filled hsound.named (List.splitOn_ne_nil '\n' b.kept), List.intercalate_splitOn]
    rfl

theorem filesOf_render (h : ∀ b ∈ blocks, b.Rendered)
    (hsound : ∀ b ∈ blocks, Sound (b.path, b.content)) (after : List Char) :
    filesOf (render blocks after) =
      ((blocks.filter fun b => b.body ≠ []).map FileBlock.file) ++ filesOf after := by
  induction blocks with
  | nil => rfl
  | cons b blocks ih =>
      have hrest := ih (fun c hc => h c (List.mem_cons_of_mem b hc))
        fun c hc => hsound c (List.mem_cons_of_mem b hc)
      rw [render, List.foldr_cons, ← render,
        filesOf_block (h b List.mem_cons_self) (hsound b List.mem_cons_self), hrest, List.filter_cons]
      by_cases hne : b.body = []
      · simp [hne]
      · simp [hne]

theorem UpToNewline.unixy {written content : List Char} (h : UpToNewline written content)
    (hwritten : Unixy written) : Unixy content := by
  intro c hc hbreak
  obtain rfl | rfl | rfl := h
  · exact hwritten c hc hbreak
  · rcases List.mem_append.mp hc with hc | hc
    · exact hwritten c hc hbreak
    · exact List.mem_singleton.mp hc
  · exact hwritten c (List.mem_append_left _ hc) hbreak

end Rendering

section Deployment

variable {disk : Disk} {artifacts : Artifacts} {blocks : List FileBlock} {text after : List Char}

-- The newline behind the last marker may be missing.
def IsRendering (blocks : List FileBlock) (after text : List Char) : Prop :=
  text = render blocks after ∨ after = [] ∧ blocks ≠ [] ∧ text ++ ['\n'] = render blocks after

theorem render_concat (blocks : List FileBlock) (b : FileBlock) :
    ∃ front, render (blocks ++ [b]) [] = front ++ (END_FILE ++ ['\n']) := by
  induction blocks with
  | nil => exact ⟨b.before ++ (opening b.path ++ '\n' :: b.body), by simp [render, FileBlock.render]⟩
  | cons first blocks ih =>
      obtain ⟨front, hfront⟩ := ih
      refine ⟨first.render front, ?_⟩
      rw [List.cons_append, render, List.foldr_cons, ← render, hfront]
      simp [FileBlock.render]

theorem IsRendering.filesOf_eq (h : IsRendering blocks after text) :
    filesOf text = filesOf (render blocks after) := by
  obtain rfl | ⟨rfl, hne, heq⟩ := h
  · rfl
  · obtain ⟨front, hfront⟩ := render_concat blocks.dropLast (blocks.getLast hne)
    rw [List.dropLast_concat_getLast hne, ← heq, ← List.append_assoc] at hfront
    have htext : text = front ++ END_FILE := List.append_cancel_right hfront
    have hend : END_FILE = "--- END FILE --".toList ++ ['-'] := by decide
    rw [filesOf, filesOf, ← heq]
    congr 1
    refine (linesFrom_newline_end (.inl ?_) fun before c hlast => ?_).symm
    · rw [htext, hend]
      simp
    · rw [htext, hend, ← List.append_assoc] at hlast
      rw [← (List.append_inj' hlast rfl).2 |> List.singleton_inj.mp]
      decide

section Targets

variable {target : List Char → AbsPath} {b : FileBlock}

theorem lastAt_isSome (hb : b ∈ blocks) : ∃ last, lastAt target blocks b.path = some last := by
  rw [← Option.isSome_iff_exists, lastAt, List.find?_isSome]
  exact ⟨b, List.mem_reverse.mpr hb, decide_eq_true rfl⟩

-- What a file holds when the blocks have been written one after the other.
theorem holds_blocks {self : Deployed}
    (hstored : self.stored = blocks.map fun b => (target b.path, b.kept)) (path : List Char) :
    self.holds (target path) = (lastAt target blocks path).map FileBlock.kept := by
  rw [Deployed.holds, hstored, ← List.map_reverse, List.find?_map, Option.map_map]
  rfl

theorem contents_iff {self : Deployed}
    (hstored : self.stored = blocks.map fun b => (target b.path, b.kept)) :
    (∀ b ∈ blocks, ∃ content ∈ self.holds (target b.path), UpToNewline content b.content) ↔
      ∀ b ∈ blocks, ∀ last ∈ lastAt target blocks b.path, UpToNewline last.kept b.content := by
  refine forall₂_congr fun b hb => ?_
  obtain ⟨last, hlast⟩ := @lastAt_isSome blocks target b hb
  rw [holds_blocks hstored, hlast]
  simp

-- A block that is written with its content has a path and a content that survive.
theorem Deploys.sound {files : List File}
    (h : Deploys target blocks (Deployed.writeAll disk {} files))
    (hsound : ∀ file ∈ files, Sound file) (hb : b ∈ blocks)
    (hopens : disk.Opens b.path (target b.path)) : Sound (b.path, b.content) := by
  obtain ⟨names, hnames, hsub⟩ := written_writeAll disk files {}
  have hname : b.path ∈ names := by
    rw [← List.nil_append names]
    refine hnames ▸ ?_
    rw [h.names]
    exact List.mem_map_of_mem hb
  obtain ⟨file, hfile, hpath⟩ := List.mem_map.mp (hsub.subset hname)
  obtain ⟨content, hholds, hcontent⟩ := h.contents b hb
  obtain ⟨entry, hfind, rfl⟩ := Option.map_eq_some_iff.mp hholds
  have hentry := List.mem_reverse.mp (List.mem_of_find?_eq_some hfind)
  have htarget : entry.1 = target b.path := by simpa using List.find?_some hfind
  have hstored : (target b.path, entry.2) ∈ (Deployed.writeAll disk {} files).stored := by
    rw [← htarget]
    exact hentry
  obtain hnone | ⟨other, hother, heq⟩ := stored_writeAll hopens hstored
  · cases hnone
  · have hunixy : Unixy entry.2 := heq ▸ (hsound other hother).unixy
    exact
      { named := hpath ▸ (hsound file hfile).named
        bare := hpath ▸ (hsound file hfile).bare
        oneLine := hpath ▸ (hsound file hfile).oneLine
        unixy := hcontent.unixy hunixy }

-- Blocks that go to different files are not in each other's way with their contents.
theorem Deployable.of_distinct (hrendered : ∀ b ∈ blocks, b.Rendered)
    (hsurvives : ∀ b ∈ blocks, b.Survives)
    (hclear : blocks.Pairwise fun b c => ¬ Nested (target b.path) (target c.path))
    (hdistinct : (blocks.map fun b => target b.path).Nodup) : Deployable target blocks := by
  refine ⟨hsurvives, hclear, fun b hb last hlast => ?_⟩
  have hmem := List.mem_reverse.mp (List.mem_of_find?_eq_some hlast)
  have htarget : target last.path = target b.path := by simpa using List.find?_some hlast
  rw [List.inj_on_of_nodup_map hdistinct hmem hb htarget]
  exact (hrendered b hb).upToNewline (hsurvives b hb).2

end Targets

section Deployment

variable (hrendered : ∀ b ∈ blocks, b.Rendered) (hafter : filesOf after = [])
include hrendered hafter

theorem filesOf_sound (hsound : ∀ b ∈ blocks, Sound (b.path, b.content)) :
    filesOf (render blocks after) = (blocks.filter fun b => b.body ≠ []).map FileBlock.file := by
  rw [filesOf_render hrendered hsound, hafter, List.append_nil]

theorem filesOf_surviving (hsurvives : ∀ b ∈ blocks, b.Survives) :
    filesOf (render blocks after) = blocks.map FileBlock.file := by
  rw [filesOf_sound hrendered hafter fun b hb => (hsurvives b hb).1,
    List.filter_eq_self.mpr fun b hb => decide_eq_true (hsurvives b hb).2]

-- As many files are written as there are blocks.
theorem Deploys.survives {target : List Char → AbsPath}
    (h : Deploys target blocks (Deployed.writeAll disk {} (filesOf (render blocks after))))
    (hopens : ∀ b ∈ blocks, disk.Opens b.path (target b.path)) : ∀ b ∈ blocks, b.Survives := by
  have hsound : ∀ b ∈ blocks, Sound (b.path, b.content) := fun b hb =>
    h.sound (fun _ hfile => sound_of_mem_filesOf hfile) hb (hopens b hb)
  obtain ⟨names, hnames, hsub⟩ := written_writeAll disk (filesOf (render blocks after)) {}
  have hlength := hsub.length_le
  have hcount := congrArg List.length (hnames.symm.trans h.names)
  rw [filesOf_sound hrendered hafter hsound] at hlength
  simp only [List.length_map, List.length_append, List.length_nil, Nat.zero_add] at hlength hcount
  have hle := List.length_filter_le (fun b : FileBlock => decide (b.body ≠ [])) blocks
  have heq : (blocks.filter fun b => b.body ≠ []).length = blocks.length := by omega
  intro b hb
  exact ⟨hsound b hb, of_decide_eq_true (List.length_filter_eq_length_iff.mp heq b hb)⟩

end Deployment

-- A deployment puts the content of every rendered file into it, up to a newline at its end, and
-- nothing into other files, if and only if every block has something to write, a path that is one
-- line without outer blanks and a content whose lines end with newlines only, and no two blocks are
-- in each other's way.
theorem deployed_iff {target : List Char → AbsPath}
    (hreview : reviewPassed (artifacts.get "review") = true)
    (himplement : IsRendering blocks after (artifacts.get "implement").toList)
    (hdocument : filesOf (artifacts.get "document").toList = [])
    (hrendered : ∀ b ∈ blocks, b.Rendered) (hafter : filesOf after = [])
    (hopens : ∀ b ∈ blocks, disk.Opens b.path (target b.path)) :
    Deploys target blocks (deployFiles disk artifacts).1 ↔ Deployable target blocks := by
  rw [deployFiles_eq hreview hdocument, himplement.filesOf_eq]
  have hall : ∀ file ∈ blocks.map FileBlock.file, disk.Opens file.1 (target file.1) := by
    intro file hfile
    obtain ⟨b, hb, rfl⟩ := List.mem_map.mp hfile
    exact hopens b hb
  have hpairs : ((blocks.map FileBlock.file).Pairwise fun file other =>
      ¬ Nested (target file.1) (target other.1)) ↔
      blocks.Pairwise fun b c => ¬ Nested (target b.path) (target c.path) := List.pairwise_map
  obtain ⟨hiff, hdone⟩ := @writeAll_opens disk {} target _ hall
  have hstored (hlength : (Deployed.writeAll disk {} (blocks.map FileBlock.file)).written.length =
      (Deployed.written {}).length + (blocks.map FileBlock.file).length) :
      (Deployed.writeAll disk {} (blocks.map FileBlock.file)).stored =
        blocks.map fun b => (target b.path, b.kept) := by
    rw [(hdone hlength).2, List.map_map]
    rfl
  constructor
  · intro hdeploys
    have hsurvives := hdeploys.survives hrendered hafter hopens
    rw [filesOf_surviving hrendered hafter hsurvives] at hdeploys
    have hlength : (Deployed.writeAll disk {} (blocks.map FileBlock.file)).written.length =
        (Deployed.written {}).length + (blocks.map FileBlock.file).length := by
      rw [hdeploys.names]
      simp
    exact ⟨hsurvives, hpairs.mp (hiff.mp hlength).1,
      (contents_iff (hstored hlength)).mp hdeploys.contents⟩
  · intro hdeployable
    rw [filesOf_surviving hrendered hafter hdeployable.survives]
    have hlength := hiff.mpr ⟨hpairs.mpr hdeployable.clear, fun _ _ => nofun⟩
    have hentries := hstored hlength
    refine ⟨?_, (contents_iff hentries).mpr hdeployable.last, fun entry hentry => ?_⟩
    · rw [(hdone hlength).1, List.map_map]
      rfl
    · rw [hentries] at hentry
      obtain ⟨b, hb, rfl⟩ := List.mem_map.mp hentry
      exact ⟨b, hb, rfl⟩

def review : String × String :=
  ("review", "## Overall Assessment\nPASS")

def mainBlock : FileBlock where
  path := "main.py".toList
  content := "pass".toList

def mainArtifacts : Artifacts :=
  [review, ("implement", "--- FILE: main.py ---\npass\n--- END FILE ---")]

-- The place of a path in the project of the disk.
def placeOf (path : List Char) : AbsPath :=
  (obliging.base.join (Path.parse path)).normalise

theorem obliging_opens {path : List Char}
    (hinside : (placeOf path).isRelativeTo obliging.base = true) :
    obliging.Opens path (placeOf path) :=
  ⟨rfl, hinside, fun _ _ hclear => if_pos hclear, fun _ _ hclear => ⟨_, if_neg hclear⟩⟩

theorem main_deployed :
    Deploys placeOf [mainBlock] (deployFiles obliging mainArtifacts).1 := by
  have hreview : reviewPassed (mainArtifacts.get "review") = true := by decide
  have himplement : IsRendering [mainBlock] [] (mainArtifacts.get "implement").toList :=
    .inr (by decide)
  have hrendered : ∀ b ∈ [mainBlock], b.Rendered := by
    intro b hb
    rw [List.mem_singleton.mp hb]
    exact ⟨.inl rfl, by decide, fun h => absurd h (by decide), by decide⟩
  have hopens : ∀ b ∈ [mainBlock], obliging.Opens b.path (placeOf b.path) := by
    intro b hb
    rw [List.mem_singleton.mp hb]
    exact obliging_opens (by decide)
  have hsurvives : ∀ b ∈ [mainBlock], b.Survives := by
    intro b hb
    rw [List.mem_singleton.mp hb]
    exact ⟨⟨by decide, by decide, none_of_all (by decide), by decide⟩, by decide⟩
  exact (deployed_iff hreview himplement (by decide) hrendered (by decide) hopens).mpr
    (.of_distinct hrendered hsurvives (List.pairwise_singleton _ _) (List.nodup_singleton _))

-- A line separator in a string literal becomes a newline.
def separator : FileBlock where
  path := "sep.py".toList
  content := "SEP = '\u2028'".toList

def separatorArtifacts : Artifacts :=
  [review, ("implement", "--- FILE: sep.py ---\nSEP = '\u2028'\n--- END FILE ---\n")]

theorem separator_replaced :
    separator.Rendered ∧ IsRendering [separator] [] (separatorArtifacts.get "implement").toList ∧
      obliging.Opens separator.path (placeOf separator.path) ∧
      (deployFiles obliging separatorArtifacts).1.stored =
        [(placeOf separator.path, "SEP = '\n'".toList)] ∧
      ¬ Deploys placeOf [separator] (deployFiles obliging separatorArtifacts).1 := by
  have hholds : (deployFiles obliging separatorArtifacts).1.holds (placeOf separator.path) =
      some "SEP = '\n'".toList := by decide
  refine ⟨⟨.inl rfl, by decide, fun h => absurd h (by decide), by decide⟩, .inl (by decide),
    obliging_opens (by decide), by decide, fun h => ?_⟩
  obtain ⟨content, hcontent, hsame⟩ := h.contents separator List.mem_cons_self
  rw [hholds] at hcontent
  obtain rfl := Option.some.inj hcontent
  exact absurd hsame (by decide)

end Deployment

end EvoClaw.DevEngine
