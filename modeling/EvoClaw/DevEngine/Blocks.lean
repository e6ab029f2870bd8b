import EvoClaw.DevEngine.Deploy
import EvoClaw.Text.Blanks

-- Which files a deployment finds in an artifact and which of them it writes.
namespace EvoClaw.DevEngine

open Posix Text

-- A path and a content, as _write_one_file gets them.
abbrev File := List Char × List Char

abbrev END_FILE : List Char := "--- END FILE ---".toList

def opening (path : List Char) : List Char :=
  "--- FILE:".toList ++ (' ' :: (path ++ [' ']) ++ "---".toList)

def IsMarker (line : List Char) : Prop :=
  opensFile line = true ∨ strip line = END_FILE

instance : DecidablePred IsMarker := fun _ => inferInstanceAs (Decidable (_ ∨ _))

-- What is handed over when the block is flushed.
def Block.files (block : Block) : List File :=
  match block.file with
  | some file =>
      if file ≠ [] ∧ block.lines ≠ [] then [(file, List.intercalate ['\n'] block.lines)] else []
  | none => []

def Block.read (block : Block) (line : List Char) : Block :=
  if opensFile line then { file := some (fileOf line) }
  else if strip line = END_FILE then {}
  else if block.file.isSome then { block with lines := block.lines ++ [line] }
  else block

-- The files of the blocks that end in these lines, and the block that is open behind them.
def emitted : List (List Char) → Block → List File
  | [], _ => []
  | line :: rest, block =>
      (if IsMarker line then block.files else []) ++ emitted rest (block.read line)

def left (lines : List (List Char)) (block : Block) : Block :=
  lines.foldl Block.read block

def filesIn (lines : List (List Char)) (block : Block) : List File :=
  emitted lines block ++ (left lines block).files

def filesOf (text : List Char) : List File :=
  filesIn (splitlines text) {}

variable {disk : Disk} {artifacts : Artifacts} {self : Deployed} {line text : List Char}
  {lines rest : List (List Char)} {block : Block} {file : File}

theorem files_empty (file : Option (List Char)) : Block.files { file := file } = [] := by
  unfold Block.files
  cases file <;> simp

theorem files_filled {file : List Char} (hfile : file ≠ []) (hlines : lines ≠ []) :
    Block.files { file := some file, lines := lines } = [(file, List.intercalate ['\n'] lines)] :=
  if_pos ⟨hfile, hlines⟩

theorem flush_eq : block.flush disk self =
    block.files.foldl (fun self file => writeOneFile disk file.1 file.2 self) self := by
  unfold Block.flush Block.files
  cases block.file with
  | none => rfl
  | some file =>
      dsimp only
      split <;> rfl

-- The deployment writes the files in the order in which their blocks end.
theorem deployLines_eq (disk : Disk) (lines : List (List Char)) (block : Block) (self : Deployed) :
    deployLines disk lines block self =
      (filesIn lines block).foldl (fun self file => writeOneFile disk file.1 file.2 self) self := by
  induction lines generalizing block self with
  | nil => exact flush_eq
  | cons line rest ih =>
      rw [deployLines, filesIn, emitted, left, List.foldl_cons, List.append_assoc, List.foldl_append]
      by_cases hopens : opensFile line = true
      · rw [if_pos hopens, if_pos (.inl hopens), Block.read, if_pos hopens, ih, flush_eq]
        rfl
      by_cases hcloses : strip line = END_FILE
      · rw [if_neg hopens, if_pos hcloses, if_pos (.inr hcloses), Block.read, if_neg hopens,
          if_pos hcloses, ih, flush_eq]
        rfl
      have hplain : ¬ IsMarker line := fun h => h.elim hopens hcloses
      rw [if_neg hopens, if_neg hcloses, if_neg hplain, Block.read, if_neg hopens, if_neg hcloses]
      split
      · rw [ih]
        rfl
      · rw [ih]
        rfl

section Writing

-- The path leads to a file of the project that can be written, as long as no written file is in the
-- way. Then it is not opened.
structure Disk.Opens (disk : Disk) (path : List Char) (target : AbsPath) : Prop where
  resolves : disk.resolve (disk.base.join (Path.parse path)) = .ok target
  inside : target.isRelativeTo disk.base = true
  writes : ∀ stored content, Clear stored target → disk.write stored target content = .ok ()
  refuses : ∀ stored content, ¬ Clear stored target →
    ∃ e, disk.write stored target content = .error (e, none)

def Deployed.writeAll (disk : Disk) (self : Deployed) (files : List File) : Deployed :=
  files.foldl (fun self file => writeOneFile disk file.1 file.2 self) self

theorem writeAll_cons (disk : Disk) (self : Deployed) (file : File) (files : List File) :
    self.writeAll disk (file :: files) =
      (writeOneFile disk file.1 file.2 self).writeAll disk files := rfl

-- A file is written under its name or not at all.
theorem written_writeOneFile (disk : Disk) (file : File) (self : Deployed) :
    (writeOneFile disk file.1 file.2 self).written = self.written ∨
      (writeOneFile disk file.1 file.2 self).written = self.written ++ [file.1] := by
  unfold writeOneFile
  split
  · exact .inl rfl
  · split
    · split
      · exact .inl rfl
      · exact .inr rfl
    · exact .inl rfl

theorem written_writeAll (disk : Disk) (files : List File) (self : Deployed) :
    ∃ names, (self.writeAll disk files).written = self.written ++ names ∧
      names.Sublist (files.map Prod.fst) := by
  induction files generalizing self with
  | nil => exact ⟨[], (List.append_nil _).symm, List.Sublist.refl _⟩
  | cons file files ih =>
      obtain ⟨names, hnames, hsub⟩ := ih (writeOneFile disk file.1 file.2 self)
      rw [writeAll_cons, hnames]
      rcases written_writeOneFile disk file self with heq | heq
      · exact ⟨names, by rw [heq], hsub.cons file.1⟩
      · exact ⟨file.1 :: names, by rw [heq, List.append_assoc, List.singleton_append],
          hsub.cons_cons file.1⟩

-- What is in the file of an open path is the content of a file that was handed over.
theorem stored_writeOneFile {path : List Char} {target : AbsPath} (hopens : disk.Opens path target)
    {content : List Char}
    (h : (target, content) ∈ (writeOneFile disk file.1 file.2 self).stored) :
    (target, content) ∈ self.stored ∨ content = file.2 := by
  unfold writeOneFile at h
  split at h
  · exact .inl h
  next other hother =>
  split at h
  · split at h
    · next e left hwrite =>
        rcases List.mem_append.mp h with hold | hnew
        · exact .inl hold
        · obtain ⟨text, htext, heq⟩ := List.mem_map.mp hnew
          obtain ⟨rfl, rfl⟩ := Prod.mk.inj heq
          -- a refused write leaves nothing there
          by_cases hclear : Clear self.stored other
          · rw [hopens.writes _ _ hclear] at hwrite
            cases hwrite
          · obtain ⟨_, hrefused⟩ := hopens.refuses self.stored file.2 hclear
            rw [hrefused] at hwrite
            cases hwrite
            cases htext
    · rcases List.mem_append.mp h with hold | hnew
      · exact .inl hold
      · exact .inr (Prod.mk.inj (List.mem_singleton.mp hnew)).2
  · exact .inl h

theorem stored_writeAll {path : List Char} {target : AbsPath} (hopens : disk.Opens path target)
    {files : List File} {content : List Char}
    (h : (target, content) ∈ (self.writeAll disk files).stored) :
    (target, content) ∈ self.stored ∨ ∃ file ∈ files, content = file.2 := by
  induction files generalizing self with
  | nil => exact .inl h
  | cons file files ih =>
      rcases ih h with hfirst | ⟨other, hother, heq⟩
      · rcases stored_writeOneFile hopens hfirst with hold | heq
        · exact .inl hold
        · exact .inr ⟨file, List.mem_cons_self, heq⟩
      · exact .inr ⟨other, List.mem_cons_of_mem file hother, heq⟩

variable {target : List Char → AbsPath} {files : List File}

theorem writeOneFile_clear (hopens : disk.Opens file.1 (target file.1))
    (hclear : Clear self.stored (target file.1)) :
    (writeOneFile disk file.1 file.2 self).written = self.written ++ [file.1] ∧
      (writeOneFile disk file.1 file.2 self).stored =
        self.stored ++ [(target file.1, file.2)] := by
  unfold writeOneFile
  rw [hopens.resolves]
  simp only [hopens.inside, if_true, hopens.writes _ _ hclear]
  exact ⟨rfl, rfl⟩

theorem writeOneFile_blocked (hopens : disk.Opens file.1 (target file.1))
    (hclear : ¬ Clear self.stored (target file.1)) :
    (writeOneFile disk file.1 file.2 self).written = self.written := by
  obtain ⟨e, hrefused⟩ := hopens.refuses self.stored file.2 hclear
  unfold writeOneFile
  rw [hopens.resolves]
  simp only [hopens.inside, if_true, hrefused]
  rfl

theorem clear_concat {stored : Stored} {entry : AbsPath × List Char} {place : AbsPath} :
    Clear (stored ++ [entry]) place ↔ Clear stored place ∧ ¬ Nested entry.1 place := by
  simp [Clear, or_imp, forall_and]

-- Files of open paths are all written exactly if no two of them are in each other's way.
theorem writeAll_opens (hopens : ∀ file ∈ files, disk.Opens file.1 (target file.1)) :
    ((self.writeAll disk files).written.length = self.written.length + files.length ↔
      (files.Pairwise fun file other => ¬ Nested (target file.1) (target other.1)) ∧
        ∀ file ∈ files, Clear self.stored (target file.1)) ∧
    ((self.writeAll disk files).written.length = self.written.length + files.length →
      (self.writeAll disk files).written = self.written ++ files.map Prod.fst ∧
        (self.writeAll disk files).stored =
          self.stored ++ files.map fun file => (target file.1, file.2)) := by
  induction files generalizing self with
  | nil => simp [Deployed.writeAll]
  | cons file files ih =>
      have hfile := hopens file List.mem_cons_self
      have hrest : ∀ other ∈ files, disk.Opens other.1 (target other.1) := fun other hother =>
        hopens other (List.mem_cons_of_mem file hother)
      rw [writeAll_cons]
      by_cases hclear : Clear self.stored (target file.1)
      · obtain ⟨hwritten, hstored⟩ := writeOneFile_clear hfile hclear
        obtain ⟨hiff, hall⟩ := @ih (writeOneFile disk file.1 file.2 self) hrest
        simp only [hwritten, hstored, List.length_append, List.length_singleton, clear_concat]
          at hiff hall
        have hlength : self.written.length + (file :: files).length =
            self.written.length + 1 + files.length := by
          rw [List.length_cons]
          omega
        rw [hlength]
        refine ⟨hiff.trans ?_, fun heq => ?_⟩
        · rw [List.pairwise_cons, List.forall_mem_cons, and_iff_right hclear]
          constructor
          · rintro ⟨hpairs, hfiles⟩
            exact ⟨⟨fun other hother => (hfiles other hother).2, hpairs⟩,
              fun other hother => (hfiles other hother).1⟩
          · rintro ⟨⟨hfirst, hpairs⟩, hfiles⟩
            exact ⟨hpairs, fun other hother => ⟨hfiles other hother, hfirst other hother⟩⟩
        · obtain ⟨hnames, hentries⟩ := hall heq
          rw [hnames, hentries]
          simp
      · have hwritten := writeOneFile_blocked hfile hclear
        obtain ⟨names, hnames, hsub⟩ := written_writeAll disk files (writeOneFile disk file.1 file.2 self)
        have hshort : ((writeOneFile disk file.1 file.2 self).writeAll disk files).written.length ≠
            self.written.length + (file :: files).length := by
          have hle := hsub.length_le
          rw [hnames, hwritten, List.length_append, List.length_cons]
          rw [List.length_map] at hle
          omega
        exact ⟨iff_of_false hshort fun h => hclear (h.2 file List.mem_cons_self),
          fun heq => absurd heq hshort⟩

-- A deployment that passes the gate writes the files of its two artifacts.
theorem deployFiles_eq (hreview : reviewPassed (artifacts.get "review") = true)
    (hdocument : filesOf (artifacts.get "document").toList = []) :
    (deployFiles disk artifacts).1 =
      Deployed.writeAll disk {} (filesOf (artifacts.get "implement").toList) := by
  have hfold : ["implement", "document"].foldl (fun self key =>
      deployLines disk (splitlines (artifacts.get key).toList) {} self) {} =
      Deployed.writeAll disk {} (filesOf (artifacts.get "implement").toList) := by
    simp only [deployLines_eq, List.foldl_cons, List.foldl_nil]
    change (filesOf (artifacts.get "document").toList).foldl _ _ = _
    rw [hdocument]
    rfl
  unfold deployFiles
  rw [if_pos hreview, hfold]
  dsimp only
  split <;> rfl

end Writing

section Scanning

variable {path : List Char} {above : List (List Char)}

theorem emitted_append (lines rest : List (List Char)) (block : Block) :
    emitted (lines ++ rest) block = emitted lines block ++ emitted rest (left lines block) := by
  induction lines generalizing block with
  | nil => rfl
  | cons line lines ih =>
      rw [List.cons_append, emitted, emitted, ih, List.append_assoc]
      rfl

theorem filesIn_append (lines rest : List (List Char)) (block : Block) :
    filesIn (lines ++ rest) block = emitted lines block ++ filesIn rest (left lines block) := by
  rw [filesIn, filesIn, emitted_append, List.append_assoc, left, left, left, List.foldl_append]

theorem filesIn_cons (line : List Char) (rest : List (List Char)) (block : Block) :
    filesIn (line :: rest) block =
      (if IsMarker line then block.files else []) ++ filesIn rest (block.read line) := by
  rw [filesIn, emitted, List.append_assoc]
  rfl

-- Lines that are no markers go to the block.
theorem filesIn_plain (h : ∀ line ∈ lines, ¬ IsMarker line) :
    filesIn (lines ++ rest) { file := some path, lines := above } =
      filesIn rest { file := some path, lines := above ++ lines } := by
  induction lines generalizing above with
  | nil => simp
  | cons line lines ih =>
      obtain ⟨hopens, hcloses⟩ := not_or.mp (h line List.mem_cons_self)
      have hread : Block.read { file := some path, lines := above } line =
          { file := some path, lines := above ++ [line] } := by
        rw [Block.read, if_neg hopens, if_neg hcloses]
        rfl
      rw [List.cons_append, filesIn_cons, if_neg (h line List.mem_cons_self), hread, List.nil_append,
        ih fun other hmem => h other (List.mem_cons_of_mem line hmem), List.append_assoc]
      rfl

-- A text of its own leaves nothing to be written behind it.
theorem filesIn_silent (h : filesIn lines block = []) (hmarker : IsMarker line) :
    filesIn (lines ++ line :: rest) block = filesIn rest ((left lines block).read line) := by
  obtain ⟨hemitted, hfiles⟩ := List.append_eq_nil_iff.mp h
  rw [filesIn_append, hemitted, filesIn_cons, if_pos hmarker, hfiles]
  rfl

end Scanning

section Opening

theorem rstrip_concat {c : Char} (hc : isSpace c = false) (text : List Char) :
    rstrip (text ++ [c]) = text ++ [c] := by
  rw [rstrip, List.reverse_append, List.reverse_singleton, List.singleton_append,
    List.dropWhile_cons_of_neg (by simp [hc]), List.reverse_cons, List.reverse_reverse]

theorem rstrip_marker (text : List Char) : rstrip (text ++ "---".toList) = text ++ "---".toList := by
  have hrear : text ++ "---".toList = text ++ "--".toList ++ ['-'] := by simp
  rw [hrear, rstrip_concat (by decide)]

theorem opensFile_opening (path : List Char) : opensFile (opening path) = true := by
  have hbegins : "--- FILE:".toList <+: opening path := by
    unfold opening
    exact List.prefix_append _ _
  have hends : "---".toList <:+ rstrip (opening path) := by
    unfold opening
    rw [← List.append_assoc, rstrip_marker]
    exact List.suffix_append _ _
  unfold opensFile
  rw [Bool.and_eq_true]
  exact ⟨List.isPrefixOf_iff_prefix.mpr hbegins, List.isSuffixOf_iff_suffix.mpr hends⟩

theorem fileOf_opening (path : List Char) : fileOf (opening path) = strip path := by
  have hdrop : (opening path).drop 9 = ' ' :: (path ++ [' ']) ++ "---".toList := by
    unfold opening
    exact List.drop_left' (by decide)
  have htake : (' ' :: (path ++ [' ']) ++ "---".toList).take
      ((' ' :: (path ++ [' ']) ++ "---".toList).length - 3) = ' ' :: (path ++ [' ']) :=
    List.take_left' (by simp)
  rw [fileOf, hdrop, rstrip_marker, htake, strip_cons_blank (by decide),
    strip_concat_blank (by decide)]

end Opening

-- What a deployment can make out of a path and of a content.
structure Sound (file : File) : Prop where
  named : file.1 ≠ []
  bare : strip file.1 = file.1
  oneLine : ∀ c ∈ file.1, isLineBreak c = false
  unixy : Unixy file.2

section Soundness

-- What has been read of a block comes from its lines.
structure Block.FromLines (block : Block) : Prop where
  bare : ∀ file, block.file = some file → strip file = file
  oneLine : ∀ file, block.file = some file → ∀ c ∈ file, isLineBreak c = false
  lines : ∀ line ∈ block.lines, ∀ c ∈ line, isLineBreak c = false

theorem fromLines_empty : Block.FromLines {} :=
  ⟨by simp, by simp, by simp⟩

theorem mem_of_mem_fileOf {c : Char} (h : c ∈ fileOf line) : c ∈ line := by
  have hrstrip := List.mem_reverse.mp (List.mem_of_mem_take (mem_of_mem_strip h))
  exact List.mem_of_mem_drop (List.mem_reverse.mp (List.dropWhile_subset _ hrstrip))

theorem Block.FromLines.read (h : block.FromLines) (hline : ∀ c ∈ line, isLineBreak c = false) :
    (block.read line).FromLines := by
  unfold Block.read
  split
  · refine ⟨?_, ?_, by simp⟩
    · intro file hfile
      cases hfile
      exact trim_trim isSpace _
    · intro file hfile c hc
      cases hfile
      exact hline c (mem_of_mem_fileOf hc)
  split
  · exact fromLines_empty
  split
  · refine ⟨h.bare, h.oneLine, fun other hother => ?_⟩
    rcases List.mem_append.mp hother with hother | hother
    · exact h.lines other hother
    · rw [List.mem_singleton.mp hother]
      exact hline
  · exact h

theorem unixy_intercalate (h : ∀ line ∈ lines, ∀ c ∈ line, isLineBreak c = false) :
    Unixy (List.intercalate ['\n'] lines) := by
  induction lines with
  | nil => simp [Unixy]
  | cons line lines ih =>
      have hline := h line List.mem_cons_self
      have hrest := ih fun other hother => h other (List.mem_cons_of_mem line hother)
      intro c hc hbreak
      cases lines with
      | nil =>
          rw [List.intercalate_singleton] at hc
          rw [hline c hc] at hbreak
          cases hbreak
      | cons next lines =>
          rw [List.intercalate_cons_cons] at hc
          rcases List.mem_append.mp hc with hc | hc
          · rcases List.mem_append.mp hc with hc | hc
            · rw [hline c hc] at hbreak
              cases hbreak
            · exact List.mem_singleton.mp hc
          · exact hrest c hc hbreak

theorem Block.FromLines.sound (h : block.FromLines) (hmem : file ∈ block.files) : Sound file := by
  unfold Block.files at hmem
  split at hmem
  · next name hname =>
      split at hmem
      · next hfull =>
          rw [List.mem_singleton.mp hmem]
          exact ⟨hfull.1, h.bare name hname, h.oneLine name hname, unixy_intercalate h.lines⟩
      · cases hmem
  · cases hmem

theorem sound_of_mem_filesIn (h : block.FromLines)
    (hlines : ∀ line ∈ lines, ∀ c ∈ line, isLineBreak c = false) (hmem : file ∈ filesIn lines block) :
    Sound file := by
  induction lines generalizing block with
  | nil => exact h.sound hmem
  | cons line lines ih =>
      rw [filesIn_cons] at hmem
      rcases List.mem_append.mp hmem with hmem | hmem
      · split at hmem
        · exact h.sound hmem
        · cases hmem
      · exact ih (h.read (hlines line List.mem_cons_self))
          (fun other hother => hlines other (List.mem_cons_of_mem line hother)) hmem

theorem sound_of_mem_filesOf (hmem : file ∈ filesOf text) : Sound file :=
  sound_of_mem_filesIn fromLines_empty (fun _ hline => not_break_of_mem_splitlines hline) hmem

end Soundness

end EvoClaw.DevEngine
