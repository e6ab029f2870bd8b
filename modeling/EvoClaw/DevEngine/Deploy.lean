import EvoClaw.Posix.Path
import EvoClaw.Text.Lines
import EvoClaw.Text.Search

-- The deploy stage of host/dev_engine.py.
namespace EvoClaw.DevEngine

open Posix Text

abbrev Artifacts := List (String × String)

namespace Artifacts

def get (artifacts : Artifacts) (key : String) : String :=
  (artifacts.lookup key).getD ""

def set (artifacts : Artifacts) (key content : String) : Artifacts :=
  match artifacts with
  | [] => [(key, content)]
  | entry :: rest => if entry.1 = key then (key, content) :: rest else entry :: set rest key content

end Artifacts

-- What the deployment has put into files so far, the last one behind.
abbrev Stored := List (AbsPath × List Char)

-- One place lies below the other.
def Nested (place other : AbsPath) : Prop :=
  place ≠ other ∧ Overlaps place other

instance (place other : AbsPath) : Decidable (Nested place other) :=
  inferInstanceAs (Decidable (_ ∧ _ ∧ (_ ∨ _)))

-- No file is there that the target would lie below, or that would lie below it.
def Clear (stored : Stored) (target : AbsPath) : Prop :=
  ∀ entry ∈ stored, ¬ Nested entry.1 target

instance (stored : Stored) (target : AbsPath) : Decidable (Clear stored target) :=
  inferInstanceAs (Decidable (∀ _ ∈ _, _))

-- The project's file system as a deployment finds it. What raises gives the text of the error. A
-- write comes after others, and one that raises may have left something in the file.
structure Disk where
  base : AbsPath
  resolve : AbsPath → Except String AbsPath
  write : Stored → AbsPath → List Char → Except (String × Option (List Char)) Unit
  repr : List Char → List Char

-- `touched` are the files that are opened for writing.
structure Deployed where
  written : List (List Char) := []
  errors : List (List Char) := []
  touched : List AbsPath := []
  stored : Stored := []
deriving DecidableEq

namespace Deployed

def fail (self : Deployed) (error : List Char) : Deployed :=
  { self with errors := self.errors ++ [error] }

def touch (self : Deployed) (target : AbsPath) : Deployed :=
  { self with touched := self.touched ++ [target] }

def store (self : Deployed) (target : AbsPath) (content : Option (List Char)) : Deployed :=
  { self with stored := self.stored ++ content.toList.map (target, ·) }

-- What a file holds in the end, if the deployment has put anything into it.
def holds (self : Deployed) (target : AbsPath) : Option (List Char) :=
  (self.stored.reverse.find? fun entry => entry.1 = target).map Prod.snd

end Deployed

def rstrip (text : List Char) : List Char :=
  (text.reverse.dropWhile isSpace).reverse

-- str.upper, as far as the letters of PASS and FAIL go.
def upperChar (c : Char) : List Char :=
  match c with
  | 'ß' => ['S', 'S']
  | 'ı' => ['I']
  | 'ſ' => ['S']
  | 'ﬀ' => ['F', 'F']
  | 'ﬁ' => ['F', 'I']
  | 'ﬂ' => ['F', 'L']
  | 'ﬃ' => ['F', 'F', 'I']
  | 'ﬄ' => ['F', 'F', 'L']
  | 'ﬅ' => ['S', 'T']
  | 'ﬆ' => ['S', 'T']
  | 'ẚ' => ['A', 'ʾ']
  | c => [c.toUpper]

def upper (text : List Char) : List Char :=
  text.flatMap upperChar

-- The lines after the heading of the assessment. The next heading ends it.
def verdictIn : List (List Char) → Bool
  | [] => false
  | line :: rest =>
      let stripped := strip line
      if "## Overall Assessment".toList.isPrefixOf stripped then verdictIn rest
      else if "##".toList.isPrefixOf stripped then false
      else if contains (upper stripped) "FAIL".toList then false
      else if contains (upper stripped) "PASS".toList then true
      else verdictIn rest

def reviewPassed (reviewText : String) : Bool :=
  verdictIn ((splitlines reviewText.toList).dropWhile fun line =>
    ! "## Overall Assessment".toList.isPrefixOf (strip line))

def writeOneFile (disk : Disk) (relPath content : List Char) (self : Deployed) : Deployed :=
  match disk.resolve (disk.base.join (Path.parse relPath)) with
  | .error e => self.fail (relPath ++ ": ".toList ++ e.toList)
  | .ok target =>
      if target.isRelativeTo disk.base then
        match disk.write self.stored target content with
        | .error (e, left) =>
            ((self.touch target).store target left).fail (relPath ++ ": ".toList ++ e.toList)
        | .ok () =>
            let self := (self.touch target).store target (some content)
            { self with written := self.written ++ [relPath] }
      else self.fail ("BLOCKED path traversal: ".toList ++ disk.repr relPath)

-- The block that is being read.
structure Block where
  file : Option (List Char) := none
  lines : List (List Char) := []

def Block.flush (block : Block) (disk : Disk) (self : Deployed) : Deployed :=
  match block.file with
  | some file =>
      if file ≠ [] ∧ block.lines ≠ [] then
        writeOneFile disk file (List.intercalate ['\n'] block.lines) self
      else self
  | none => self

def opensFile (line : List Char) : Bool :=
  "--- FILE:".toList.isPrefixOf line && "---".toList.isSuffixOf (rstrip line)

-- line[9:].rstrip()[:-3].strip()
def fileOf (line : List Char) : List Char :=
  let rest := rstrip (line.drop 9)
  strip (rest.take (rest.length - 3))

def deployLines (disk : Disk) : List (List Char) → Block → Deployed → Deployed
  | [], block, self => block.flush disk self
  | line :: rest, block, self =>
      if opensFile line then
        deployLines disk rest { file := some (fileOf line) } (block.flush disk self)
      else if strip line = "--- END FILE ---".toList then
        deployLines disk rest {} (block.flush disk self)
      else if block.file.isSome then
        deployLines disk rest { block with lines := block.lines ++ [line] } self
      else deployLines disk rest block self

def blockedMessage : List Char :=
  ("Deploy blocked: REVIEW stage did not produce a clear PASS. " ++
    "Fix the issues identified in the review artifact before deploying.").toList

def joinWith (separator : String) (texts : List (List Char)) : List Char :=
  List.intercalate separator.toList texts

def Deployed.summary (self : Deployed) : List Char :=
  "Wrote ".toList ++ (toString self.written.length).toList ++ " file(s): ".toList ++
    joinWith ", " self.written ++
    if self.errors = [] then [] else
      " | ".toList ++ (toString self.errors.length).toList ++ " error(s): ".toList ++
        joinWith ", " self.errors

def deployFiles (disk : Disk) (artifacts : Artifacts) : Deployed × Bool × List Char :=
  if reviewPassed (artifacts.get "review") then
    let self := ["implement", "document"].foldl (fun self key =>
      deployLines disk (splitlines (artifacts.get key).toList) {} self) {}
    if self.written = [] ∧ self.errors = [] then
      (self, true, "No --- FILE: --- blocks found. Manual deployment may be required.".toList)
    else (self, decide (self.errors = []), self.summary)
  else ({}, false, blockedMessage)

section Containment

variable {disk : Disk} {self : Deployed}

-- Every file that is opened lies in the project.
def Deployed.StaysIn (self : Deployed) (disk : Disk) : Prop :=
  ∀ target ∈ self.touched, target.isRelativeTo disk.base = true

theorem stays_writeOneFile (h : self.StaysIn disk) (relPath content : List Char) :
    (writeOneFile disk relPath content self).StaysIn disk := by
  unfold writeOneFile
  cases disk.resolve (disk.base.join (Path.parse relPath)) with
  | error e => exact h
  | ok target =>
      by_cases hin : target.isRelativeTo disk.base = true
      · have htouch : (self.touch target).StaysIn disk := by
          intro other hother
          rcases List.mem_append.mp hother with hold | hnew
          · exact h other hold
          · rwa [List.mem_singleton.mp hnew]
        simp only [hin, if_true]
        cases disk.write self.stored target content with
        | error e => exact htouch
        | ok _ => exact htouch
      · simp only [hin]
        exact h

theorem stays_flush (h : self.StaysIn disk) (block : Block) :
    (block.flush disk self).StaysIn disk := by
  unfold Block.flush
  split
  · split
    · exact stays_writeOneFile h _ _
    · exact h
  · exact h

theorem stays_deployLines (h : self.StaysIn disk) (lines : List (List Char)) (block : Block) :
    (deployLines disk lines block self).StaysIn disk := by
  induction lines generalizing block self with
  | nil => exact stays_flush h block
  | cons line rest ih =>
      simp only [deployLines]
      split
      · exact ih (stays_flush h block) _
      · split
        · exact ih (stays_flush h block) _
        · split
          · exact ih h _
          · exact ih h _

theorem deployFiles_staysIn (artifacts : Artifacts) :
    (deployFiles disk artifacts).1.StaysIn disk := by
  have hempty : Deployed.StaysIn {} disk := nofun
  have hdone : (["implement", "document"].foldl (fun self key =>
      deployLines disk (splitlines (artifacts.get key).toList) {} self) {}).StaysIn disk :=
    stays_deployLines (stays_deployLines hempty _ _) _ _
  unfold deployFiles
  split
  · simp only
    split
    · exact hdone
    · exact hdone
  · exact hempty

end Containment

end EvoClaw.DevEngine
