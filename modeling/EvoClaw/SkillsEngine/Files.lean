import EvoClaw.SkillsEngine.Model

namespace EvoClaw.SkillsEngine

open Posix Script

abbrev Engine (β α : Type) := Script (Op β) Error α

variable {β : Type}

section Paths

def resolveFrom (remap : List (String × String)) (visited : List String) : Nat → String → String
  | 0, current => current
  | fuel + 1, current =>
      match remap.lookup current with
      | none => current
      | some next =>
          if current ∈ visited then current else resolveFrom remap (current :: visited) fuel next

-- Each round visits another key, so the fuel is never used up.
def resolvePathRemap (path : String) (remap : List (String × String)) : String :=
  resolveFrom remap [] (remap.length + 1) path

-- Without state.yaml there is no remapping.
def loadPathRemap : Engine β (List (String × String)) :=
  tryCatch (do
    let state ← op .readState
    return state.pathRemap)
    fun error => if error = .fileNotFound then return [] else fail error

end Paths

section Copying

-- shutil.copy2
def copy2 (source : Area) (p : Place) (dest : Area) (q : Place) : Engine β Unit := do
  let node ← op (.fetch source p)
  op (.copy dest node (fileName p) q)

-- A copy through a temporary sibling.
def atomicCopy (source : Node β) (name : Name) (dest : Place) : Engine β Unit :=
  tryFinally (do
    op (.copy .project source name (tmpOf dest))
    op (.replace (tmpOf dest) dest))
    (op (.unlink true (tmpOf dest)))

-- _atomic_write_text
def atomicWriteText (p : Place) (content : β) : Engine β Unit :=
  tryFinally (do
    op (.write .project (tmpOf p) content)
    op (.replace (tmpOf p) p))
    (op (.unlink true (tmpOf p)))

end Copying

-- shutil.rmtree, which may fail half-way
def removeTree (area : Area) (root : Place) : Engine β Unit := do
  let places ← op (.below area root)
  places.forM fun p => op (.discard area root p)

section Backup

def backupFile (env : Env β) (p : Place) : Engine β Unit := do
  op (.makeDirs .backup p.dropLast)
  if ← op (.occupied .project p) then copy2 .project p .backup p
  else op (.write .backup (withSuffix p TOMBSTONE_SUFFIX) (env.encode []))

-- A place outside the project is skipped.
def createBackup (env : Env β) (files : List Place) : Engine β Unit :=
  files.forM fun p => if isOutside p then return () else backupFile env p

def isTombstone (p : Place) : Bool :=
  TOMBSTONE_SUFFIX.isSuffixOf (fileName p)

-- The path without the suffix of a tombstone.
def originalOf (p : Place) : Place :=
  let stem := (fileName p).take ((fileName p).length - TOMBSTONE_SUFFIX.length)
  if stem = [] then p.dropLast else p.dropLast ++ [stem]

def restoreFile (p : Place) : Engine β Unit :=
  if isTombstone p then op (.unlink true (originalOf p))
  else do
    op (.makeDirs .project p.dropLast)
    copy2 .backup p .project p

def restoreBackup : Engine β Unit := do
  let files ← op .backupFiles
  files.forM restoreFile

def clearBackup : Engine β Unit :=
  removeTree .backup []

end Backup

section FileOps

inductive FileOpError where
  | emptyPath
  | absolutePath
  | pathTraversal
  | unknownType
  | failed
deriving DecidableEq

def checkPathTraversal (rel : String) : Option FileOpError :=
  let path := Path.parse rel.toList
  if rel = "" then some .emptyPath
  else if path.root.isSome then some .absolutePath
  else if dotdot ∈ path.parts then some .pathTraversal
  else none

-- A source that is missing only warns.
def movePlace (source dest : Place) : Engine β Unit := do
  if ← op (.occupied .project source) then
    op (.makeDirs .project dest.dropLast)
    op (.move source dest)

def deletePlace (p : Place) : Engine β Unit := do
  if ← op (.occupied .project p) then
    if ← op (.isDir .project p) then removeTree .project p
    else op (.unlink false p)

def renameFile (fileOp : FileOp) : Engine β (Option FileOpError) :=
  match (checkPathTraversal fileOp.source).or (checkPathTraversal fileOp.dest) with
  | some error => return some error
  | none => do
      movePlace (place fileOp.source) (place fileOp.dest)
      return none

def deleteFile (fileOp : FileOp) : Engine β (Option FileOpError) :=
  match checkPathTraversal fileOp.path with
  | some error => return some error
  | none => do
      deletePlace (place fileOp.path)
      return none

-- One file operation. An exception is one of its errors.
def executeFileOp (fileOp : FileOp) : Engine β (Option FileOpError) :=
  tryCatch
    (if fileOp.kind = "rename" ∨ fileOp.kind = "move" then renameFile fileOp
    else if fileOp.kind = "delete" then deleteFile fileOp
    else return some .unknownType)
    fun _ => return some .failed

-- The errors. Later operations are carried out after a failure as well.
def executeFileOps : List FileOp → Engine β (List FileOpError)
  | [] => return []
  | fileOp :: rest => do
      let error ← executeFileOp fileOp
      let errors ← executeFileOps rest
      return error.toList ++ errors

end FileOps

section Structured

def mergeNpmDependencies (base incoming : List (String × String)) : List (String × String) :=
  incoming.foldl (fun merged dep => if (merged.lookup dep.1).isSome then merged else merged ++ [dep])
    base

def isComment (line : List Char) : Bool :=
  (line.dropWhile isSpace).head? = some '#'

-- line.split("=")[0].strip()
def keyOf (line : List Char) : List Char :=
  strip (line.takeWhile (· ≠ '='))

def keysOf (lines : List (List Char)) : List (List Char) :=
  (lines.filter fun line => '=' ∈ line ∧ isComment line = false).map keyOf

def newLines (keys : List (List Char)) : List (List Char) → List (List Char)
  | [] => []
  | line :: rest =>
      if isComment line then line :: newLines keys rest
      else if keyOf line ∈ keys then newLines keys rest
      else line :: newLines (keyOf line :: keys) rest

def mergeEnvAdditions (existing incoming : List (List Char)) : List (List Char) :=
  existing ++ newLines (keysOf existing) incoming

def packageJson : Place := place "package.json"

def envExample : Place := place ".env.example"

-- What package.json and .env.example become. None is a package.json that is not there.
def mergedPackage (env : Env β) (incoming : List (String × String)) : Engine β (Option β) := do
  if ← op (.occupied .project packageJson) then
    let package ← op (.read .project packageJson)
    let deps ← orFail .other (env.dependencies package)
    return some (env.setDependencies package (mergeNpmDependencies deps incoming))
  else return none

-- The lines of .env.example.
def envLines (env : Env β) : Engine β (List (List Char)) := do
  if ← op (.occupied .project envExample) then
    let content ← op (.read .project envExample)
    let text ← orFail .other (env.decode content)
    return Text.splitlines text
  else return []

def mergedEnv (env : Env β) (incoming : List String) : Engine β β := do
  let existing ← envLines env
  return env.encode (Text.joinLines (mergeEnvAdditions existing (incoming.map String.toList)))

end Structured

section Merging

-- A file that is merged for the first time becomes its own base copy.
def ensureBase (resolved : Place) : Engine β Unit := do
  if !(← op (.occupied .base resolved)) then
    op (.makeDirs .base resolved.dropLast)
    copy2 .project resolved .base resolved

def fileContent : Node β → Option β
  | .file content => some content
  | .dir => none

-- The three-way merge through a temporary copy. True is a conflict.
def mergeFile (resolved : Place) (source : Node β) : Engine β Bool := do
  let ours ← op (.read .project resolved)
  let base ← op (.read .base resolved)
  let theirs ← orFail .other (fileContent source)
  let (merged, clean) ← op (.merge ours base theirs)
  op (.write .project resolved merged)
  return !clean

-- What apply and replay do with a modified file. True is a conflict.
def mergeInto (resolved : Place) (source : Node β) (name : Name) : Engine β Bool := do
  if ← op (.occupied .project resolved) then
    ensureBase resolved
    mergeFile resolved source
  else
    op (.makeDirs .project resolved.dropLast)
    op (.copy .project source name resolved)
    return false

end Merging

end EvoClaw.SkillsEngine
