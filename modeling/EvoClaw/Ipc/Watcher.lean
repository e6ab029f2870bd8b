import EvoClaw.Config
import EvoClaw.Json
import EvoClaw.Posix.Disk
import EvoClaw.Posix.Path
import Mathlib.Data.Char
import Mathlib.Data.List.Lex

namespace EvoClaw.Ipc.Watcher

open Posix

abbrev Content := List UInt8

-- What json.loads raises: JSONDecodeError, or a RecursionError or plain ValueError.
inductive LoadsError where
  | jsonDecodeError
  | other

-- read_text gives none where it raises a UnicodeDecodeError.
structure Runtime where
  decode : Content → Option (List Char)
  loads : List Char → Except LoadsError Json
  nameMax : Nat := 255
  IPC_MAX_FILES_PER_CYCLE : Int := 100

-- The two folders of a group that are watched.
inductive Sub where
  | messages
  | tasks
deriving DecidableEq

-- data/ipc/<group>/<sub>, data/ipc/<group>/errors and data/ipc/errors.
inductive Dir where
  | requests (group : Folder) (sub : Sub)
  | errors (group : Folder)
  | allErrors
deriving DecidableEq

def Dir.IsErrors : Dir → Prop
  | .requests _ _ => False
  | .errors _ => True
  | .allErrors => True

instance (dir : Dir) : Decidable dir.IsErrors := by
  cases dir <;> unfold Dir.IsErrors <;> infer_instance

structure Place where
  dir : Dir
  name : Name
deriving DecidableEq

-- Each file that is written has its own number, whatever its name.
structure Spool where
  disk : Disk Place Content := ∅
  written : Nat := 0
  dispatched : List (Nat × Json) := []
  succeeded : List Nat := []
  failed : List (File Content) := []

-- The folder that is worked on, the names still to be taken in it and the folders after it.
structure Turn where
  group : Folder
  sub : Sub
  names : List Name
  subs : List Sub

def Turn.source (turn : Turn) (name : Name) : Place :=
  ⟨.requests turn.group turn.sub, name⟩

-- Where process_ipc_dir stands. The passes follow one another.
inductive Phase where
  | idle
  | listing (group : Folder) (subs : List Sub)
  | taking (turn : Turn)
  | handling (turn : Turn) (name : Name) (file : File Content)

structure State where
  spool : Spool := {}
  phase : Phase := .idle

-- The file that _notify_main_group_error writes, none where there is no main group with a
-- messages folder or the write raises.
structure Alert where
  main : Folder
  content : Content

inductive Event where
  | write (group : Folder) (sub : Sub) (name : Name) (content : Content)
  | remove (group : Folder) (sub : Sub) (name : Name)
  | scan (group : Folder)
  | advance (now : Nat) (alert : Option Alert)
  | returns
  | raises (now : Nat) (alert : Option Alert)

section Names

def byteLength (name : Name) : Nat :=
  (name.map Char.utf8Size).sum

-- {f.stem}_{now}{f.suffix}
def errorName (name : Name) (now : Nat) : Name :=
  (splitSuffix name).1 ++ '_' :: (Nat.toDigits 10 now ++ (splitSuffix name).2)

def alertName (now : Nat) : Name :=
  "ipc_error_alert_".toList ++ Nat.toDigits 10 now ++ ".json".toList

end Names

-- What becomes of the text of a file.
inductive Reading where
  | blank
  | malformed
  | unreadable
  | request (payload : Json)

def Runtime.read (runtime : Runtime) (content : Content) : Reading :=
  match runtime.decode content with
  | none => .unreadable
  | some text =>
      if strip text = [] then .blank
      else match runtime.loads text with
        | .ok payload => .request payload
        | .error .jsonDecodeError => .malformed
        | .error .other => .unreadable

-- A file whose handling failed, where it was read and where it is to be kept.
structure Failure where
  source : Place
  dest : Place
  file : File Content

namespace Spool

variable (spool : Spool)

def write (place : Place) (content : Content) : Spool :=
  { spool with
    disk := spool.disk.insert place ⟨spool.written, content⟩
    written := spool.written + 1 }

def unlink (place : Place) : Spool :=
  { spool with disk := spool.disk.erase place }

def dispatch (file : File Content) (payload : Json) : Spool :=
  { spool with dispatched := spool.dispatched ++ [(file.id, payload)] }

def succeed (place : Place) (file : File Content) : Spool :=
  { spool.unlink place with succeeded := spool.succeeded ++ [file.id] }

-- f.rename raises when the name is too long, and the file is deleted.
def setAside (nameMax : Nat) (failure : Failure) : Spool :=
  { spool with
    disk := if byteLength failure.dest.name ≤ nameMax
      then spool.disk.rename failure.source failure.dest
      else spool.disk.erase failure.source
    failed := spool.failed ++ [failure.file] }

def notify (now : Nat) : Option Alert → Spool
  | none => spool
  | some alert => spool.write ⟨.requests alert.main .messages, alertName now⟩ alert.content

-- sorted(d.glob("*.json"))
def glob (dir : Dir) : List Name :=
  ((spool.disk.keys.filter fun place => place.dir = dir ∧ ".json".toList <:+ place.name).map
    Place.name).mergeSort (· ≤ ·)

def filesToProcess (limit : Int) (dir : Dir) : List Name :=
  if limit > 0 then (spool.glob dir).take limit.toNat else spool.glob dir

end Spool

-- One round of the loop, up to the call of the handler.
def take (runtime : Runtime) (spool : Spool) (turn : Turn) (name : Name) (now : Nat)
    (alert : Option Alert) : State :=
  let source := turn.source name
  match spool.disk.lookup source with
  | none => ⟨spool, .taking turn⟩
  | some file =>
      match runtime.read file.content with
      | .blank => ⟨spool.unlink source, .taking turn⟩
      | .malformed =>
          ⟨spool.setAside runtime.nameMax ⟨source, ⟨.errors turn.group, errorName name now⟩, file⟩,
            .taking turn⟩
      | .unreadable =>
          ⟨(spool.setAside runtime.nameMax ⟨source, ⟨.allErrors, name⟩, file⟩).notify now alert,
            .taking turn⟩
      | .request payload => ⟨spool.dispatch file payload, .handling turn name file⟩

def advance (runtime : Runtime) (state : State) (now : Nat) (alert : Option Alert) :
    Option State :=
  match state.phase with
  | .idle => none
  | .listing _ [] => some { state with phase := .idle }
  | .listing group (sub :: subs) =>
      let names := state.spool.filesToProcess runtime.IPC_MAX_FILES_PER_CYCLE (.requests group sub)
      some { state with phase := .taking ⟨group, sub, names, subs⟩ }
  | .taking ⟨group, _, [], subs⟩ => some { state with phase := .listing group subs }
  | .taking ⟨group, sub, name :: names, subs⟩ =>
      some (take runtime state.spool ⟨group, sub, names, subs⟩ name now alert)
  | .handling _ _ _ => none

def step (runtime : Runtime) (state : State) : Event → Option State
  | .write group sub name content =>
      if byteLength name ≤ runtime.nameMax then
        some { state with spool := state.spool.write ⟨.requests group sub, name⟩ content }
      else none
  | .remove group sub name =>
      some { state with spool := state.spool.unlink ⟨.requests group sub, name⟩ }
  | .scan group =>
      match state.phase with
      | .idle => some { state with phase := .listing group [.messages, .tasks] }
      | _ => none
  | .advance now alert => advance runtime state now alert
  | .returns =>
      match state.phase with
      | .handling turn name file =>
          some ⟨state.spool.succeed (turn.source name) file, .taking turn⟩
      | _ => none
  | .raises now alert =>
      match state.phase with
      | .handling turn name file =>
          some ⟨(state.spool.setAside runtime.nameMax
            ⟨turn.source name, ⟨.allErrors, name⟩, file⟩).notify now alert, .taking turn⟩
      | _ => none

section Properties

-- A dispatch is one call of _handle_ipc with the payload of the file.
def Spool.DispatchedOnce (spool : Spool) : Prop :=
  (spool.dispatched.map Prod.fst).Nodup

def Spool.SucceededDeleted (spool : Spool) : Prop :=
  ∀ id ∈ spool.succeeded, spool.disk.Absent id

def Spool.FailedKept (spool : Spool) : Prop :=
  ∀ file ∈ spool.failed, ∃ place, place.dir.IsErrors ∧ spool.disk.Holds place file

structure Accounted (state : State) : Prop where
  dispatchedOnce : state.spool.DispatchedOnce
  succeededDeleted : state.spool.SucceededDeleted
  failedKept : state.spool.FailedKept

-- The failure that the event brings about.
def State.failure (runtime : Runtime) (state : State) : Event → Option Failure
  | .advance now _ =>
      match state.phase with
      | .taking ⟨group, sub, name :: _, _⟩ =>
          (state.spool.disk.lookup ⟨.requests group sub, name⟩).bind fun file =>
            match runtime.read file.content with
            | .malformed =>
                some ⟨⟨.requests group sub, name⟩, ⟨.errors group, errorName name now⟩, file⟩
            | .unreadable => some ⟨⟨.requests group sub, name⟩, ⟨.allErrors, name⟩, file⟩
            | _ => none
      | _ => none
  | .raises _ _ =>
      match state.phase with
      | .handling turn name file => some ⟨turn.source name, ⟨.allErrors, name⟩, file⟩
      | _ => none
  | _ => none

-- The file is still the one that was read, and the errors folder can take it under a name that
-- is not in use there.
structure Failure.Keeps (runtime : Runtime) (disk : Disk Place Content) (failure : Failure) :
    Prop where
  holds : disk.Holds failure.source failure.file
  free : disk.Free failure.dest
  fits : byteLength failure.dest.name ≤ runtime.nameMax

def KeepsFailures (runtime : Runtime) (state : State) (event : Event) : Prop :=
  ∀ failure ∈ state.failure runtime event, failure.Keeps runtime state.spool.disk

end Properties

end EvoClaw.Ipc.Watcher
