import EvoClaw.JsonText.Syntax
import EvoClaw.Text.Search

namespace EvoClaw.ContainerRunner

open JsonText Text

def OUTPUT_START : List Char := "---EVOCLAW_OUTPUT_START---".toList

def OUTPUT_END : List Char := "---EVOCLAW_OUTPUT_END---".toList

def MAX_OUTPUT_SIZE : Nat := 2 * 1024 * 1024

-- The size of a text in UTF-8.
def byteLength (text : List Char) : Nat :=
  (text.map Char.utf8Size).sum

-- The stdout of the container up to the cap, decoded. A character that the cap cuts is
-- decoded to the replacement character.
def readStdoutBounded (room : Nat) : List Char → List Char
  | [] => []
  | c :: rest =>
      if c.utf8Size ≤ room then c :: readStdoutBounded (room - c.utf8Size) rest
      else if room = 0 then [] else [Char.ofNat 0xfffd]

-- The three lines of emit().
def frame (json : List Char) : List Char :=
  OUTPUT_START ++ '\n' :: (json ++ '\n' :: (OUTPUT_END ++ ['\n']))

-- emit(obj). The log lines before the frame cut and measure a result that is not falsy,
-- which raises unless it is a text or a list.
def emit (floatText : BitVec 64 → List Char) (obj : Payload) : Option (List Char) :=
  let printed := frame (dumps floatText (.obj obj))
  match obj.get "result" .null with
  | .str _ => some printed
  | .arr _ => some printed
  | result => if result.truthy then none else some printed

-- What run_container_agent makes of the collected stdout.
inductive Output where
  | noMarkers
  | truncated
  | tooLarge
  | notJson
  | notDict
  | result (fields : Payload)

-- The text between the last start marker and the first end marker behind it.
def Output.ofStdout (floatOf : List Char → BitVec 64) (stdout : List Char) : Output :=
  match rfind OUTPUT_START stdout with
  | none => .noMarkers
  | some startIdx =>
      let behind := stdout.drop (startIdx + OUTPUT_START.length)
      match find OUTPUT_END behind with
      | none => .truncated
      | some length =>
          let raw := strip (behind.take length)
          if MAX_OUTPUT_SIZE < raw.length then .tooLarge
          else match loads floatOf raw with
            | none => .notJson
            | some (.obj fields) => .result fields
            | some _ => .notDict

end EvoClaw.ContainerRunner

-- How run_container_agent reads the stdout of the container.
namespace EvoClaw.ContainerRunner.Stdout

abbrev Chunk := List UInt8

-- What the reads to come return. At the end of the stream a read returns nothing.
abbrev Pipe := List Chunk

-- while await proc.stdout.read(65536): pass
def drain : Pipe → Pipe
  | [] => []
  | chunk :: rest => if chunk = [] then rest else drain rest

-- The loop over the reads. `total` counts the bytes of the chunks that are kept.
def readChunks (limit : Nat) (chunks : List Chunk) (total : Nat) : Pipe → List Chunk × Pipe
  | [] => (chunks, [])
  | chunk :: rest =>
      if chunk = [] then (chunks, rest)
      else if limit < total + chunk.length then
        (chunks ++ [chunk.take (limit - (total + chunk.length - chunk.length))], drain rest)
      else readChunks limit (chunks ++ [chunk]) (total + chunk.length) rest

-- _read_stdout_bounded, and what it leaves in the pipe
def readStdoutBounded (limit : Nat) (pipe : Pipe) : List UInt8 × Pipe :=
  let (chunks, left) := readChunks limit [] 0 pipe
  (chunks.flatten, left)

variable {limit total : Nat} {chunks : List Chunk} {pipe : Pipe}

theorem drain_eq_nil (h : ∀ chunk ∈ pipe, chunk ≠ []) : drain pipe = [] := by
  induction pipe with
  | nil => rfl
  | cons chunk rest ih =>
      rw [drain, if_neg (h chunk List.mem_cons_self)]
      exact ih fun other hmem => h other (List.mem_cons_of_mem chunk hmem)

-- The chunks that are kept grow by what still has room, and nothing is left in the pipe.
theorem readChunks_spec (hpipe : ∀ chunk ∈ pipe, chunk ≠ []) (htotal : total ≤ limit) :
    (readChunks limit chunks total pipe).1.flatten =
        chunks.flatten ++ pipe.flatten.take (limit - total) ∧
      (readChunks limit chunks total pipe).2 = [] := by
  induction pipe generalizing chunks total with
  | nil => simp [readChunks]
  | cons chunk rest ih =>
      have hrest : ∀ other ∈ rest, other ≠ [] :=
        fun other hmem => hpipe other (List.mem_cons_of_mem chunk hmem)
      rw [readChunks, if_neg (hpipe chunk List.mem_cons_self)]
      split
      · next hover =>
          -- the chunk that goes over the limit
          have hcut : limit - total ≤ chunk.length := by omega
          refine ⟨?_, drain_eq_nil hrest⟩
          rw [Nat.add_sub_cancel, List.flatten_append, List.flatten_singleton, List.flatten_cons,
            List.take_append_of_le_length hcut]
      · next hfits =>
          obtain ⟨hkept, hleft⟩ := @ih (total + chunk.length) (chunks ++ [chunk]) hrest
            (Nat.le_of_not_lt hfits)
          refine ⟨?_, hleft⟩
          have hroom : limit - total = chunk.length + (limit - (total + chunk.length)) := by omega
          rw [hkept, List.flatten_append, List.flatten_singleton, List.flatten_cons, hroom,
            List.take_length_add_append, List.append_assoc]

-- However the stream is cut into chunks, the reader returns its beginning up to the cap and
-- reads all of it.
theorem readStdoutBounded_eq_take (h : ∀ chunk ∈ pipe, chunk ≠ []) :
    readStdoutBounded MAX_OUTPUT_SIZE pipe =
      (pipe.flatten.take (min pipe.flatten.length MAX_OUTPUT_SIZE), []) := by
  obtain ⟨hkept, hleft⟩ := @readChunks_spec MAX_OUTPUT_SIZE 0 [] pipe h (Nat.zero_le _)
  refine Prod.ext ?_ hleft
  have htake : pipe.flatten.take (min pipe.flatten.length MAX_OUTPUT_SIZE) =
      pipe.flatten.take MAX_OUTPUT_SIZE := by
    rw [Nat.min_comm, ← List.take_take, List.take_length]
  rw [htake]
  exact hkept

-- A chunk that hits the cap, and two more.
theorem readStdoutBounded_dots :
    readStdoutBounded MAX_OUTPUT_SIZE [List.replicate MAX_OUTPUT_SIZE 46, [10], [46, 46]] =
      (List.replicate MAX_OUTPUT_SIZE 46, []) := by
  have hdots : List.replicate MAX_OUTPUT_SIZE (46 : UInt8) ≠ [] :=
    mt (List.replicate_eq_nil_iff _).mp (by decide)
  rw [readStdoutBounded_eq_take (by simp only [List.forall_mem_cons]; exact ⟨hdots, by decide⟩),
    List.flatten_cons, Nat.min_eq_right, List.take_left' List.length_replicate]
  rw [List.length_append, List.length_replicate]
  exact Nat.le_add_right _ _

end EvoClaw.ContainerRunner.Stdout
