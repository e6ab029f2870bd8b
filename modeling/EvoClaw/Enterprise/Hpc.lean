import EvoClaw.JsonText.Syntax
import EvoClaw.Posix.Shell

-- The command lines that host/enterprise/hpc_connector.py runs on the head node.
namespace EvoClaw.Enterprise.Hpc

open JsonText (intText)
open Posix.Shell

-- f"{n:02d}"
def twoDigits (n : Int) : List Char :=
  if 0 ≤ n ∧ n < 10 then '0' :: intText n else intText n

-- The arguments of _submit_slurm, as str() writes them.
structure Job where
  name : List Char
  script : List Char
  nodes : List Char
  cpus : List Char
  memoryGb : List Char
  hours : Int
  mins : Int
  part : List Char

def Job.walltime (job : Job) : List Char :=
  twoDigits job.hours ++ ':' :: (twoDigits job.mins ++ ":00".toList)

def Job.sbatch (job : Job) : List Char :=
  "#!/bin/bash\n#SBATCH --job-name=".toList ++ job.name ++ "\n#SBATCH --nodes=".toList ++
    job.nodes ++ "\n#SBATCH --ntasks-per-node=".toList ++ job.cpus ++ "\n#SBATCH --mem=".toList ++
    job.memoryGb ++ "G\n#SBATCH --time=".toList ++ job.walltime ++ "\n#SBATCH --partition=".toList ++
    job.part ++ "\n#SBATCH --output=".toList ++ job.name ++ "_%j.out\n\n".toList ++ job.script ++
    "\n".toList

inductive Command where
  | submit (job : Job)
  | qsub (remotePath : List Char)
  | squeue (jobId : List Char)
  | qstat (jobId : List Char)
  | scancel (jobId : List Char)
  | qdel (jobId : List Char)
  | tail (outputFile : List Char)

namespace Command

-- The parts between the spaces of each f-string, and the words and operators that are meant.
-- What a caller gives is in one word.
def pieces : Command → List (List Char × List Token)
  | .submit job =>
      [fixed "sbatch", option "--job-name=" job.name, option "--nodes=" job.nodes,
        option "--ntasks-per-node=" job.cpus, option "--mem=" (job.memoryGb ++ ['G']),
        ("--time=".toList ++ job.walltime, [.word ("--time=".toList ++ job.walltime)]),
        option "--partition=" job.part, option "--output=" (job.name ++ "_%j.out".toList),
        option "--wrap=" job.sbatch]
  | .qsub remotePath =>
      [fixed "qsub", (quote remotePath ++ [';'], [.word remotePath, .operator [';']]), fixed "rm",
        fixed "-f", argument remotePath]
  | .squeue jobId =>
      [fixed "squeue", fixed "-j", argument jobId, fixed "-h", fixed "-o", fixed "%T", noErrors,
        orElse, fixed "sacct", fixed "-j", argument jobId, fixed "-n", fixed "-o",
        fixed "State%20"]
  | .qstat jobId =>
      [fixed "qstat", fixed "-f", argument jobId, ("|".toList, [.operator ['|']]), fixed "grep",
        fixed "job_state"]
  | .scancel jobId => [fixed "scancel", argument jobId]
  | .qdel jobId => [fixed "qdel", argument jobId]
  | .tail outputFile =>
      [fixed "tail", fixed "-c", fixed "262144", argument outputFile, noErrors, orElse, fixed "echo",
        ("'(output file not found)'".toList, [.word "(output file not found)".toList])]
where
  fixed (text : String) : List Char × List Token := (text.toList, [.word text.toList])
  argument (text : List Char) : List Char × List Token := (quote text, [.word text])
  option (flag : String) (text : List Char) : List Char × List Token :=
    (flag.toList ++ quote text, [.word (flag.toList ++ text)])
  noErrors : List Char × List Token :=
    ("2>/dev/null".toList, [.operator ['2', '>'], .word "/dev/null".toList])
  orElse : List Char × List Token := ("||".toList, [.operator ['|', '|']])

def text (command : Command) : List Char := [' '].intercalate (command.pieces.map Prod.fst)

def intended (command : Command) : List Token := command.pieces.flatMap Prod.snd

end Command

section Numbers

theorem isPlain_of_isDigit {c : Char} (h : c.isDigit = true) : isPlain c = true := by
  refine isPlain_of_isSafe ?_
  simp only [Char.isDigit, Bool.and_eq_true, decide_eq_true_eq] at h
  simp only [isSafe, decide_eq_true_eq]
  exact .inr (.inr (.inl h))

theorem isPlain_intText (n : Int) : ∀ c ∈ intText n, isPlain c = true := by
  have hdigits : ∀ c ∈ Nat.toDigits 10 n.natAbs, isPlain c = true := fun c hc =>
    isPlain_of_isDigit (Nat.isDigit_of_mem_toDigits (by decide) (by decide) hc)
  intro c hc
  unfold intText at hc
  split at hc
  · rcases List.mem_cons.mp hc with rfl | hc
    · decide
    · exact hdigits c hc
  · exact hdigits c hc

theorem isPlain_twoDigits (n : Int) : ∀ c ∈ twoDigits n, isPlain c = true := by
  intro c hc
  unfold twoDigits at hc
  split at hc
  · rcases List.mem_cons.mp hc with rfl | hc
    · decide
    · exact isPlain_intText n c hc
  · exact isPlain_intText n c hc

end Numbers

theorem tokens_walltime (job : Job) :
    tokens ("--time=".toList ++ job.walltime) = some [.word ("--time=".toList ++ job.walltime)] := by
  refine tokens_plain (by simp) fun c hc => ?_
  unfold Job.walltime at hc
  simp only [List.mem_append, List.mem_cons] at hc
  rcases hc with hc | hc | rfl | hc | hc
  · exact List.all_eq_true.mp (by decide : "--time=".toList.all isPlain = true) c hc
  · exact isPlain_twoDigits job.hours c hc
  · decide
  · exact isPlain_twoDigits job.mins c hc
  · exact List.all_eq_true.mp (by decide : ":00".toList.all isPlain = true) c hc

theorem tokens_pieces (command : Command) :
    ∀ piece ∈ command.pieces, tokens piece.1 = some piece.2 := by
  have hfixed (text : String) (hne : text.toList ≠ [])
      (hplain : text.toList.all isPlain = true) :
      tokens (Command.pieces.fixed text).1 = some (Command.pieces.fixed text).2 :=
    tokens_plain hne (List.all_eq_true.mp hplain)
  have hargument (text : List Char) :
      tokens (Command.pieces.argument text).1 = some (Command.pieces.argument text).2 :=
    tokens_quote
  have hoption (flag : String) (text : List Char) (hne : flag.toList ≠ [])
      (hplain : flag.toList.all isPlain = true) :
      tokens (Command.pieces.option flag text).1 = some (Command.pieces.option flag text).2 :=
    tokens_option hne (List.all_eq_true.mp hplain)
  have hnoErrors : tokens Command.pieces.noErrors.1 = some Command.pieces.noErrors.2 := by decide
  have horElse : tokens Command.pieces.orElse.1 = some Command.pieces.orElse.2 := by decide
  cases command with
  | submit job =>
      simp only [Command.pieces, List.forall_mem_cons, List.not_mem_nil, false_imp_iff,
        implies_true, and_true]
      exact ⟨hfixed _ (by decide) (by decide), hoption _ _ (by decide) (by decide),
        hoption _ _ (by decide) (by decide), hoption _ _ (by decide) (by decide),
        hoption _ _ (by decide) (by decide), tokens_walltime job,
        hoption _ _ (by decide) (by decide), hoption _ _ (by decide) (by decide),
        hoption _ _ (by decide) (by decide)⟩
  | qsub remotePath =>
      simp only [Command.pieces, List.forall_mem_cons, List.not_mem_nil, false_imp_iff,
        implies_true, and_true]
      exact ⟨hfixed _ (by decide) (by decide), tokens_quote_semicolon,
        hfixed _ (by decide) (by decide), hfixed _ (by decide) (by decide), hargument _⟩
  | squeue jobId =>
      simp only [Command.pieces, List.forall_mem_cons, List.not_mem_nil, false_imp_iff,
        implies_true, and_true]
      exact ⟨hfixed _ (by decide) (by decide), hfixed _ (by decide) (by decide), hargument _,
        hfixed _ (by decide) (by decide), hfixed _ (by decide) (by decide),
        hfixed _ (by decide) (by decide), hnoErrors, horElse, hfixed _ (by decide) (by decide),
        hfixed _ (by decide) (by decide), hargument _, hfixed _ (by decide) (by decide),
        hfixed _ (by decide) (by decide), hfixed _ (by decide) (by decide)⟩
  | qstat jobId =>
      simp only [Command.pieces, List.forall_mem_cons, List.not_mem_nil, false_imp_iff,
        implies_true, and_true]
      exact ⟨hfixed _ (by decide) (by decide), hfixed _ (by decide) (by decide), hargument _,
        by decide, hfixed _ (by decide) (by decide), hfixed _ (by decide) (by decide)⟩
  | scancel jobId | qdel jobId =>
      simp only [Command.pieces, List.forall_mem_cons, List.not_mem_nil, false_imp_iff,
        implies_true, and_true]
      exact ⟨hfixed _ (by decide) (by decide), hargument _⟩
  | tail outputFile =>
      simp only [Command.pieces, List.forall_mem_cons, List.not_mem_nil, false_imp_iff,
        implies_true, and_true]
      exact ⟨hfixed _ (by decide) (by decide), hfixed _ (by decide) (by decide),
        hfixed _ (by decide) (by decide), hargument _, hnoErrors, horElse,
        hfixed _ (by decide) (by decide), by decide⟩

-- Whatever the names, scripts, ids and files are, the shell of the head node makes the words and
-- operators that are meant, and expands nothing.
theorem remote_words_intended (command : Command) :
    tokens command.text = some command.intended :=
  tokens_intercalate (tokens_pieces command)

example : (Command.scancel "1; rm -rf ~".toList).text = "scancel '1; rm -rf ~'".toList := by
  decide

end EvoClaw.Enterprise.Hpc
