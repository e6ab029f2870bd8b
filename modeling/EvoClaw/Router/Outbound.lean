import EvoClaw.Json
import EvoClaw.Text.Blanks
import EvoClaw.Text.Chunks
import EvoClaw.Text.WithoutBlocks

-- What is sent to a channel, and what is made of its failures.
namespace EvoClaw.Router

open Text

def internalOpening : List Char := "<internal>".toList

def internalClosing : List Char := "</internal>".toList

-- re.sub(r"<internal>.*?</internal>", "", text, flags=re.DOTALL). The next `skip` characters
-- belong to a match.
def removeInternal : Nat → List Char → List Char
  | _, [] => []
  | skip + 1, _ :: rest => removeInternal skip rest
  | 0, c :: rest =>
      if internalOpening <+: c :: rest then
        match find internalClosing ((c :: rest).drop internalOpening.length) with
        | some i =>
            removeInternal (internalOpening.length + i + internalClosing.length - 1) rest
        | none => c :: removeInternal 0 rest
      else c :: removeInternal 0 rest

def stripInternalTags (text : List Char) : List Char := strip (removeInternal 0 text)

def formatOutbound (text : List Char) : List Char := stripInternalTags text

example : formatOutbound "<internal>plan</internal> yes<internal>".toList =
    "yes<internal>".toList := by decide +kernel

def TELEGRAM_MAX_LEN : Nat := 4000

def splitMessage (text : List Char) : List (List Char) :=
  if text.length ≤ TELEGRAM_MAX_LEN then [text]
  else (chunksFrom isSpace '\n' TELEGRAM_MAX_LEN 0 text.length text).filter (· ≠ [])

-- What one call of send_message comes to: the texts that the platform accepted, and whether it
-- raises.
structure Sent where
  accepted : List (List Char)
  raised : Bool
deriving DecidableEq

-- send_message of a channel for one chat. The calls are counted.
abbrev Send := Nat → List Char → Sent

structure Attempted where
  accepted : List (List Char)
  sent : Bool
  raised : Bool
  calls : Nat

-- for attempt in range(..): up to the first call that does not raise
def attempt (send : Send) (chunk : List Char) : Nat → Nat → Attempted
  | 0, calls => { accepted := [], sent := false, raised := false, calls }
  | left + 1, calls =>
      match send calls chunk with
      | ⟨accepted, false⟩ => { accepted, sent := true, raised := false, calls := calls + 1 }
      | ⟨accepted, true⟩ =>
          let later := attempt send chunk left (calls + 1)
          { later with accepted := accepted ++ later.accepted, raised := true }

def CHUNK_MAX_RETRIES : Nat := 2

def failureNotice (remaining : Nat) : List Char :=
  if 0 < remaining then
    "[Message delivery error: ".toList ++ (toString remaining).toList ++
      " chunk(s) could not be sent. Please try again.]".toList
  else "⚠️ 回應傳送失敗，請再試一次。".toList

-- `observed` says that a send_message raised: the chunk was tried again, and after the last
-- try the user was notified.
structure Routed where
  accepted : List (List Char)
  observed : Bool
deriving DecidableEq

def routeChunks (send : Send) : List (List Char) → Nat → Routed
  | [], _ => { accepted := [], observed := false }
  | chunk :: rest, calls =>
      let attempted := attempt send chunk (CHUNK_MAX_RETRIES + 1) calls
      if attempted.sent then
        let later := routeChunks send rest attempted.calls
        { accepted := attempted.accepted ++ later.accepted
          observed := attempted.raised || later.observed }
      else
        { accepted :=
            attempted.accepted ++ (send attempted.calls (failureNotice rest.length)).accepted
          observed := true }

-- route_outbound, for a chat that a channel owns.
def routeOutbound (send : Send) (text : List Char) : Routed :=
  routeChunks send (splitMessage (formatOutbound text)) 0

-- Every character was accepted in order, but for whitespace at the ends of chunks, or the
-- failure was observed.
def Routed.Accounts (routed : Routed) (text : List Char) : Prop :=
  Covers isSpace routed.accepted (formatOutbound text) ∨ routed.observed = true

section Silent

variable {send : Send} {pieces : List Char → List (List Char)} {text : List Char}
  {chunks : List (List Char)} {calls : Nat}

theorem covers_splitMessage (text : List Char) : Covers isSpace (splitMessage text) text := by
  unfold splitMessage
  split
  · exact covers_singleton isSpace text
  · exact (covers_chunksFrom (by decide) (by decide) (Nat.le_refl _)).filter_ne_nil

-- Nothing is tried again where nothing raises.
theorem routeChunks_of_silent (hsilent : ∀ n chunk, (send n chunk).raised = false) :
    routeChunks send chunks calls =
      { accepted := (chunks.zipIdx calls).flatMap fun entry => (send entry.2 entry.1).accepted
        observed := false } := by
  induction chunks generalizing calls with
  | nil => rfl
  | cons chunk rest ih =>
      have hattempt : attempt send chunk (CHUNK_MAX_RETRIES + 1) calls =
          { accepted := (send calls chunk).accepted, sent := true, raised := false,
            calls := calls + 1 } := by
        have hraised := hsilent calls chunk
        unfold attempt
        cases hsend : send calls chunk with
        | mk accepted raised =>
            rw [hsend] at hraised
            cases hraised
            rfl
      simp only [routeChunks, hattempt, ih, List.zipIdx_cons, List.flatMap_cons]
      simp

theorem flatMap_sublist {got want : List Char × Nat → List (List Char)}
    (hsub : ∀ entry, (got entry).Sublist (want entry)) (entries : List (List Char × Nat)) :
    (entries.flatMap got).Sublist (entries.flatMap want) := by
  induction entries with
  | nil => exact List.Sublist.refl _
  | cons entry rest ih => exact (hsub entry).append ih

theorem filter_flatMap_iff {got want : List Char × Nat → List (List Char)}
    (hsub : ∀ entry, (got entry).Sublist (want entry)) (entries : List (List Char × Nat)) :
    (entries.flatMap got).filter (Solid isSpace) = (entries.flatMap want).filter (Solid isSpace) ↔
      ∀ entry ∈ entries, (got entry).filter (Solid isSpace) =
        (want entry).filter (Solid isSpace) := by
  induction entries with
  | nil => simp
  | cons entry rest ih =>
      have hhead := (hsub entry).filter (Solid isSpace)
      have htail := (flatMap_sublist hsub rest).filter (Solid isSpace)
      simp only [List.flatMap_cons, List.filter_append, List.forall_mem_cons]
      rw [← ih]
      constructor
      · intro h
        have hlength := congrArg List.length h
        simp only [List.length_append] at hlength
        have hle := hhead.length_le
        have hle' := htail.length_le
        exact ⟨hhead.eq_of_length (by omega), htail.eq_of_length (by omega)⟩
      · rintro ⟨hfirst, hothers⟩
        rw [hfirst, hothers]

theorem covers_pieces (hcovers : ∀ chunk, Covers isSpace (pieces chunk) chunk) (calls : Nat)
    (h : Covers isSpace chunks text) :
    Covers isSpace ((chunks.zipIdx calls).flatMap fun entry => pieces entry.1) text := by
  induction chunks generalizing text calls with
  | nil => exact h
  | cons chunk rest ih =>
      obtain ⟨gap, tail, rfl, hgap, hrest⟩ := h
      rw [List.zipIdx_cons, List.flatMap_cons]
      exact ((hcovers chunk).append (ih (calls + 1) hrest)).spaced hgap

-- A channel that never raises has to have every solid piece accepted.
theorem accounts_iff_of_silent (hsilent : ∀ n chunk, (send n chunk).raised = false)
    (hcovers : ∀ chunk, Covers isSpace (pieces chunk) chunk)
    (hsub : ∀ n chunk, (send n chunk).accepted.Sublist (pieces chunk)) (text : List Char) :
    (routeOutbound send text).Accounts text ↔
      ∀ entry ∈ (splitMessage (formatOutbound text)).zipIdx,
        (send entry.2 entry.1).accepted.filter (Solid isSpace) =
          (pieces entry.1).filter (Solid isSpace) := by
  have hpieces := covers_pieces hcovers 0 (covers_splitMessage (formatOutbound text))
  rw [Routed.Accounts, routeOutbound, routeChunks_of_silent hsilent]
  simp only [Bool.false_eq_true, or_false]
  have hsub' : ∀ entry : List Char × Nat,
      (send entry.2 entry.1).accepted.Sublist (pieces entry.1) := fun entry =>
    hsub entry.2 entry.1
  rw [hpieces.accepted_iff (flatMap_sublist hsub' _), filter_flatMap_iff hsub']

end Silent

-- _split_message, for any limit.
section Splitting

-- while text: .. , with one unit of fuel for each test of the condition
def splitLoop (maxLen : Nat) : Nat → List Char → List (List Char) → Option (List (List Char))
  | 0, _, _ => none
  | fuel + 1, text, chunks =>
      if text = [] then some chunks
      else if text.length ≤ maxLen then some (chunks ++ [text])
      else
        let splitAt := cutAt '\n' maxLen 0 text
        splitLoop maxLen fuel ((text.drop splitAt).dropWhile (· = '\n'))
          (chunks ++ [(text.take splitAt).rdropWhile isSpace])

def splitMessageUpTo (maxLen fuel : Nat) (text : List Char) : Option (List (List Char)) :=
  if text.length ≤ maxLen then some [text]
  else (splitLoop maxLen fuel text []).map fun chunks => chunks.filter (· ≠ [])

variable {maxLen fuel : Nat} {text : List Char} {chunks : List (List Char)}

theorem splitLoop_eq (hpos : 0 < maxLen) (hfuel : text.length ≤ fuel) :
    splitLoop maxLen (fuel + 1) text chunks =
      some (chunks ++ chunksFrom isSpace '\n' maxLen 0 fuel text) := by
  induction fuel generalizing text chunks with
  | zero =>
      have hnil : text = [] := List.length_eq_zero_iff.mp (Nat.le_zero.mp hfuel)
      subst hnil
      simp [splitLoop, chunksFrom]
  | succ fuel ih =>
      unfold splitLoop chunksFrom
      split
      · simp
      · split
        · rfl
        · next hlong =>
            have hshorter := length_behind_cut '\n' 0 hpos (Nat.lt_of_not_le hlong)
            simp only
            rw [ih (by omega), List.append_assoc]
            rfl

theorem splitMessageUpTo_eq (hpos : 0 < maxLen) (hfuel : text.length < fuel) :
    splitMessageUpTo maxLen fuel text =
      some (if text.length ≤ maxLen then [text]
        else (chunksFrom isSpace '\n' maxLen 0 text.length text).filter (· ≠ [])) := by
  unfold splitMessageUpTo
  split
  · rfl
  · obtain ⟨rounds, rfl⟩ : ∃ rounds, fuel = rounds + 1 := ⟨fuel - 1, by omega⟩
    rw [splitLoop_eq hpos (Nat.le_of_lt_succ hfuel),
      chunksFrom_eq_of_le hpos (Nat.le_of_lt_succ hfuel) (Nat.le_refl text.length)]
    rfl

-- The limit that route_outbound keeps to.
theorem splitMessage_eq (hfuel : text.length < fuel) :
    splitMessageUpTo TELEGRAM_MAX_LEN fuel text = some (splitMessage text) :=
  splitMessageUpTo_eq (by decide) hfuel

theorem splitMessage_total_and_lossless (text : List Char) (maxLen : Nat) (hpos : 1 ≤ maxLen) :
    ∃ chunks,
      (∀ fuel, text.length < fuel → splitMessageUpTo maxLen fuel text = some chunks) ∧
      (∀ chunk ∈ chunks, chunk.length ≤ maxLen) ∧
      (maxLen < text.length → ∀ chunk ∈ chunks, chunk ≠ []) ∧
      chunks.flatten.filter (fun c => !isSpace c) = text.filter (fun c => !isSpace c) := by
  by_cases hshort : text.length ≤ maxLen
  · refine ⟨[text], fun fuel hfuel => ?_, fun chunk hchunk => ?_, fun hlong => ?_, by simp⟩
    · rw [splitMessageUpTo_eq hpos hfuel, if_pos hshort]
    · rw [List.mem_singleton.mp hchunk]
      exact hshort
    · omega
  · refine ⟨(chunksFrom isSpace '\n' maxLen 0 text.length text).filter (· ≠ []),
      fun fuel hfuel => ?_, fun chunk hchunk => ?_, fun _ chunk hchunk => ?_, ?_⟩
    · rw [splitMessageUpTo_eq hpos hfuel, if_neg hshort]
    · exact length_le_of_mem_chunksFrom (List.mem_filter.mp hchunk).1
    · exact of_decide_eq_true (List.mem_filter.mp hchunk).2
    · exact (covers_chunksFrom hpos (by decide) (Nat.le_refl _)).filter_ne_nil.filter_flatten

-- The only newline stands at the begin: nothing is cut off, and the next round is one shorter.
theorem splitMessage_total_and_lossless_newline :
    ∃ chunks,
      (∀ fuel, "\nab c".toList.length < fuel →
        splitMessageUpTo 2 fuel "\nab c".toList = some chunks) ∧
      (∀ chunk ∈ chunks, chunk.length ≤ 2) ∧
      (2 < "\nab c".toList.length → ∀ chunk ∈ chunks, chunk ≠ []) ∧
      chunks.flatten.filter (fun c => !isSpace c) =
        "\nab c".toList.filter (fun c => !isSpace c) :=
  splitMessage_total_and_lossless "\nab c".toList 2 (by decide)

end Splitting

end EvoClaw.Router

-- What strip_internal_tags leaves of a reply.
namespace EvoClaw.Router

open Text

-- The characters of strip_internal_tags(text), with their positions in the text.
def delivered (text : List Char) : List (Char × Nat) :=
  trim (isSpace ∘ Prod.fst) (keptFrom internalOpening internalClosing 0 0 text)

-- The position belongs to a block whose body is properly nested.
def InsideBlock (text : List Char) (position : Nat) : Prop :=
  ∃ before body after, text = before ++ (internalOpening ++ (body ++ (internalClosing ++ after))) ∧
    Balanced internalOpening internalClosing body ∧ before.length ≤ position ∧
    position < before.length + (internalOpening ++ (body ++ internalClosing)).length

-- No block lies inside of a properly nested one.
def Flat (text : List Char) : Prop :=
  ∀ before body after, text = before ++ (internalOpening ++ (body ++ (internalClosing ++ after))) →
    Balanced internalOpening internalClosing body → ¬ internalOpening <:+: body

structure Clean (text : List Char) : Prop where
  no_block : ¬ HasBlock internalOpening internalClosing (stripInternalTags text)
  idempotent : stripInternalTags (stripInternalTags text) = stripInternalTags text
  inside_removed : ∀ entry ∈ delivered text, ¬ InsideBlock text entry.2

variable {text : List Char}

theorem delimiters_internal : Delimiters '<' internalOpening internalClosing where
  opening_headed := ⟨"internal>".toList, rfl, by decide⟩
  closing_headed := ⟨"/internal>".toList, rfl, by decide⟩
  opening_not_prefix := by decide
  closing_not_prefix := by decide

theorem removeInternal_eq_map (start skip : Nat) (text : List Char) :
    removeInternal skip text =
      (keptFrom internalOpening internalClosing start skip text).map Prod.fst := by
  induction text generalizing start skip with
  | nil => rfl
  | cons c rest ih =>
      cases skip with
      | succ skip => exact ih (start + 1) skip
      | zero =>
          simp only [removeInternal, keptFrom]
          split
          · cases find internalClosing ((c :: rest).drop internalOpening.length) with
            | some i => exact ih _ _
            | none => exact congrArg (c :: ·) (ih (start + 1) 0)
          · exact congrArg (c :: ·) (ih (start + 1) 0)

theorem removeInternal_eq (text : List Char) :
    removeInternal 0 text = withoutBlocks internalOpening internalClosing text :=
  removeInternal_eq_map 0 0 text

theorem map_fst_delivered (text : List Char) :
    (delivered text).map Prod.fst = stripInternalTags text := by
  rw [delivered, map_trim, ← removeInternal_eq_map]
  rfl

theorem hasBlock_strip_iff :
    HasBlock internalOpening internalClosing (strip text) ↔
      HasBlock internalOpening internalClosing text := by
  have hiff : ∀ text, HasBlock internalOpening internalClosing text ↔
      ∃ body, internalOpening ++ (body ++ internalClosing) <:+: text := by
    intro text
    constructor
    · rintro ⟨before, body, after, rfl⟩
      exact ⟨body, before, after, by simp⟩
    · rintro ⟨body, before, after, rfl⟩
      exact ⟨before, body, after, by simp⟩
  rw [hiff, hiff]
  refine exists_congr fun body => ⟨fun h => h.trans <| trim_isInfix isSpace text, fun h => ?_⟩
  have hopening : internalOpening = '<' :: "internal>".toList := rfl
  have hclosing : internalClosing = "</internal".toList ++ ['>'] := rfl
  have hwhole : internalOpening ++ (body ++ internalClosing) =
      '<' :: ("internal>".toList ++ (body ++ "</internal".toList) ++ ['>']) := by
    rw [hopening, hclosing, List.cons_append, List.append_assoc, List.append_assoc]
  rw [hwhole] at h ⊢
  exact infix_trim (by decide) (by decide) h

theorem noBlock_iff (text : List Char) :
    ¬ HasBlock internalOpening internalClosing (stripInternalTags text) ↔
      ¬ JoinsBlock internalOpening internalClosing text := by
  rw [stripInternalTags, hasBlock_strip_iff, removeInternal_eq,
    hasBlock_withoutBlocks_iff delimiters_internal]

theorem stripInternalTags_fixed
    (h : ¬ HasBlock internalOpening internalClosing (stripInternalTags text)) :
    stripInternalTags (stripInternalTags text) = stripInternalTags text := by
  rw [stripInternalTags, removeInternal_eq, withoutBlocks_of_not_hasBlock delimiters_internal h]
  exact trim_trim isSpace _

-- What lies inside of a properly nested block is removed with it, unless it has blocks inside.
theorem inside_removed_iff (text : List Char) :
    (∀ entry ∈ delivered text, ¬ InsideBlock text entry.2) ↔ Flat text := by
  constructor
  · rintro h before body after rfl hbalanced hnested
    have hkept := kept_of_nested delimiters_internal hbalanced hnested before after
    refine h _ (mem_trim hkept (show isSpace '<' = false by decide)) ⟨before, body, after, rfl, hbalanced, ?_, ?_⟩
    · simp
    · have hpos : 0 < internalClosing.length := by decide
      simp only [List.length_append]
      omega
  · rintro hflat entry hentry ⟨before, body, after, heq, hbalanced, hfrom, hto⟩
    have hplain := hbalanced.not_closing (hflat before body after heq hbalanced)
    have htrim := trim_isInfix (isSpace ∘ Prod.fst)
      (keptFrom internalOpening internalClosing 0 0 text)
    have hkept := htrim.subset hentry
    have houtside := kept_outside_block delimiters_internal hplain heq hkept
    omega

-- The reply is clean exactly when no properly nested block has another one inside and no two
-- tags join around the blocks.
theorem strip_internal_tags_clean_iff (text : List Char) :
    Clean text ↔ Flat text ∧ ¬ JoinsBlock internalOpening internalClosing text := by
  rw [← inside_removed_iff, ← noBlock_iff]
  constructor
  · intro h
    exact ⟨h.inside_removed, h.no_block⟩
  · rintro ⟨hinside, hblock⟩
    exact ⟨hblock, stripInternalTags_fixed hblock, hinside⟩

def nestedReply : List Char := "<internal>a<internal>b</internal>c</internal>".toList

-- The first closing tag ends the outer block.
theorem strip_internal_tags_nested : ¬ Clean nestedReply := by
  intro h
  have hbody : Balanced internalOpening internalClosing
      ("a".toList ++ (internalOpening ++ ("b".toList ++ (internalClosing ++ "c".toList)))) :=
    Balanced.block (by decide) (by decide) (Balanced.plain (by decide) (by decide))
      (Balanced.plain (by decide) (by decide))
  have hinside : InsideBlock nestedReply 33 :=
    ⟨[], "a<internal>b</internal>c".toList, [], rfl, hbody, by decide, by decide⟩
  exact h.inside_removed ('c', 33) (by decide +kernel) hinside

-- Two halves of a tag join around the block between them.
example : stripInternalTags "<inter<internal>x</internal>nal>y</internal>".toList =
    "<internal>y</internal>".toList := by decide +kernel

end EvoClaw.Router
