import EvoClaw.Keyed
import Mathlib.Algebra.BigOperators.Group.List.Basic
import Mathlib.Algebra.Order.Ring.Nat
import Mathlib.Data.List.Sort

-- A streamed response, put together again. The texts are lists of characters.
namespace EvoClaw.AgentLoop.Stream

open Keyed

def STREAM_MAX_TOTAL_BYTES : Nat := 1 * 1024 * 1024

def STREAM_MAX_ARGS_BYTES_PER_TOOL : Nat := 32 * 1024

structure FunctionDelta where
  name : Option (List Char)
  arguments : Option (List Char)

structure ToolCallDelta where
  index : Int
  id : Option (List Char)
  type : Option (List Char)
  function : Option FunctionDelta

structure Delta where
  content : Option (List Char)
  toolCalls : List ToolCallDelta

structure Choice where
  delta : Option Delta
  finishReason : Option (List Char)

structure Chunk where
  choices : List Choice

-- `if value:` of a text that may be None
def truthy (value : Option (List Char)) : Option (List Char) :=
  value.filter fun text => text ≠ []

structure Slot where
  id : List Char := []
  type : List Char := "function".toList
  name : List Char := []
  argsParts : List (List Char) := []
  argsBytes : Nat := 0
  truncated : Bool := false

structure StreamedToolCall where
  id : List Char
  type : List Char
  name : List Char
  arguments : List Char
deriving DecidableEq

structure StreamedResponse where
  content : Option (List Char)
  toolCalls : Option (List StreamedToolCall)
  finishReason : List Char
deriving DecidableEq

structure Accumulator where
  contentParts : List (List Char) := []
  -- tool_calls_acc
  slots : List (Int × Slot) := []
  finishReason : Option (List Char) := none
  totalBytes : Nat := 0

section Consume

-- A piece of the arguments, and what it adds to the total.
def Slot.append (slot : Slot) (a : List Char) : Slot × Nat :=
  if slot.argsBytes + a.length ≤ STREAM_MAX_ARGS_BYTES_PER_TOOL then
    ({ slot with
      argsParts := slot.argsParts ++ [a], argsBytes := slot.argsBytes + a.length }, a.length)
  else if slot.truncated then (slot, 0)
  else
    let slot := { slot with truncated := true }
    let remaining := STREAM_MAX_ARGS_BYTES_PER_TOOL - slot.argsBytes
    if 0 < remaining then
      ({ slot with
        argsParts := slot.argsParts ++ [a.take remaining]
        argsBytes := slot.argsBytes + remaining }, remaining)
    else (slot, 0)

def Slot.consume (slot : Slot) (tc : ToolCallDelta) : Slot × Nat :=
  let slot := { slot with
    id := (truthy tc.id).getD slot.id
    type := (truthy tc.type).getD slot.type
    name := (truthy (tc.function.bind FunctionDelta.name)).getD slot.name }
  match truthy (tc.function.bind FunctionDelta.arguments) with
  | none => (slot, 0)
  | some a => slot.append a

def Accumulator.consumeToolCall (acc : Accumulator) (tc : ToolCallDelta) : Accumulator :=
  let slot := (valueAt acc.slots tc.index).getD {}
  { acc with
    slots := amend {} acc.slots tc.index fun slot => (slot.consume tc).1
    totalBytes := acc.totalBytes + (slot.consume tc).2 }

def Accumulator.consumeDelta (acc : Accumulator) (delta : Delta) : Accumulator :=
  let acc := match truthy delta.content with
    | none => acc
    | some c => { acc with
        contentParts := acc.contentParts ++ [c], totalBytes := acc.totalBytes + c.length }
  delta.toolCalls.foldl Accumulator.consumeToolCall acc

def Accumulator.consumeChoice (acc : Accumulator) (choice : Choice) : Accumulator :=
  let acc := match choice.delta with
    | none => acc
    | some delta => acc.consumeDelta delta
  { acc with finishReason := (truthy choice.finishReason).or acc.finishReason }

-- The loop over the chunks. It stops behind the one that exceeds the total.
def Accumulator.drain (acc : Accumulator) : List Chunk → Accumulator
  | [] => acc
  | chunk :: rest =>
      match chunk.choices with
      | [] => acc.drain rest
      | choice :: _ =>
          let acc := acc.consumeChoice choice
          if STREAM_MAX_TOTAL_BYTES < acc.totalBytes then
            { acc with finishReason := acc.finishReason.or (some "length".toList) }
          else acc.drain rest

def Slot.toolCall (slot : Slot) : StreamedToolCall :=
  ⟨slot.id, slot.type, slot.name, slot.argsParts.flatten⟩

def Accumulator.response (acc : Accumulator) : StreamedResponse where
  content := if acc.contentParts = [] then none else some acc.contentParts.flatten
  toolCalls :=
    if acc.slots = [] then none
    else some ((acc.slots.mergeSort fun a b => a.1 ≤ b.1).map fun entry => entry.2.toolCall)
  finishReason := acc.finishReason.getD "stop".toList

def consumeStream (stream : List Chunk) : StreamedResponse :=
  (Accumulator.drain {} stream).response

end Consume

section Intended

structure IntendedCall where
  index : Int
  id : List Char
  name : List Char
  arguments : List Char

structure Intended where
  content : List Char
  calls : List IntendedCall
  distinct : (calls.map IntendedCall.index).Nodup

def Intended.totalSize (intended : Intended) : Nat :=
  intended.content.length + (intended.calls.map fun call => call.arguments.length).sum

-- The deltas of a stream, in their order.
def deltas (stream : List Chunk) : List Delta :=
  stream.filterMap fun chunk => chunk.choices.head?.bind Choice.delta

def contentOf (stream : List Chunk) : List Char :=
  (deltas stream).flatMap fun delta => delta.content.getD []

def toolDeltas (stream : List Chunk) : List ToolCallDelta :=
  (deltas stream).flatMap Delta.toolCalls

def ToolCallDelta.piece (tc : ToolCallDelta) : List Char :=
  (tc.function.bind FunctionDelta.arguments).getD []

def ToolCallDelta.name (tc : ToolCallDelta) : Option (List Char) :=
  tc.function.bind FunctionDelta.name

-- The deltas of the call with an index.
def own (index : Int) (tcs : List ToolCallDelta) : List ToolCallDelta :=
  tcs.filter fun tc => tc.index = index

-- The deltas carry one call: its id and its name whole, its arguments in pieces.
structure CarriesCall (tcs : List ToolCallDelta) (call : IntendedCall) : Prop where
  begun : tcs ≠ []
  ids : ∀ tc ∈ tcs, ∀ id ∈ truthy tc.id, id = call.id
  names : ∀ tc ∈ tcs, ∀ name ∈ truthy tc.name, name = call.name
  id_sent : call.id ≠ [] → ∃ tc ∈ tcs, tc.id = some call.id
  name_sent : call.name ≠ [] → ∃ tc ∈ tcs, tc.name = some call.name
  arguments : tcs.flatMap ToolCallDelta.piece = call.arguments

-- A stream of the intended response, cut and interleaved in any way.
structure Carries (stream : List Chunk) (intended : Intended) : Prop where
  content : contentOf stream = intended.content
  known : ∀ tc ∈ toolDeltas stream, tc.index ∈ intended.calls.map IntendedCall.index
  calls : ∀ call ∈ intended.calls, CarriesCall (own call.index (toolDeltas stream)) call

end Intended

section Slots

variable {slot : Slot} {args a : List Char} {tc : ToolCallDelta} {tcs : List ToolCallDelta}

-- A slot holds the arguments that came so far, up to the cap.
structure Slot.Holds (slot : Slot) (args : List Char) : Prop where
  parts : slot.argsParts.flatten = args.take STREAM_MAX_ARGS_BYTES_PER_TOOL
  bytes : slot.argsBytes = min args.length STREAM_MAX_ARGS_BYTES_PER_TOOL
  full : slot.truncated = true → STREAM_MAX_ARGS_BYTES_PER_TOOL ≤ args.length

theorem holds_empty : ({} : Slot).Holds [] where
  parts := rfl
  bytes := rfl
  full := by
    intro h
    cases h

theorem Slot.Holds.append (h : slot.Holds args) : (slot.append a).1.Holds (args ++ a) := by
  obtain ⟨hparts, hbytes, hfull⟩ := h
  unfold Slot.append
  split
  · next hfits =>
      rw [hbytes] at hfits
      refine ⟨?_, ?_, fun htruncated => ?_⟩
      · -- a piece that fits behind a slot that is full is empty
        by_cases hroom : args.length ≤ STREAM_MAX_ARGS_BYTES_PER_TOOL
        · rw [Nat.min_eq_left hroom] at hfits
          rw [List.flatten_append, hparts, List.take_of_length_le hroom,
            List.take_of_length_le (by rw [List.length_append]; exact hfits)]
          simp
        · have ha : a = [] := by
            rw [Nat.min_eq_right (Nat.le_of_not_le hroom)] at hfits
            exact List.eq_nil_of_length_eq_zero (by omega)
          subst ha
          rw [List.flatten_append, hparts, List.append_nil]
          simp
      · show slot.argsBytes + a.length = _
        rw [hbytes, List.length_append]
        omega
      · have := hfull htruncated
        rw [List.length_append]
        omega
  · next hover =>
      rw [hbytes] at hover
      split
      · next htruncated =>
          -- the slot is full: the piece is dropped
          have hlong := hfull htruncated
          refine ⟨?_, ?_, fun _ => ?_⟩
          · rw [List.take_append_of_le_length hlong]
            exact hparts
          · rw [hbytes, List.length_append]
            omega
          · rw [List.length_append]
            omega
      · have htotal : STREAM_MAX_ARGS_BYTES_PER_TOOL ≤ (args ++ a).length := by
          rw [List.length_append]
          omega
        dsimp only
        split
        · next hremaining =>
            rw [hbytes] at hremaining
            have hroom : args.length < STREAM_MAX_ARGS_BYTES_PER_TOOL := by omega
            refine ⟨?_, ?_, fun _ => htotal⟩
            · have hbytes' : slot.argsBytes = args.length := by omega
              rw [List.flatten_append, hparts, hbytes', List.take_append]
              simp
            · show slot.argsBytes + (STREAM_MAX_ARGS_BYTES_PER_TOOL - slot.argsBytes) = _
              rw [hbytes, Nat.min_eq_right htotal]
              omega
        · next hremaining =>
            rw [hbytes] at hremaining
            have hlong : STREAM_MAX_ARGS_BYTES_PER_TOOL ≤ args.length := by omega
            refine ⟨?_, ?_, fun _ => htotal⟩
            · rw [List.take_append_of_le_length hlong]
              exact hparts
            · show slot.argsBytes = _
              rw [hbytes, Nat.min_eq_right htotal, Nat.min_eq_right hlong]

theorem append_size_le : (slot.append a).2 ≤ a.length := by
  unfold Slot.append
  split
  · exact Nat.le_refl _
  · split
    · exact Nat.zero_le _
    · dsimp only
      split
      · next hover _ _ => omega
      · exact Nat.zero_le _

theorem append_id : (slot.append a).1.id = slot.id := by
  unfold Slot.append
  grind

theorem append_name : (slot.append a).1.name = slot.name := by
  unfold Slot.append
  grind

theorem truthy_eq_some_iff {value : Option (List Char)} {text : List Char} :
    truthy value = some text ↔ value = some text ∧ text ≠ [] := by
  simp [truthy, Option.filter_eq_some_iff]

-- A text that is no text adds nothing.
theorem truthy_getD_nil (value : Option (List Char)) : (truthy value).getD [] = value.getD [] := by
  cases value with
  | none => rfl
  | some text => cases text <;> rfl

theorem consume_id : (slot.consume tc).1.id = (truthy tc.id).getD slot.id := by
  unfold Slot.consume
  dsimp only
  split
  · rfl
  · rw [append_id]

theorem consume_name : (slot.consume tc).1.name = (truthy tc.name).getD slot.name := by
  unfold Slot.consume
  dsimp only
  split
  · rfl
  · rw [append_name]
    rfl

theorem Slot.Holds.consume (h : slot.Holds args) :
    (slot.consume tc).1.Holds (args ++ tc.piece) := by
  have hpiece : tc.piece = (truthy (tc.function.bind FunctionDelta.arguments)).getD [] :=
    (truthy_getD_nil _).symm
  rw [hpiece]
  unfold Slot.consume
  dsimp only
  split
  · next hnone =>
      rw [hnone, Option.getD_none, List.append_nil]
      exact ⟨h.parts, h.bytes, h.full⟩
  · next piece hsome =>
      rw [hsome, Option.getD_some]
      exact Slot.Holds.append ⟨h.parts, h.bytes, h.full⟩

theorem consume_size_le : (slot.consume tc).2 ≤ tc.piece.length := by
  have hpiece : tc.piece = (truthy (tc.function.bind FunctionDelta.arguments)).getD [] :=
    (truthy_getD_nil _).symm
  rw [hpiece]
  unfold Slot.consume
  dsimp only
  split
  · exact Nat.zero_le _
  · next hsome =>
      rw [hsome]
      exact append_size_le

theorem foldl_holds (h : slot.Holds args) :
    (tcs.foldl (fun slot tc => (slot.consume tc).1) slot).Holds
      (args ++ tcs.flatMap ToolCallDelta.piece) := by
  induction tcs generalizing slot args with
  | nil => simpa using h
  | cons tc rest ih =>
      have hrest := ih (h.consume : (slot.consume tc).1.Holds (args ++ tc.piece))
      rwa [List.append_assoc] at hrest

-- A field that is set by every text that arrives, when only one text arrives.
theorem foldl_settled {value : List Char} (field : ToolCallDelta → Option (List Char))
    (get : Slot → List Char)
    (hget : ∀ slot tc, get (slot.consume tc).1 = (truthy (field tc)).getD (get slot))
    (honly : ∀ tc ∈ tcs, ∀ text ∈ truthy (field tc), text = value)
    (hsent : get slot ≠ value → ∃ tc ∈ tcs, truthy (field tc) = some value) :
    get (tcs.foldl (fun slot tc => (slot.consume tc).1) slot) = value := by
  induction tcs generalizing slot with
  | nil =>
      by_contra hne
      obtain ⟨tc, htc, _⟩ := hsent hne
      cases htc
  | cons tc rest ih =>
      refine ih (fun other hmem => honly other (List.mem_cons_of_mem _ hmem)) fun hne => ?_
      rw [hget] at hne
      cases hfield : truthy (field tc) with
      | some text =>
          have := honly tc List.mem_cons_self text hfield
          rw [hfield, this] at hne
          exact absurd rfl hne
      | none =>
          rw [hfield] at hne
          obtain ⟨other, hmem, hother⟩ := hsent hne
          cases List.mem_cons.mp hmem with
          | inl hhead =>
              rw [hhead, hfield] at hother
              cases hother
          | inr hrest => exact ⟨other, hrest, hother⟩

-- What the model is told of a call.
def StreamedToolCall.told (call : StreamedToolCall) : List Char × List Char × List Char :=
  (call.id, call.name, call.arguments)

def IntendedCall.told (call : IntendedCall) : List Char × List Char × List Char :=
  (call.id, call.name, call.arguments.take STREAM_MAX_ARGS_BYTES_PER_TOOL)

def slotOf (tcs : List ToolCallDelta) : Slot :=
  tcs.foldl (fun slot tc => (slot.consume tc).1) {}

theorem told_slotOf {call : IntendedCall} (h : CarriesCall tcs call) :
    (slotOf tcs).toolCall.told = call.told := by
  have hid : (slotOf tcs).id = call.id := by
    refine foldl_settled ToolCallDelta.id Slot.id (fun _ _ => consume_id) h.ids fun hne => ?_
    obtain ⟨tc, htc, hsent⟩ := h.id_sent (Ne.symm hne)
    exact ⟨tc, htc, truthy_eq_some_iff.mpr ⟨hsent, Ne.symm hne⟩⟩
  have hname : (slotOf tcs).name = call.name := by
    refine foldl_settled ToolCallDelta.name Slot.name (fun _ _ => consume_name) h.names
      fun hne => ?_
    obtain ⟨tc, htc, hsent⟩ := h.name_sent (Ne.symm hne)
    exact ⟨tc, htc, truthy_eq_some_iff.mpr ⟨hsent, Ne.symm hne⟩⟩
  have hholds : (slotOf tcs).Holds ([] ++ tcs.flatMap ToolCallDelta.piece) :=
    foldl_holds holds_empty
  have hargs := hholds.parts
  rw [List.nil_append, h.arguments] at hargs
  unfold StreamedToolCall.told IntendedCall.told
  rw [← hid, ← hname, ← hargs]
  rfl

end Slots

section Drain

variable {acc : Accumulator} {stream : List Chunk}

theorem foldl_consumeToolCall (tcs : List ToolCallDelta) :
    (tcs.foldl Accumulator.consumeToolCall acc).contentParts = acc.contentParts ∧
    (tcs.foldl Accumulator.consumeToolCall acc).slots =
      tcs.foldl (fun slots tc => amend {} slots tc.index fun slot => (slot.consume tc).1)
        acc.slots ∧
    (tcs.foldl Accumulator.consumeToolCall acc).totalBytes ≤
      acc.totalBytes + (tcs.flatMap ToolCallDelta.piece).length := by
  induction tcs generalizing acc with
  | nil => exact ⟨rfl, rfl, Nat.le_refl _⟩
  | cons tc rest ih =>
      obtain ⟨hcontent, hslots, hbytes⟩ := @ih (acc.consumeToolCall tc)
      refine ⟨hcontent, hslots, ?_⟩
      have hsize : (acc.consumeToolCall tc).totalBytes ≤ acc.totalBytes + tc.piece.length :=
        Nat.add_le_add_left consume_size_le _
      rw [List.foldl_cons, List.flatMap_cons, List.length_append]
      omega

-- What a delta can add to the total.
def Delta.size (delta : Delta) : Nat :=
  (delta.content.getD []).length + (delta.toolCalls.flatMap ToolCallDelta.piece).length

-- The content's parts are the texts that came so far.
structure Accumulator.Gathers (acc : Accumulator) (content : List Char)
    (tcs : List ToolCallDelta) (size : Nat) : Prop where
  content : acc.contentParts.flatten = content
  parts : ∀ part ∈ acc.contentParts, part ≠ []
  slots : acc.slots =
    tcs.foldl (fun slots tc => amend {} slots tc.index fun slot => (slot.consume tc).1) []
  bytes : acc.totalBytes ≤ size

theorem Accumulator.Gathers.consumeDelta {content : List Char} {tcs : List ToolCallDelta}
    {size : Nat} (h : acc.Gathers content tcs size) (delta : Delta) :
    (acc.consumeDelta delta).Gathers (content ++ delta.content.getD []) (tcs ++ delta.toolCalls)
      (size + delta.size) := by
  unfold Accumulator.consumeDelta
  rw [← truthy_getD_nil]
  have hlength : delta.size = ((truthy delta.content).getD []).length +
      (delta.toolCalls.flatMap ToolCallDelta.piece).length := by
    rw [truthy_getD_nil]
    rfl
  cases htext : truthy delta.content with
  | none =>
      obtain ⟨hcontent, hslots, hbytes⟩ := @foldl_consumeToolCall acc delta.toolCalls
      refine ⟨?_, ?_, ?_, ?_⟩
      · rw [hcontent, h.content]
        simp
      · rw [hcontent]
        exact h.parts
      · rw [hslots, h.slots, List.foldl_append]
      · have := h.bytes
        dsimp only
        omega
  | some text =>
      obtain ⟨hcontent, hslots, hbytes⟩ := @foldl_consumeToolCall
        { acc with
          contentParts := acc.contentParts ++ [text]
          totalBytes := acc.totalBytes + text.length } delta.toolCalls
      refine ⟨?_, ?_, ?_, ?_⟩
      · rw [hcontent, List.flatten_append, h.content]
        simp
      · rw [hcontent]
        intro part hpart
        cases List.mem_append.mp hpart with
        | inl hold => exact h.parts part hold
        | inr hnew =>
            rw [List.mem_singleton.mp hnew]
            exact (truthy_eq_some_iff.mp htext).2
      · rw [hslots, h.slots, List.foldl_append]
      · have := h.bytes
        rw [htext, Option.getD_some] at hlength
        dsimp only at hbytes ⊢
        omega

-- The finish reason is no part of what is gathered.
theorem Accumulator.Gathers.consumeChoice {content : List Char} {tcs : List ToolCallDelta}
    {size : Nat} (h : acc.Gathers content tcs size) (choice : Choice) :
    (acc.consumeChoice choice).Gathers (content ++ contentOf [⟨[choice]⟩])
      (tcs ++ toolDeltas [⟨[choice]⟩]) (size + ((deltas [⟨[choice]⟩]).map Delta.size).sum) := by
  obtain ⟨delta, reason⟩ := choice
  cases delta with
  | none =>
      simp only [contentOf, toolDeltas, deltas, List.filterMap_cons, List.head?_cons,
        Option.bind_some, List.filterMap_nil, List.flatMap_nil, List.append_nil, List.map_nil,
        List.sum_nil, Nat.add_zero]
      exact ⟨h.content, h.parts, h.slots, h.bytes⟩
  | some delta =>
      have hdelta := h.consumeDelta delta
      simp only [contentOf, toolDeltas, deltas, List.filterMap_cons, List.head?_cons,
        Option.bind_some, List.filterMap_nil, List.flatMap_cons, List.flatMap_nil, List.append_nil,
        List.map_cons, List.map_nil, List.sum_cons, List.sum_nil, Nat.add_zero]
      exact ⟨hdelta.content, hdelta.parts, hdelta.slots, hdelta.bytes⟩

theorem deltas_cons (chunk : Chunk) (rest : List Chunk) :
    deltas (chunk :: rest) = deltas [⟨chunk.choices.head?.toList⟩] ++ deltas rest := by
  obtain ⟨choices⟩ := chunk
  cases choices with
  | nil => rfl
  | cons choice others =>
      obtain ⟨delta, reason⟩ := choice
      cases delta <;> rfl

-- The cap is not reached, so the loop goes through the whole stream.
theorem Accumulator.Gathers.drain {content : List Char} {tcs : List ToolCallDelta} {size : Nat}
    (h : acc.Gathers content tcs size)
    (hsize : size + ((deltas stream).map Delta.size).sum ≤ STREAM_MAX_TOTAL_BYTES) :
    (acc.drain stream).Gathers (content ++ contentOf stream) (tcs ++ toolDeltas stream)
      (size + ((deltas stream).map Delta.size).sum) := by
  induction stream generalizing acc content tcs size with
  | nil =>
      simp only [contentOf, toolDeltas, deltas, List.filterMap_nil, List.flatMap_nil,
        List.append_nil, List.map_nil, List.sum_nil, Nat.add_zero]
      exact h
  | cons chunk rest ih =>
      have hsplit := deltas_cons chunk rest
      rw [hsplit, List.map_append, List.sum_append, ← Nat.add_assoc] at hsize ⊢
      unfold contentOf toolDeltas
      rw [hsplit, List.flatMap_append, List.flatMap_append, ← List.append_assoc,
        ← List.append_assoc]
      obtain ⟨choices⟩ := chunk
      cases choices with
      | nil =>
          have hnone : deltas [⟨(none : Option Choice).toList⟩] = [] := rfl
          rw [List.head?_nil, hnone] at hsize ⊢
          simp only [List.map_nil, List.sum_nil, Nat.add_zero, List.flatMap_nil,
            List.append_nil] at hsize ⊢
          exact ih h hsize
      | cons choice others =>
          have hstep := h.consumeChoice choice
          have hfits : ¬STREAM_MAX_TOTAL_BYTES < (acc.consumeChoice choice).totalBytes := by
            have := hstep.bytes
            simp only [List.head?_cons, Option.toList_some] at hsize
            omega
          rw [Accumulator.drain]
          dsimp only
          rw [if_neg hfits]
          exact ih hstep hsize

end Drain

section Grouping

variable {tcs : List ToolCallDelta}

-- The deltas fall into the groups of their indexes.
theorem sum_own (f : ToolCallDelta → Nat) {indexes : List Int} (hnodup : indexes.Nodup)
    (hknown : ∀ tc ∈ tcs, tc.index ∈ indexes) :
    (tcs.map f).sum = (indexes.map fun index => ((own index tcs).map f).sum).sum := by
  induction indexes generalizing tcs with
  | nil =>
      have hnil : tcs = [] :=
        List.eq_nil_iff_forall_not_mem.mpr fun tc htc => absurd (hknown tc htc) (by simp)
      rw [hnil]
      rfl
  | cons index rest ih =>
      obtain ⟨hfresh, hrest⟩ := List.nodup_cons.mp hnodup
      have hothers := @ih (tcs.filter fun tc => ¬tc.index = index) hrest (by
        intro tc htc
        obtain ⟨hmem, hne⟩ := List.mem_filter.mp htc
        exact (List.mem_cons.mp (hknown tc hmem)).resolve_left (of_decide_eq_true hne))
      have hsame : ∀ other ∈ rest, own other (tcs.filter fun tc => ¬tc.index = index) =
          own other tcs := by
        intro other hmem
        have hne : other ≠ index := fun h => hfresh (h ▸ hmem)
        unfold own
        rw [List.filter_filter]
        refine List.filter_congr fun tc _ => ?_
        by_cases heq : tc.index = other
        · simp [heq, hne]
        · simp [heq]
      have hgroups : (rest.map fun other =>
          ((own other (tcs.filter fun tc => ¬tc.index = index)).map f).sum) =
          rest.map fun other => ((own other tcs).map f).sum :=
        List.map_congr_left fun other hmem => by rw [hsame other hmem]
      rw [hgroups] at hothers
      have hperm := List.filter_append_perm (fun tc : ToolCallDelta => tc.index = index) tcs
      rw [← (hperm.map f).sum_eq, List.map_append, List.sum_append, List.map_cons, List.sum_cons,
        ← hothers]
      simp [own]

theorem sum_size (ds : List Delta) :
    (ds.map Delta.size).sum = (ds.flatMap fun delta => delta.content.getD []).length +
      ((ds.flatMap Delta.toolCalls).map fun tc => tc.piece.length).sum := by
  induction ds with
  | nil => rfl
  | cons delta rest ih =>
      rw [List.map_cons, List.sum_cons, ih, List.flatMap_cons, List.flatMap_cons,
        List.length_append, List.map_append, List.sum_append, Delta.size, List.length_flatMap]
      omega

theorem sum_size_of_carries {stream : List Chunk} {intended : Intended}
    (h : Carries stream intended) :
    ((deltas stream).map Delta.size).sum = intended.totalSize := by
  have hcalls : ∀ call ∈ intended.calls,
      ((own call.index (toolDeltas stream)).map fun tc => tc.piece.length).sum =
        call.arguments.length := by
    intro call hcall
    rw [← (h.calls call hcall).arguments, List.length_flatMap]
  rw [sum_size]
  show (contentOf stream).length + ((toolDeltas stream).map _).sum = _
  rw [sum_own _ intended.distinct h.known, List.map_map, h.content, Intended.totalSize]
  exact congrArg _ (congrArg List.sum (List.map_congr_left hcalls))

end Grouping

section Reassembly

variable {stream : List Chunk} {intended : Intended}

def Accumulator.entries (acc : Accumulator) : List (Int × List Char × List Char × List Char) :=
  acc.slots.map fun entry => (entry.1, entry.2.toolCall.told)

def Intended.entries (intended : Intended) : List (Int × List Char × List Char × List Char) :=
  intended.calls.map fun call => (call.index, call.told)

-- Each call has one slot, which holds what is told of it.
theorem entries_perm {acc : Accumulator} {content : List Char} {size : Nat}
    (hgathers : acc.Gathers content (toolDeltas stream) size) (h : Carries stream intended) :
    acc.entries.Perm intended.entries := by
  have hnodup : (acc.slots.map Prod.fst).Nodup := by
    rw [hgathers.slots]
    exact nodup_foldl ToolCallDelta.index _ _ List.nodup_nil
  have hslot : ∀ index, valueAt acc.slots index =
      if own index (toolDeltas stream) = [] then none
      else some (slotOf (own index (toolDeltas stream))) := by
    intro index
    rw [hgathers.slots]
    exact valueAt_foldl ToolCallDelta.index (fun (slot : Slot) tc => (slot.consume tc).1) _ index
  refine (List.perm_ext_iff_of_nodup ?_ ?_).mpr fun entry => ?_
  · refine List.Nodup.of_map Prod.fst ?_
    rw [Accumulator.entries, List.map_map]
    exact hnodup
  · refine List.Nodup.of_map Prod.fst ?_
    rw [Intended.entries, List.map_map]
    exact intended.distinct
  · unfold Accumulator.entries Intended.entries
    rw [List.mem_map, List.mem_map]
    constructor
    · rintro ⟨⟨index, slot⟩, hmem, rfl⟩
      have hvalue := (valueAt_eq_some_iff hnodup).mpr hmem
      rw [hslot] at hvalue
      split at hvalue
      · cases hvalue
      · next hown =>
          -- a delta of the slot names a call
          obtain ⟨tc, htc⟩ := List.exists_mem_of_ne_nil _ hown
          obtain ⟨hdelta, hindex⟩ := List.mem_filter.mp htc
          obtain ⟨call, hcall, hsame⟩ := List.mem_map.mp (h.known tc hdelta)
          have hcallIndex : call.index = index := hsame.trans (of_decide_eq_true hindex)
          subst hcallIndex
          refine ⟨call, hcall, ?_⟩
          rw [← Option.some.inj hvalue, told_slotOf (h.calls call hcall)]
    · rintro ⟨call, hcall, rfl⟩
      have hcarries := h.calls call hcall
      refine ⟨(call.index, slotOf (own call.index (toolDeltas stream))), ?_, ?_⟩
      · refine (valueAt_eq_some_iff hnodup).mp ?_
        rw [hslot, if_neg hcarries.begun]
      · rw [told_slotOf hcarries]

theorem told_response {acc : Accumulator} :
    acc.response.toolCalls.map (List.map StreamedToolCall.told) =
      if acc.slots = [] then none
      else some ((acc.entries.mergeSort fun a b => a.1 ≤ b.1).map Prod.snd) := by
  unfold Accumulator.response Accumulator.entries
  dsimp only
  split
  · rfl
  · rw [← List.map_mergeSort (r := fun a b => a.1 ≤ b.1) (by intro a _ b _; rfl)]
    simp [Function.comp_def]

theorem told_intended :
    (intended.entries.mergeSort fun a b => a.1 ≤ b.1).map Prod.snd =
      (intended.calls.mergeSort fun a b => a.index ≤ b.index).map IntendedCall.told := by
  unfold Intended.entries
  rw [← List.map_mergeSort (r := fun a b : IntendedCall => a.index ≤ b.index)
    (by intro a _ b _; rfl), List.map_map]
  rfl

theorem content_response {acc : Accumulator} {content : List Char} {tcs : List ToolCallDelta}
    {size : Nat} (h : acc.Gathers content tcs size) :
    acc.response.content = if content = [] then none else some content := by
  unfold Accumulator.response
  dsimp only
  have hflat := h.content
  by_cases hnone : acc.contentParts = []
  · rw [hnone, List.flatten_nil] at hflat
    rw [if_pos hnone, if_pos hflat.symm]
  · have hcontent : content ≠ [] := by
      intro hnil
      rw [hnil] at hflat
      obtain ⟨part, hpart⟩ := List.exists_mem_of_ne_nil _ hnone
      exact h.parts part hpart (List.flatten_eq_nil_iff.mp hflat part hpart)
    rw [if_neg hnone, if_neg hcontent, hflat]

theorem calls_response {acc : Accumulator} (hperm : acc.entries.Perm intended.entries) :
    acc.response.toolCalls.map (List.map StreamedToolCall.told) =
      if intended.calls = [] then none
      else some ((intended.calls.mergeSort fun a b => a.index ≤ b.index).map
        IntendedCall.told) := by
  have hkeys : (intended.entries.map Prod.fst).Nodup := by
    rw [Intended.entries, List.map_map]
    exact intended.distinct
  have hiff : acc.slots = [] ↔ intended.calls = [] := by
    have hlength := hperm.length_eq
    unfold Accumulator.entries Intended.entries at hlength
    rw [List.length_map, List.length_map] at hlength
    rw [← List.length_eq_zero_iff, hlength, List.length_eq_zero_iff]
  rw [told_response, ← told_intended, mergeSort_eq_of_perm hkeys hperm.symm]
  by_cases hcalls : intended.calls = []
  · rw [if_pos hcalls, if_pos (hiff.mpr hcalls)]
  · rw [if_neg hcalls, if_neg (fun hslots => hcalls (hiff.mp hslots))]

-- The response does not depend on how it was cut and interleaved.
theorem stream_reassembled (h : Carries stream intended)
    (hsize : intended.totalSize ≤ STREAM_MAX_TOTAL_BYTES) :
    (consumeStream stream).content =
      (if intended.content = [] then none else some intended.content) ∧
    (consumeStream stream).toolCalls.map (List.map StreamedToolCall.told) =
      if intended.calls = [] then none
      else some ((intended.calls.mergeSort fun a b => a.index ≤ b.index).map
        IntendedCall.told) := by
  have hempty : ({} : Accumulator).Gathers [] [] 0 :=
    ⟨rfl, (by intro part hpart; cases hpart), rfl, Nat.le_refl _⟩
  have hbytes : 0 + ((deltas stream).map Delta.size).sum ≤ STREAM_MAX_TOTAL_BYTES := by
    rw [sum_size_of_carries h, Nat.zero_add]
    exact hsize
  have hgathers := hempty.drain hbytes
  rw [List.nil_append, List.nil_append, h.content] at hgathers
  exact ⟨content_response hgathers, calls_response (entries_perm hgathers h)⟩

def twoCalls : Intended where
  content := "ok".toList
  calls := [⟨1, "b".toList, "Read".toList, "{}".toList⟩, ⟨0, "a".toList, "Bash".toList, "[1]".toList⟩]
  distinct := by decide

-- The deltas of the two calls alternate, and the content comes between them.
def interleaved : List Chunk := [
  ⟨[⟨some ⟨some "o".toList, [⟨1, some "b".toList, none, some ⟨some "Read".toList, none⟩⟩]⟩, none⟩]⟩,
  ⟨[]⟩,
  ⟨[⟨some ⟨none, [⟨0, some "a".toList, none, some ⟨some "Bash".toList, some "[".toList⟩⟩,
    ⟨1, none, none, some ⟨none, some "\x7b".toList⟩⟩]⟩, none⟩]⟩,
  ⟨[⟨some ⟨some "k".toList, [⟨0, none, none, some ⟨none, some "1]".toList⟩⟩]⟩, none⟩]⟩,
  ⟨[⟨some ⟨none, [⟨1, none, none, some ⟨none, some "\x7d".toList⟩⟩]⟩, some "tool_calls".toList⟩]⟩]

theorem interleaved_carries : Carries interleaved twoCalls where
  content := by decide
  known := by decide
  calls := by
    intro call hcall
    simp only [twoCalls, List.mem_cons, List.not_mem_nil, or_false] at hcall
    rcases hcall with rfl | rfl
    · exact ⟨by decide, by decide, by decide, by decide, by decide, by decide⟩
    · exact ⟨by decide, by decide, by decide, by decide, by decide, by decide⟩

theorem interleaved_reassembled :
    (consumeStream interleaved).content = some "ok".toList ∧
    (consumeStream interleaved).toolCalls.map (List.map StreamedToolCall.told) =
      some ((twoCalls.calls.mergeSort fun a b => a.index ≤ b.index).map IntendedCall.told) :=
  stream_reassembled interleaved_carries (by decide)

end Reassembly

end EvoClaw.AgentLoop.Stream
