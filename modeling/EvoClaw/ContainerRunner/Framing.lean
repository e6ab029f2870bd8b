import EvoClaw.ContainerRunner.Output
import EvoClaw.JsonText.Markers
import EvoClaw.Text.Blanks

namespace EvoClaw.ContainerRunner

open JsonText Text

variable {floatText : BitVec 64 → List Char} {floatOf : List Char → BitVec 64}
  {fields : Payload} {before json text : List Char}

theorem marker_start : Marker OUTPUT_START :=
  ⟨by decide, List.all_eq_true.mp (by decide)⟩

theorem marker_end : Marker OUTPUT_END :=
  ⟨by decide, List.all_eq_true.mp (by decide)⟩

section Whitespace

theorem isSpace_plain {c : Char} (h : isSpace c = true) : Plain c := by
  refine ⟨?_, ?_, ?_⟩ <;> rintro rfl <;> revert h <;> decide

-- Whitespace around a text changes nothing for a reader that is outside of the strings.
theorem scan_strip (h : scan .outside (strip text) = some .outside) :
    scan .outside text = some .outside := by
  obtain ⟨left, right, htext, hleft, hright⟩ := trim_spec isSpace text
  have h : scan .outside (trim isSpace text) = some .outside := h
  rw [htext, scan_append, scan_outside fun c hc => isSpace_plain (hleft c hc), Option.bind_some,
    scan_append, h]
  exact scan_outside fun c hc => isSpace_plain (hright c hc)

theorem strip_braces (body : List Char) :
    strip ('\n' :: ('{' :: (body ++ ['}']) ++ ['\n'])) = '{' :: (body ++ ['}']) := by
  have hnl : isSpace '\n' = true := by decide
  have hopen : isSpace '{' = false := by decide
  have hclose : isSpace '}' = false := by decide
  simp [strip, hnl, hopen, hclose]

end Whitespace

section Bytes

theorem length_le_byteLength (text : List Char) : text.length ≤ byteLength text := by
  unfold byteLength
  induction text with
  | nil => simp
  | cons c text ih =>
      have hpos := c.utf8Size_pos
      simp only [List.length_cons, List.map_cons, List.sum_cons]
      omega

theorem readStdoutBounded_eq {room : Nat} (h : byteLength text ≤ room) :
    readStdoutBounded room text = text := by
  induction text generalizing room with
  | nil => rfl
  | cons c text ih =>
      have hsum : byteLength (c :: text) = c.utf8Size + byteLength text := by simp [byteLength]
      unfold readStdoutBounded
      rw [if_pos (by omega), ih (by omega)]

end Bytes

theorem dumpFields_brace (floatText : BitVec 64 → List Char) (fields : Payload) :
    ∃ body, dumpFields floatText fields = body ++ ['}'] := by
  induction fields with
  | nil => exact ⟨[], rfl⟩
  | cons field fields ih =>
      obtain ⟨body, hbody⟩ := ih
      refine ⟨',' :: ' ' :: (quote field.1 ++ ':' :: ' ' :: (dumps floatText field.2 ++ body)), ?_⟩
      rw [dumpFields, hbody]
      simp

theorem dumps_braces (floatText : BitVec 64 → List Char) (fields : Payload) :
    ∃ body, dumps floatText (.obj fields) = '{' :: (body ++ ['}']) := by
  cases fields with
  | nil => exact ⟨[], rfl⟩
  | cons field fields =>
      obtain ⟨body, hbody⟩ := dumpFields_brace floatText fields
      refine ⟨quote field.1 ++ ':' :: ' ' :: (dumps floatText field.2 ++ body), ?_⟩
      rw [dumps, hbody]
      simp

-- Without a marker in the JSON the last start marker is the one of the frame.
theorem rfind_frame (h : ¬ OUTPUT_START <:+: json) :
    rfind OUTPUT_START (before ++ frame json) = some before.length := by
  apply rfind_append marker_start.ne_nil
  intro hword
  have htail : (OUTPUT_START ++ '\n' :: (json ++ '\n' :: (OUTPUT_END ++ ['\n']))).tail =
      OUTPUT_START.tail ++ '\n' :: (json ++ '\n' :: (OUTPUT_END ++ ['\n'])) := rfl
  have hnl : '\n' ∉ OUTPUT_START := marker_start.notMem rfl
  rw [htail] at hword
  rcases infix_split hnl hword with hstart | hword
  · exact absurd hstart.length_le (by decide)
  rcases infix_split hnl hword with hjson | hword
  · exact h hjson
  rcases infix_split hnl hword with hend | hnil
  · exact absurd hend.length_le (by decide)
  · exact marker_start.not_infix_nil hnil

theorem find_frame (h : ¬ OUTPUT_END <:+: json) :
    find OUTPUT_END ('\n' :: (json ++ '\n' :: (OUTPUT_END ++ ['\n']))) =
      some ('\n' :: (json ++ ['\n'])).length := by
  have hnl : '\n' ∉ OUTPUT_END := marker_end.notMem rfl
  have hfirst : ¬ OUTPUT_END <:+: '\n' :: (json ++ ['\n']) ++ OUTPUT_END.dropLast := by
    intro hword
    have hlines : '\n' :: (json ++ ['\n']) ++ OUTPUT_END.dropLast =
        [] ++ '\n' :: (json ++ '\n' :: OUTPUT_END.dropLast) := by simp
    rw [hlines] at hword
    rcases infix_split hnl hword with hnil | hword
    · exact marker_end.not_infix_nil hnil
    rcases infix_split hnl hword with hjson | hend
    · exact h hjson
    · exact absurd hend.length_le (by decide)
  have hfind := find_append ['\n'] hfirst
  simpa using hfind

theorem result_of_clean (before : List Char) (hreadable : Readable floatText floatOf (.obj fields))
    (hsize : (before ++ frame (dumps floatText (.obj fields))).length ≤ MAX_OUTPUT_SIZE)
    (hstart : ¬ OUTPUT_START <:+: dumps floatText (.obj fields))
    (hend : ¬ OUTPUT_END <:+: dumps floatText (.obj fields)) :
    Output.ofStdout floatOf (before ++ frame (dumps floatText (.obj fields))) =
      .result fields := by
  obtain ⟨body, hbody⟩ := dumps_braces floatText fields
  have hloads := loads_dumps hreadable
  generalize dumps floatText (.obj fields) = json at *
  have hbehind : (before ++ frame json).drop (before.length + OUTPUT_START.length) =
      '\n' :: (json ++ '\n' :: (OUTPUT_END ++ ['\n'])) := by
    rw [List.drop_length_add_append]
    exact List.drop_left
  have hraw : ('\n' :: (json ++ '\n' :: (OUTPUT_END ++ ['\n']))).take
      ('\n' :: (json ++ ['\n'])).length = '\n' :: (json ++ ['\n']) := by
    have hsplit : '\n' :: (json ++ '\n' :: (OUTPUT_END ++ ['\n'])) =
        '\n' :: (json ++ ['\n']) ++ (OUTPUT_END ++ ['\n']) := by simp
    rw [hsplit]
    exact List.take_left
  have hstrip : strip ('\n' :: (json ++ ['\n'])) = json := by
    rw [hbody]
    exact strip_braces body
  have hshort : ¬ MAX_OUTPUT_SIZE < json.length := by
    simp only [frame, List.length_append, List.length_cons] at hsize
    omega
  unfold Output.ofStdout
  simp only [rfind_frame hstart, hbehind, find_frame hend, hraw, hstrip, hloads, if_neg hshort]

theorem result_spec {stdout : List Char}
    (h : Output.ofStdout floatOf stdout = .result fields) :
    ∃ startIdx length, rfind OUTPUT_START stdout = some startIdx ∧
      find OUTPUT_END (stdout.drop (startIdx + OUTPUT_START.length)) = some length ∧
      loads floatOf (strip ((stdout.drop (startIdx + OUTPUT_START.length)).take length)) =
        some (.obj fields) := by
  unfold Output.ofStdout at h
  split at h
  · cases h
  · next startIdx hstart =>
      simp only at h
      split at h
      · cases h
      · next length hend =>
          split_ifs at h
          split at h
          · cases h
          · next found hfound =>
              cases h
              exact ⟨startIdx, length, hstart, hend, hfound⟩
          · cases h

-- What stands between the markers when the last start marker is one of the JSON.
theorem read_behind_start (hstart : OUTPUT_START <:+: json)
    (hscan : scan .outside json = some .outside)
    (hresult : Output.ofStdout floatOf (before ++ frame json) = .result fields) :
    ∃ raw, loads floatOf (strip raw) = some (.obj fields) ∧
      ∃ mode, scan .inside raw = some mode := by
  obtain ⟨startIdx, length, hrfind, hfind, hloads⟩ := result_spec hresult
  obtain hnil | ⟨u, x, rfl, hlast⟩ := exists_last hstart
  · exact absurd hnil marker_start.ne_nil
  have hstdout : before ++ frame (u ++ (OUTPUT_START ++ x)) =
      (before ++ (OUTPUT_START ++ '\n' :: u)) ++
        (OUTPUT_START ++ ((x ++ ['\n']) ++ (OUTPUT_END ++ ['\n']))) := by
    simp [frame]
  have hnl : '\n' ∉ OUTPUT_START := marker_start.notMem rfl
  have hlast' : ¬ OUTPUT_START <:+:
      (OUTPUT_START ++ ((x ++ ['\n']) ++ (OUTPUT_END ++ ['\n']))).tail := by
    intro hword
    have htail : (OUTPUT_START ++ ((x ++ ['\n']) ++ (OUTPUT_END ++ ['\n']))).tail =
        (OUTPUT_START ++ x).tail ++ '\n' :: (OUTPUT_END ++ ['\n']) := by
      rw [List.tail_append_of_ne_nil marker_start.ne_nil,
        List.tail_append_of_ne_nil marker_start.ne_nil]
      simp
    rw [htail] at hword
    rcases infix_split hnl hword with hx | hword
    · exact hlast hx
    rcases infix_split hnl hword with hend | hnil
    · exact absurd hend.length_le (by decide)
    · exact marker_start.not_infix_nil hnil
  rw [hstdout] at hrfind hfind hloads
  rw [rfind_append marker_start.ne_nil hlast'] at hrfind
  cases hrfind
  rw [List.drop_length_add_append, List.drop_left] at hfind hloads
  refine ⟨_, hloads, ?_⟩
  have hend : ∃ i, find OUTPUT_END ((x ++ ['\n']) ++ (OUTPUT_END ++ ['\n'])) = some i ∧
      i ≤ (x ++ ['\n']).length := find_le rfl
  obtain ⟨i, hi, hle⟩ := hend
  rw [hfind] at hi
  cases hi
  rw [List.take_append_of_le_length hle]
  -- The quotes of the whole line, read from inside of the string with the marker.
  have hinside : scan .inside (x ++ ['\n']) = some .outside := by
    rw [scan_append, (marker_start.scan_before hscan).2]
    rfl
  rw [← List.take_append_drop length (x ++ ['\n']), scan_append] at hinside
  obtain ⟨mode, hmode, -⟩ := Option.bind_eq_some_iff.mp hinside
  exact ⟨mode, hmode⟩

-- Two readers that disagree about the quotes accept nothing with an underscore.
theorem not_start_of_result (hreadable : Readable floatText floatOf (.obj fields))
    (hresult : Output.ofStdout floatOf (before ++ frame (dumps floatText (.obj fields))) =
      .result fields) :
    ¬ OUTPUT_START <:+: dumps floatText (.obj fields) := by
  intro hstart
  obtain ⟨raw, hloads, mode, hinside⟩ :=
    read_behind_start hstart (scan_dumps floatText hreadable) hresult
  obtain ⟨-, hslash, hunderscore⟩ := scan_both (scan_strip (scan_of_loads hloads)) hinside
  obtain ⟨marked, hmarked, hmarker⟩ := (marker_start.infix_dumps floatText hreadable).mp hstart
  have hmem := mem_of_loads hloads (fun h => hslash (mem_of_mem_strip h)) hmarked
    (hmarker.subset marker_start.underscore)
  exact hunderscore (mem_of_mem_strip hmem)

-- A text that ends at an end marker of the JSON ends inside of a string.
theorem not_end_of_result (hreadable : Readable floatText floatOf (.obj fields))
    (hstart : ¬ OUTPUT_START <:+: dumps floatText (.obj fields))
    (hresult : Output.ofStdout floatOf (before ++ frame (dumps floatText (.obj fields))) =
      .result fields) :
    ¬ OUTPUT_END <:+: dumps floatText (.obj fields) := by
  intro hend
  have hscan := scan_dumps floatText hreadable
  obtain ⟨startIdx, length, hrfind, hfind, hloads⟩ := result_spec hresult
  generalize dumps floatText (.obj fields) = json at *
  rw [rfind_frame hstart] at hrfind
  cases hrfind
  have hbehind : (before ++ frame json).drop (before.length + OUTPUT_START.length) =
      '\n' :: (json ++ '\n' :: (OUTPUT_END ++ ['\n'])) := by
    rw [List.drop_length_add_append]
    exact List.drop_left
  rw [hbehind] at hfind hloads
  obtain ⟨u, x, rfl⟩ := hend
  have hsplit : '\n' :: (u ++ OUTPUT_END ++ x ++ '\n' :: (OUTPUT_END ++ ['\n'])) =
      '\n' :: u ++ (OUTPUT_END ++ (x ++ '\n' :: (OUTPUT_END ++ ['\n']))) := by simp
  obtain ⟨i, hi, hle⟩ := find_le hsplit
  rw [hfind] at hi
  cases hi
  have hspec := find_spec hfind
  rw [hsplit, List.take_append_of_le_length hle] at hspec hloads
  generalize hraw : ('\n' :: u).take length = raw at hspec hloads
  have hshort : (raw ++ OUTPUT_END).length ≤ ('\n' :: (u ++ OUTPUT_END ++ x)).length := by
    rw [← hraw]
    simp only [List.length_append, List.length_take, List.length_cons]
    omega
  have hfound : raw ++ OUTPUT_END <+:
      '\n' :: u ++ (OUTPUT_END ++ (x ++ '\n' :: (OUTPUT_END ++ ['\n']))) :=
    ⟨_, (List.append_assoc ..).trans hspec.symm⟩
  have hjson : '\n' :: (u ++ OUTPUT_END ++ x) <+:
      '\n' :: u ++ (OUTPUT_END ++ (x ++ '\n' :: (OUTPUT_END ++ ['\n']))) :=
    ⟨'\n' :: (OUTPUT_END ++ ['\n']), by simp⟩
  have hline := List.prefix_of_prefix_length_le hfound hjson hshort
  obtain ⟨more, hmore⟩ := hline
  have hscan' : scan .outside (raw ++ (OUTPUT_END ++ more)) = some .outside := by
    rw [← List.append_assoc, hmore]
    exact hscan
  have hinside := (marker_end.scan_before hscan').1
  rw [scan_strip (scan_of_loads hloads)] at hinside
  cases hinside

-- The frame delivers every dictionary but those with a marker in one of their strings.
theorem emitted_result_iff (floatText : BitVec 64 → List Char) (floatOf : List Char → BitVec 64)
    (fields : Payload) (before printed : List Char)
    (hreadable : Readable floatText floatOf (.obj fields))
    (hemit : emit floatText fields = some printed)
    (hcap : byteLength (before ++ printed) ≤ MAX_OUTPUT_SIZE) :
    Output.ofStdout floatOf (readStdoutBounded MAX_OUTPUT_SIZE (before ++ printed)) =
        .result fields ↔
      ∀ s ∈ strings (.obj fields), ¬ OUTPUT_START <:+: s.toList ∧ ¬ OUTPUT_END <:+: s.toList := by
  have hprinted : printed = frame (dumps floatText (.obj fields)) := by
    unfold emit at hemit
    simp only at hemit
    split at hemit
    · exact (Option.some.inj hemit).symm
    · exact (Option.some.inj hemit).symm
    · split_ifs at hemit
      exact (Option.some.inj hemit).symm
  subst hprinted
  rw [readStdoutBounded_eq hcap]
  constructor
  · intro hresult
    have hstart := not_start_of_result hreadable hresult
    have hend := not_end_of_result hreadable hstart hresult
    rw [marker_start.infix_dumps floatText hreadable] at hstart
    rw [marker_end.infix_dumps floatText hreadable] at hend
    exact fun s hs => ⟨fun h => hstart ⟨s, hs, h⟩, fun h => hend ⟨s, hs, h⟩⟩
  · intro hclean
    apply result_of_clean _ hreadable ((length_le_byteLength _).trans hcap)
    · rw [marker_start.infix_dumps floatText hreadable]
      rintro ⟨s, hs, h⟩
      exact (hclean s hs).1 h
    · rw [marker_end.infix_dumps floatText hreadable]
      rintro ⟨s, hs, h⟩
      exact (hclean s hs).2 h

-- A start marker in the text before the frame does no harm.
theorem marker_before_frame_harmless :
    Output.ofStdout (fun _ => 0) (readStdoutBounded MAX_OUTPUT_SIZE
      (OUTPUT_START ++ "half a result".toList ++ frame (dumps (fun _ => [])
        (.obj [("status", .str "success"), ("result", .str "é\n\"done\"")])))) =
      .result [("status", .str "success"), ("result", .str "é\n\"done\"")] := by
  refine (emitted_result_iff (fun _ => []) (fun _ => 0) _ _ _ ?_ rfl ?_).mpr ?_
  · simp [Readable, ReadableFields]
  · decide +kernel
  · simp only [strings, fieldStrings]
    decide +kernel

-- A reply that quotes the end marker is cut there, and no JSON is left.
def quotingReply : Payload :=
  [("status", .str "success"), ("result", .str "It ends with ---EVOCLAW_OUTPUT_END---."),
    ("newSessionId", .str "s1")]

theorem quoted_end_marker_loses_result :
    emit (fun _ => []) quotingReply =
        some (frame (dumps (fun _ => []) (.obj quotingReply))) ∧
      Output.ofStdout (fun _ => 0) (readStdoutBounded MAX_OUTPUT_SIZE
        (frame (dumps (fun _ => []) (.obj quotingReply)))) ≠ .result quotingReply := by
  refine ⟨rfl, fun hresult => ?_⟩
  have hlost : (match Output.ofStdout (fun _ => 0) (readStdoutBounded MAX_OUTPUT_SIZE
      (frame (dumps (fun _ => []) (.obj quotingReply)))) with
      | .notJson => true
      | _ => false) = true := by decide +kernel
  rw [hresult] at hlost
  cases hlost

end EvoClaw.ContainerRunner
