import EvoClaw.Json
import EvoClaw.Router.Framing
import EvoClaw.Text.Blanks
import EvoClaw.Text.Search

-- What the host takes out of the prompt again.
namespace EvoClaw.Router

open Text Text.Markup

def opening : List Char := '<' :: "message".toList

def closing : List Char := '<' :: "/message>".toList

-- A match of <message[^>]*>(.*?)</message> at the begin of the text: its group and the text
-- behind it.
def matchMessage (text : List Char) : Option (List Char × List Char) :=
  if opening <+: text then
    match (text.drop opening.length).dropWhile (· ≠ '>') with
    | [] => none
    | _ :: inside =>
        (find closing inside).map fun i => (inside.take i, inside.drop (i + closing.length))
  else none

theorem matchMessage_length {text group rest : List Char}
    (h : matchMessage text = some (group, rest)) : rest.length < text.length := by
  unfold matchMessage at h
  split_ifs at h with hopening
  cases hbehind : (text.drop opening.length).dropWhile (· ≠ '>') with
  | nil =>
      rw [hbehind] at h
      cases h
  | cons c inside =>
      rw [hbehind] at h
      obtain ⟨i, -, heq⟩ := Option.map_eq_some_iff.mp h
      cases heq
      have hlength : ((text.drop opening.length).dropWhile (· ≠ '>')).length ≤
          (text.drop opening.length).length := (List.dropWhile_sublist _).length_le
      rw [hbehind] at hlength
      simp only [List.length_cons, List.length_drop] at hlength ⊢
      omega

-- re.findall(r"<message[^>]*>(.*?)</message>", text, flags=re.DOTALL)
def userTurns (text : List Char) : List (List Char) :=
  match text with
  | [] => []
  | c :: rest =>
      match _h : matchMessage (c :: rest) with
      | some (group, behind) => group :: userTurns behind
      | none => userTurns rest
termination_by text.length
decreasing_by
  · exact matchMessage_length ‹_›
  · simp

-- re.sub(r"<[^>]+>", "", text)
def stripTags (text : List Char) : List Char :=
  (tokens text).flatMap fun
    | .text content => content
    | .tag [] => ['<', '>']
    | .tag (_ :: _) => []

def shorten (lastMsg : List Char) : List Char :=
  if lastMsg = [] then "(no user message)".toList
  else (lastMsg.take 80).map fun c => if c = '\n' then ' ' else c

-- What run_container_agent writes to MEMORY.md as the task.
def promptPreview (prompt : List Char) : List Char :=
  shorten (strip (stripTags ((userTurns prompt).getLast?.getD [])))

variable {zone : Zone} {message : Message} {messages : List Message}
  {text body rest tag sender time : List Char} {parts : List (List Char)} {c : Char}

section Matches

theorem userTurns_nil : userTurns [] = [] := by
  rw [userTurns]

theorem userTurns_of_none (h : matchMessage (c :: rest) = none) :
    userTurns (c :: rest) = userTurns rest := by
  rw [userTurns]
  split
  · next heq =>
      rw [h] at heq
      cases heq
  · rfl

theorem userTurns_of_some (h : matchMessage (c :: rest) = some (body, text)) :
    userTurns (c :: rest) = body :: userTurns text := by
  rw [userTurns]
  split
  · next heq =>
      rw [h] at heq
      cases heq
      rfl
  · next heq =>
      rw [h] at heq
      cases heq

theorem userTurns_skip (htext : '<' ∉ text) : userTurns (text ++ rest) = userTurns rest := by
  induction text with
  | nil => rfl
  | cons c text ih =>
      simp only [List.mem_cons, not_or] at htext
      have hopening : ¬ opening <+: c :: (text ++ rest) := by
        rintro ⟨more, hmore⟩
        exact htext.1 (List.cons.inj hmore).1
      rw [List.cons_append, userTurns_of_none (if_neg hopening), ih htext.2]

-- A tag of another name is no match.
theorem userTurns_tag (hc : c ≠ 'm') (htag : '<' ∉ c :: tag) :
    userTurns ('<' :: (c :: tag ++ rest)) = userTurns rest := by
  have hopening : ¬ opening <+: '<' :: (c :: tag ++ rest) := by
    rintro ⟨more, hmore⟩
    exact hc (List.cons.inj (List.cons.inj hmore).2).1.symm
  rw [userTurns_of_none (if_neg hopening), userTurns_skip htag]

theorem userTurns_frame (htag : '>' ∉ tag)
    (hbody : ¬ closing <:+: body ++ closing.dropLast) :
    userTurns (opening ++ (tag ++ '>' :: (body ++ (closing ++ rest)))) =
      body :: userTurns rest := by
  have hbehind : (tag ++ '>' :: (body ++ (closing ++ rest))).dropWhile (· ≠ '>') =
      '>' :: (body ++ (closing ++ rest)) := by
    rw [List.dropWhile_append_of_pos]
    · simp
    · intro c hc
      simp only [ne_eq, decide_eq_true_eq]
      rintro rfl
      exact htag hc
  have hmatch : matchMessage (opening ++ (tag ++ '>' :: (body ++ (closing ++ rest)))) =
      some (body, rest) := by
    unfold matchMessage
    rw [if_pos (List.prefix_append _ _), List.drop_left, hbehind]
    simp only
    rw [find_append rest hbody]
    simp
  exact userTurns_of_some hmatch

theorem length_le_of_inside {word before short : List Char} (hc : c ∉ before)
    (h : c :: word <:+: before ++ short) : (c :: word).length ≤ short.length := by
  induction before with
  | nil => exact h.length_le
  | cons d before ih =>
      simp only [List.mem_cons, not_or] at hc
      rcases List.infix_cons_iff.mp h with ⟨more, hmore⟩ | h
      · exact absurd (List.cons.inj hmore).1 hc.1
      · exact ih hc.2 h

theorem closing_not_inside (hbody : '<' ∉ body) : ¬ closing <:+: body ++ closing.dropLast := by
  intro h
  have hlength : closing.length ≤ closing.dropLast.length := length_le_of_inside hbody h
  revert hlength
  decide

end Matches

section Tags

theorem stripTags_text (htext : '<' ∉ text) : stripTags text = text := by
  unfold stripTags
  rw [tokens_text htext]
  simp

theorem stripTags_tag (htext : '<' ∉ text) (htag : '>' ∉ tag) (hne : tag ≠ [])
    (rest : List Char) :
    stripTags (text ++ '<' :: (tag ++ '>' :: rest)) = text ++ stripTags rest := by
  unfold stripTags
  rw [tokens_tag htext htag]
  cases tag with
  | nil => exact absurd rfl hne
  | cons c tag => rfl

end Tags

section Prompts

theorem not_mem_of_plain (htext : ∀ c ∈ text, Plain c) : '<' ∉ text ∧ '>' ∉ text :=
  ⟨fun hmem => (htext _ hmem).1 rfl, fun hmem => (htext _ hmem).2.1 rfl⟩

theorem attributes_plain (hsender : ∀ c ∈ sender, Plain c) (htime : ∀ c ∈ time, Plain c) :
    '<' ∉ attributes sender time ∧ '>' ∉ attributes sender time := by
  have hs := not_mem_of_plain hsender
  have ht := not_mem_of_plain htime
  unfold attributes
  simp [hs, ht]

theorem userTurns_parts
    (h : messages.mapM (fun message : Message => message.format zone) = some parts) :
    userTurns (parts.flatMap ('\n' :: ·) ++ '\n' :: "</messages>".toList) =
      messages.map fun message => escape message.contentText := by
  have hnewline : '<' ∉ ['\n'] := by decide
  induction messages generalizing parts with
  | nil =>
      obtain rfl : [] = parts := Option.some.inj h
      have hend : '<' ∉ '/' :: "messages>".toList := by decide
      have hshape : '\n' :: "</messages>".toList =
          ['\n'] ++ '<' :: ('/' :: "messages>".toList ++ []) := by decide
      rw [List.flatMap_nil, List.nil_append, hshape, userTurns_skip hnewline,
        userTurns_tag (by decide) hend, userTurns_nil, List.map_nil]
  | cons message messages ih =>
      rw [List.mapM_cons] at h
      obtain ⟨part, hpart, h⟩ := Option.bind_eq_some_iff.mp h
      obtain ⟨parts, hparts, h⟩ := Option.bind_eq_some_iff.mp h
      cases h
      obtain ⟨time, htime, rfl⟩ := format_eq hpart
      have hattributes := attributes_plain (escape_plain message.senderText) htime
      have hcontent := not_mem_of_plain (escape_plain message.contentText)
      have hshape (rest : List Char) : '\n' :: ('<' :: (startTag (escape message.senderText) time ++
            '>' :: (escape message.contentText ++ '<' :: ("/message".toList ++ ['>']))) ++ rest) =
          ['\n'] ++ (opening ++ (attributes (escape message.senderText) time ++
            '>' :: (escape message.contentText ++ (closing ++ rest)))) := by
        unfold opening closing startTag
        simp
      rw [List.flatMap_cons, List.cons_append, List.cons_append, List.append_assoc, hshape,
        userTurns_skip hnewline, userTurns_frame hattributes.2 (closing_not_inside hcontent.1),
        ih hparts, List.map_cons]

theorem first_not_closing (hsender : '<' ∉ sender) (htime : '<' ∉ time) (hbody : '<' ∉ body) :
    ¬ closing <:+: '\n' :: '<' :: (startTag sender time ++ '>' :: body) ++ closing.dropLast := by
  intro h
  have hshape : '\n' :: '<' :: (startTag sender time ++ '>' :: body) ++ closing.dropLast =
      '\n' :: '<' :: "message".toList ++ ' ' :: (("sender=\"".toList ++ sender ++
        "\" time=\"".toList ++ time ++ ['"'] ++ '>' :: body) ++ closing.dropLast) := by
    unfold startTag attributes
    simp
  have hspace : ' ' ∉ closing := by decide
  rw [hshape] at h
  rcases infix_split hspace h with h | h
  · exact absurd h.length_le (by decide)
  · have hlater : '<' ∉ "sender=\"".toList ++ sender ++ "\" time=\"".toList ++ time ++ ['"'] ++
        '>' :: body := by
      simp [hsender, htime, hbody]
    exact closing_not_inside hlater h

theorem stripTags_escape (content : List Char) : stripTags (escape content) = escape content :=
  stripTags_text (not_mem_of_plain (escape_plain content)).1

-- The pattern takes <messages> for the start tag of the first message, and the start tag itself
-- for a part of the body.
theorem userTurns_messages
    (h : messages.mapM (fun message : Message => message.format zone) = some parts) :
    (userTurns ('<' :: ("messages".toList ++ '>' :: (parts.flatMap ('\n' :: ·) ++
        '\n' :: "</messages>".toList)))).map (fun turn => strip (stripTags turn)) =
      messages.map fun message => strip (escape message.contentText) := by
  cases messages with
  | nil =>
      obtain rfl : [] = parts := Option.some.inj h
      have hnone : matchMessage ('<' :: ("messages".toList ++ '>' :: ([].flatMap ('\n' :: ·) ++
          '\n' :: "</messages>".toList))) = none := by decide
      have hshape : "messages".toList ++ '>' :: ([].flatMap ('\n' :: ·) ++
          '\n' :: "</messages>".toList) =
          "messages>\n".toList ++ '<' :: ('/' :: "messages>".toList ++ []) := by decide
      have hbegin : '<' ∉ "messages>\n".toList := by decide
      have hend : '<' ∉ '/' :: "messages>".toList := by decide
      rw [userTurns_of_none hnone, hshape, userTurns_skip hbegin, userTurns_tag (by decide) hend,
        userTurns_nil, List.map_nil, List.map_nil]
  | cons message messages =>
      rw [List.mapM_cons] at h
      obtain ⟨part, hpart, h⟩ := Option.bind_eq_some_iff.mp h
      obtain ⟨parts, hparts, h⟩ := Option.bind_eq_some_iff.mp h
      cases h
      obtain ⟨time, htime, rfl⟩ := format_eq hpart
      have hsender := escape_plain message.senderText
      have hcontent := not_mem_of_plain (escape_plain message.contentText)
      have hshape (rest : List Char) : '<' :: ("messages".toList ++ '>' :: ('\n' ::
            ('<' :: (startTag (escape message.senderText) time ++ '>' ::
              (escape message.contentText ++ '<' :: ("/message".toList ++ ['>'])))) ++ rest)) =
          opening ++ (['s'] ++ '>' :: (('\n' :: '<' :: (startTag (escape message.senderText) time ++
            '>' :: escape message.contentText)) ++ (closing ++ rest))) := by
        unfold opening closing startTag
        simp
      have hfirst : stripTags ('\n' :: '<' :: (startTag (escape message.senderText) time ++
          '>' :: escape message.contentText)) = '\n' :: escape message.contentText := by
        have hnewline : '<' ∉ ['\n'] := by decide
        have hne : startTag (escape message.senderText) time ≠ [] := by
          unfold startTag
          simp
        have htag := stripTags_tag hnewline (startTag_closed hsender htime) hne
        exact (htag _).trans (by rw [stripTags_escape]; rfl)
      rw [List.flatMap_cons, List.append_assoc, hshape, userTurns_frame (by decide)
        (first_not_closing (not_mem_of_plain hsender).1 (not_mem_of_plain htime).1 hcontent.1),
        userTurns_parts hparts, List.map_cons, hfirst, Text.strip_cons_blank (by decide), List.map_map, List.map_cons]
      congr 1
      apply List.map_congr_left
      intro other _
      rw [Function.comp_apply, stripTags_escape]

-- Up to whitespace at its ends, each turn is the escaped content of its message.
theorem userTurns_formatMessages (zoneInfo : String → Option Zone) (messages : List Message)
    (timezone : String) {text : List Char}
    (hnames : ∀ name, zoneInfo name ≠ none → '<' ∉ name.toList)
    (h : formatMessages zoneInfo messages timezone = some text) :
    (userTurns text).map (fun turn => strip (stripTags turn)) =
      messages.map fun message => strip (escape message.contentText) := by
  obtain ⟨zone, parts, hzone, hparts, rfl⟩ := formatMessages_eq h
  have hname := hnames timezone (by simp [hzone])
  have hshape (rest : List Char) : [] ++ '<' :: (contextTag timezone ++ '>' :: (['\n'] ++ rest)) =
      '<' :: ('c' :: ("ontext timezone=\"".toList ++ timezone.toList ++ "\" />\n".toList) ++ rest) := by
    unfold contextTag
    simp
  have hcontext : '<' ∉ 'c' :: ("ontext timezone=\"".toList ++ timezone.toList ++
      "\" />\n".toList) := by
    simp [hname]
  rw [hshape, userTurns_tag (by decide) hcontext, userTurns_messages hparts]

-- Markup in a message does not change what the entry quotes: the last message, cut to 80
-- characters.
theorem promptPreview_formatMessages (zoneInfo : String → Option Zone) (messages : List Message)
    (timezone : String) {text : List Char}
    (hnames : ∀ name, zoneInfo name ≠ none → '<' ∉ name.toList)
    (h : formatMessages zoneInfo messages timezone = some text) :
    promptPreview text =
      shorten (strip (escape ((messages.getLast?.map Message.contentText).getD []))) := by
  have hturns := userTurns_formatMessages zoneInfo messages timezone hnames h
  have hlast := congrArg List.getLast? hturns
  rw [List.getLast?_map, List.getLast?_map] at hlast
  unfold promptPreview
  congr 1
  cases hmessage : messages.getLast? with
  | none =>
      rw [hmessage] at hlast
      rw [Option.map_eq_none_iff.mp hlast]
      rfl
  | some message =>
      rw [hmessage] at hlast
      obtain ⟨turn, hturn, heq⟩ := Option.map_eq_some_iff.mp hlast
      rw [hturn]
      exact heq

end Prompts

end EvoClaw.Router
